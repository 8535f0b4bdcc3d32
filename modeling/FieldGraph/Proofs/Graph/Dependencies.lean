import FieldGraph.Proofs.Graph.Visits
import FieldGraph.Proofs.Library.Declared

/-! # Dependencies

The walk to the dependencies of some nodes ends, as no node depends on itself. It lists
exactly the nodes from which one of these is reached, none of them twice, and each behind
the nodes that feed it.

The order in which a function is fingerprinted has the outputs in the order in which the
walk was given them: output nodes feed nothing, so that they are only met as starts.
-/

namespace FieldGraph

open List Option Relation

namespace Graph

variable {graph : Graph} {free order middle result starts : List Int} {id source : Int}
  {node : Node}

theorem mem_sources_iff : source ∈ graph.sources node ↔ ∃ place ∈ node.inputPorts, ∃ edge,
    graph.incoming? place = some edge ∧ edge.source.node = source := by
  simp [sources]

theorem Valid.feeds_of_mem_sources (valid : graph.Valid) (mem : source ∈ graph.sources node) :
    graph.Feeds source node.id := by
  obtain ⟨place, listed, edge, recorded, rfl⟩ := mem_sources_iff.mp mem
  obtain ⟨present, ends⟩ := (valid.incoming_iff place edge).mp recorded
  obtain ⟨index, -, rfl⟩ := mem_map.mp listed
  exact ⟨edge, present, rfl, by rw [ends]⟩

theorem Valid.mem_sources (valid : graph.Valid) (found : graph.node? node.id = some node)
    (feeds : graph.Feeds source node.id) : source ∈ graph.sources node := by
  obtain ⟨edge, listed, rfl, ends⟩ := feeds
  obtain ⟨other, there, inside⟩ := hasInput_iff.mp (valid.target_exists edge listed)
  cases found.symm.trans (ends ▸ there)
  exact mem_sources_iff.mpr ⟨edge.target, mem_ports ends inside, edge,
    (valid.incoming_iff _ _).mpr ⟨listed, rfl⟩, rfl⟩

/-- Every listed node is behind all nodes that feed it. -/
def Topological (graph : Graph) (order : List Int) : Prop :=
  ∀ front id back, order = front ++ id :: back → ∀ source, graph.Feeds source id → source ∈ front

theorem Topological.concat (ordered : graph.Topological order)
    (fed : ∀ source, graph.Feeds source id → source ∈ order) :
    graph.Topological (order ++ [id]) := by
  intro front other back split source feeds
  rcases eq_nil_or_concat back with rfl | ⟨early, last, rfl⟩
  · obtain ⟨rfl, same⟩ := append_inj' split rfl
    obtain rfl := singleton_inj.mp same
    exact fed source feeds
  · rw [concat_eq_append, ← cons_append, ← append_assoc] at split
    obtain ⟨rfl, -⟩ := append_inj' split rfl
    exact ordered front other early rfl source feeds

/-- What a walk that starts at some nodes adds to an order. -/
structure Walks (graph : Graph) (free starts order result : List Int) : Prop where
  appended : order <+: result
  nodup : order.Nodup → result.Nodup
  reached : ∀ id ∈ starts, id ∈ result
  closed : ∀ id ∈ result, id ∈ order ∨
    ∃ node, graph.node? id = some node ∧ ∀ source ∈ graph.sources node, source ∈ result
  ordered : graph.Topological order → graph.Topological result
  new : ∀ id ∈ result, id ∈ order ∨ id ∈ free ∧ ∃ start ∈ starts, ReflTransGen graph.Feeds id start

theorem walks_nil (graph : Graph) (free order : List Int) : Walks graph free [] order order :=
  ⟨prefix_rfl, fun nodup => nodup, nofun, fun _ mem => .inl mem,
    fun ordered => ordered, fun _ mem => .inl mem⟩

theorem Walks.trans {start : Int} (first : Walks graph free [start] order middle)
    (rest : Walks graph free starts middle result) :
    Walks graph free (start :: starts) order result where
  appended := first.appended.trans rest.appended
  nodup nodup := rest.nodup (first.nodup nodup)
  reached id mem := by
    rcases mem_cons.mp mem with rfl | later
    · exact rest.appended.subset (first.reached id mem_cons_self)
    · exact rest.reached id later
  closed id mem := by
    rcases rest.closed id mem with before | closed
    · rcases first.closed id before with start | ⟨node, found, sources⟩
      · exact .inl start
      · exact .inr ⟨node, found, fun source fed => rest.appended.subset (sources source fed)⟩
    · exact .inr closed
  ordered start := rest.ordered (first.ordered start)
  new id mem := by
    rcases rest.new id mem with before | ⟨isFree, other, later, path⟩
    · rcases first.new id before with start | ⟨isFree, other, only, path⟩
      · exact .inl start
      · rw [mem_singleton.mp only] at path
        exact .inr ⟨isFree, start, mem_cons_self, path⟩
    · exact .inr ⟨isFree, other, mem_cons_of_mem _ later, path⟩

theorem walks_foldlM {step : List Int → Int → Except EditError (List Int)}
    (each : ∀ order id result, step order id = .ok result → Walks graph free [id] order result)
    (starts : List Int) (walked : starts.foldlM step order = .ok result) :
    Walks graph free starts order result := by
  induction starts generalizing order with
  | nil =>
    cases walked
    exact walks_nil graph free _
  | cons start starts ih =>
    obtain ⟨middle, first, rest⟩ := bind_eq_ok_iff.mp walked
    exact (each _ _ _ first).trans (ih rest)

theorem visit_cases (visited : graph.visit free order id = .ok result) :
    id ∈ order ∧ result = order ∨
      id ∉ order ∧ id ∈ free ∧ ∃ node before, graph.node? id = some node ∧
        (graph.sources node).foldlM (graph.visit (free.erase id)) order = .ok before ∧
          result = before ++ [id] := by
  rw [visit] at visited
  split at visited
  · rename_i listed
    exact .inl ⟨contains_iff_mem.mp listed, (Except.ok.inj visited).symm⟩
  rename_i unlisted
  split at visited
  · rename_i isFree
    obtain ⟨node, found, rest⟩ := bind_eq_ok_iff.mp visited
    obtain ⟨before, walked, same⟩ := bind_eq_ok_iff.mp rest
    refine .inr ⟨fun listed => unlisted (contains_iff_mem.mpr listed), isFree, node, before,
      find_eq_ok_iff.mp found, walked, (Except.ok.inj same).symm⟩
  · split at visited <;> cases visited

theorem walks_of_mem (free : List Int) (listed : id ∈ order) :
    Walks graph free [id] order order := by
  refine ⟨prefix_rfl, fun nodup => nodup, ?_, fun _ mem => .inl mem,
    fun ordered => ordered, fun _ mem => .inl mem⟩
  intro other mem
  rwa [mem_singleton.mp mem]

section

variable (valid : graph.Valid)

include valid

theorem Valid.walks_append {before : List Int} (found : graph.node? node.id = some node)
    (isFree : node.id ∈ free) (absent : node.id ∉ before)
    (inner : Walks graph (free.erase node.id) (graph.sources node) order before) :
    Walks graph free [node.id] order (before ++ [node.id]) where
  appended := inner.appended.trans (prefix_append _ _)
  nodup start := by
    rw [← concat_eq_append, nodup_concat]
    exact ⟨absent, inner.nodup start⟩
  reached other mem := mem_append_right _ mem
  closed other mem := by
    rcases mem_append.mp mem with here | last
    · rcases inner.closed other here with start | ⟨supplier, present, sources⟩
      · exact .inl start
      · exact .inr ⟨supplier, present, fun source fed => mem_append_left _ (sources source fed)⟩
    · rw [mem_singleton.mp last]
      exact .inr ⟨node, found, fun source fed =>
        mem_append_left _ (inner.reached source fed)⟩
  ordered start := (inner.ordered start).concat fun source feeds =>
    inner.reached source (valid.mem_sources found feeds)
  new other mem := by
    rcases mem_append.mp mem with here | last
    · rcases inner.new other here with start | ⟨isFree', source, fed, path⟩
      · exact .inl start
      · exact .inr ⟨mem_of_mem_erase isFree', node.id, mem_cons_self,
          path.tail (valid.feeds_of_mem_sources fed)⟩
    · rw [mem_singleton.mp last]
      exact .inr ⟨isFree, node.id, mem_cons_self, .refl⟩

theorem Valid.walks_visit (nodup : free.Nodup) (visited : graph.visit free order id = .ok result) :
    Walks graph free [id] order result := by
  -- Every step deeper leaves a node less to enter.
  induction length : free.length using Nat.strongRecOn generalizing free order id result with
  | ind count ih =>
    rcases visit_cases visited with
      ⟨listed, rfl⟩ | ⟨unlisted, isFree, node, before, found, walked, rfl⟩
    · exact walks_of_mem free listed
    · have shorter : (free.erase id).length < count := by
        rw [length_erase_of_mem isFree]
        have := length_pos_of_mem isFree
        omega
      obtain ⟨-, rfl⟩ := mem_of_node? found
      have inner := walks_foldlM (fun order other result visited =>
        ih _ shorter (nodup.erase _) visited rfl) _ walked
      refine valid.walks_append found isFree ?_ inner
      intro listed
      rcases inner.new _ listed with start | ⟨again, -⟩
      · exact unlisted start
      · exact nodup.not_mem_erase again

theorem Valid.exists_visit (nodup : free.Nodup) (within : ∀ other ∈ free, other ∈ graph.nodeIds)
    (enterable : ∀ other, ReflTransGen graph.Feeds other id → other ∈ free) (order : List Int) :
    ∃ result, graph.visit free order id = .ok result := by
  -- Every step deeper leaves a node less to enter.
  induction length : free.length using Nat.strongRecOn generalizing free id order with
  | ind count ih =>
    have isFree := enterable id .refl
    obtain ⟨node, found⟩ := isSome_iff_exists.mp (hasNode_iff.mpr (within id isFree))
    obtain ⟨-, rfl⟩ := mem_of_node? found
    have shorter : (free.erase node.id).length < count := by
      rw [length_erase_of_mem isFree]
      have := length_pos_of_mem isFree
      omega
    have each : ∀ source ∈ graph.sources node, ∀ reached,
        ∃ next, graph.visit (free.erase node.id) reached source = .ok next := by
      intro source mem reached
      refine ih _ shorter (nodup.erase _)
        (fun other listed => within other (mem_of_mem_erase listed)) ?_ reached rfl
      intro other path
      -- No node depends on itself, so the walk does not come back to this one.
      have feeds := TransGen.tail' path (valid.feeds_of_mem_sources mem)
      have apart : other ≠ node.id := fun same => valid.acyclic node.id (same ▸ feeds)
      exact (mem_erase_of_ne apart).mpr (enterable other feeds.to_reflTransGen)
    obtain ⟨before, walked⟩ := exists_foldlM_ok each order
    rw [visit]
    split
    · exact ⟨order, rfl⟩
    · exact ⟨before ++ [node.id], bind_eq_ok_iff.mpr ⟨node, find_eq_ok_iff.mpr found,
        bind_eq_ok_iff.mpr ⟨before, walked, rfl⟩⟩⟩

theorem Valid.mem_nodeIds_of_path {root : Int} (mem : root ∈ graph.nodeIds)
    (path : ReflTransGen graph.Feeds id root) : id ∈ graph.nodeIds := by
  rcases path.cases_head with rfl | ⟨next, ⟨edge, listed, rfl, -⟩, -⟩
  · exact mem
  · exact valid.source_mem listed

end

variable {roots : List Int}

theorem Valid.exists_dependencies (valid : graph.Valid)
    (exist : ∀ root ∈ roots, root ∈ graph.nodeIds) :
    ∃ order, graph.dependencies roots = .ok order := by
  rw [valid.dependencies_eq]
  refine exists_foldlM_ok (fun root mem reached => ?_) []
  exact valid.exists_visit valid.nodeIds_nodup (fun _ listed => listed)
    (fun other path => valid.mem_nodeIds_of_path (exist root mem) path) reached

theorem Valid.walks_dependencies (valid : graph.Valid)
    (walked : graph.dependencies roots = .ok order) : Walks graph graph.nodeIds roots [] order := by
  rw [valid.dependencies_eq] at walked
  exact walks_foldlM (fun _ _ _ visited => valid.walks_visit valid.nodeIds_nodup visited) _ walked

theorem Valid.mem_dependencies_iff (valid : graph.Valid)
    (walked : graph.dependencies roots = .ok order) :
    id ∈ order ↔ ∃ root ∈ roots, ReflTransGen graph.Feeds id root := by
  have walks := valid.walks_dependencies walked
  constructor
  · intro mem
    exact ((walks.new id mem).resolve_left not_mem_nil).2
  · rintro ⟨root, mem, path⟩
    induction path using ReflTransGen.head_induction_on with
    | refl => exact walks.reached root mem
    | head feeds _ listed =>
      obtain ⟨node, found, sources⟩ := (walks.closed _ listed).resolve_left not_mem_nil
      obtain ⟨-, rfl⟩ := mem_of_node? found
      exact sources _ (valid.mem_sources found feeds)

/-- Whether a node hands a value out of its graph. -/
def isOutputId (graph : Graph) (id : Int) : Bool := (graph.node? id).any (·.kind.isOutput)

variable (sound : graph.Sound)

include sound

theorem Sound.not_feeds_of_isOutputId {fed : Int} (isOutput : graph.isOutputId id = true) :
    ¬ graph.Feeds id fed := by
  rintro ⟨edge, mem, rfl, -⟩
  obtain ⟨node, found, inside⟩ := hasOutput_iff.mp (sound.valid.source_exists edge mem)
  have formed := sound.nodes node (mem_of_node? found).1
  rw [isOutputId, found, any_some] at isOutput
  have empty : node.outputs = [] := by
    cases kind : node.kind with
    | outputSdf | outputWeight | outputType | customOutput =>
      rw [formed.outputs (by rw [kind]; exact nofun), kind]
      rfl
    | _ =>
      rw [kind] at isOutput
      cases isOutput
  rw [empty] at inside
  simp [atPlace?] at inside

theorem Sound.filter_visit (nodup : free.Nodup) (distinct : order.Nodup)
    (isOutput : graph.isOutputId id = true) (fresh : id ∉ order)
    (visited : graph.visit free order id = .ok result) :
    result.filter graph.isOutputId = order.filter graph.isOutputId ++ [id] := by
  rcases visit_cases visited with ⟨old, -⟩ | ⟨-, -, node, before, found, inner, rfl⟩
  · exact (fresh old).elim
  have inside := walks_foldlM (fun _ _ _ visited =>
    sound.valid.walks_visit (nodup.erase _) visited) _ inner
  obtain ⟨new, rfl⟩ := inside.appended
  have none : new.filter graph.isOutputId = [] := by
    rw [filter_eq_nil_iff]
    intro other mem isOutput
    rcases inside.new other (mem_append_right _ mem) with old | ⟨-, source, fed, path⟩
    · exact (nodup_append.mp (inside.nodup distinct)).2.2 other old other mem rfl
    · rcases path.cases_head with rfl | ⟨next, feeds, -⟩
      · exact sound.not_feeds_of_isOutputId isOutput (sound.valid.feeds_of_mem_sources fed)
      · exact sound.not_feeds_of_isOutputId isOutput feeds
  rw [filter_append, filter_append, none, append_nil, filter_cons_of_pos isOutput, filter_nil]

theorem Sound.filter_walk (nodup : free.Nodup) (distinct : order.Nodup) (apart : starts.Nodup)
    (fresh : ∀ id ∈ starts, id ∉ order) (outputs : ∀ id ∈ starts, graph.isOutputId id = true)
    (walked : starts.foldlM (graph.visit free) order = .ok result) :
    result.filter graph.isOutputId = order.filter graph.isOutputId ++ starts := by
  induction starts generalizing order with
  | nil =>
    cases walked
    rw [append_nil]
  | cons start starts ih =>
    obtain ⟨middle, first, rest⟩ := bind_eq_ok_iff.mp walked
    obtain ⟨other, apart⟩ := nodup_cons.mp apart
    have walks := sound.valid.walks_visit nodup first
    have listed := sound.filter_visit nodup distinct (outputs start mem_cons_self)
      (fresh start mem_cons_self) first
    have later := ih (walks.nodup distinct) apart ?_
      (fun id mem => outputs id (mem_cons_of_mem _ mem)) rest
    · rw [later, listed, append_assoc, singleton_append]
    · intro id mem old
      rcases walks.new id old with before | ⟨-, last, only, path⟩
      · exact fresh id (mem_cons_of_mem _ mem) before
      · rcases path.cases_head with rfl | ⟨next, feeds, -⟩
        · exact other (mem_singleton.mp only ▸ mem)
        · exact sound.not_feeds_of_isOutputId (outputs id (mem_cons_of_mem _ mem)) feeds

end Graph

/-! ## The outputs of a function -/

theorem nodup_distinct {α : Type} [BEq α] [LawfulBEq α] (items : List α) :
    (distinct items).Nodup := by
  refine foldlRecOn items _ nodup_nil fun found nodup item _ => ?_
  split
  · exact nodup
  · rename_i absent
    rw [contains_iff_mem] at absent
    rw [← concat_eq_append, nodup_concat]
    exact ⟨absent, nodup⟩

theorem Graph.pairwise_insertAscending {number : Int} {numbers : List Int}
    (ascending : numbers.Pairwise (· < ·)) (fresh : number ∉ numbers) :
    (insertAscending number numbers).Pairwise (· < ·) := by
  induction numbers with
  | nil => exact pairwise_singleton _ _
  | cons first rest ih =>
    obtain ⟨below, ascending'⟩ := pairwise_cons.mp ascending
    unfold insertAscending
    split
    · rename_i least
      have less : number < first := lt_of_le_of_ne least fun same =>
        fresh (same ▸ mem_cons_self)
      refine pairwise_cons.mpr ⟨?_, ascending⟩
      intro other mem
      rcases mem_cons.mp mem with rfl | later
      · exact less
      · exact less.trans (below other later)
    · rename_i greater
      refine pairwise_cons.mpr ⟨?_, ih ascending' fun mem => fresh (mem_cons_of_mem _ mem)⟩
      intro other mem
      rcases mem_insertAscending.mp mem with rfl | later
      · exact not_le.mp greater
      · exact below other later

namespace Function

variable {fn : Function}

theorem pairwise_outputIds (valid : fn.graph.Valid) : fn.outputIds.Pairwise (· < ·) := by
  unfold outputIds
  split
  · exact pairwise_map.mpr (valid.ascending.filter _)
  · have nodup := nodup_distinct (fn.outputs.filterMap fun defn =>
      (fn.graph.nodeFor? defn).map (·.id))
    dsimp only
    generalize distinct (fn.outputs.filterMap fun defn =>
      (fn.graph.nodeFor? defn).map (·.id)) = found at nodup ⊢
    induction found with
    | nil => exact .nil
    | cons first rest ih =>
      obtain ⟨fresh, nodup⟩ := nodup_cons.mp nodup
      refine Graph.pairwise_insertAscending (ih nodup) fun mem => fresh ?_
      exact Graph.mem_foldr_insertAscending.mp mem

/-- The order in which a function is fingerprinted. -/
structure Lists (fn : Function) (order : List Int) : Prop where
  nodup : order.Nodup
  closed : ∀ id ∈ order, ∃ node, fn.graph.node? id = some node ∧
    ∀ source ∈ fn.graph.sources node, source ∈ order
  outputs : order.filter fn.graph.isOutputId = fn.outputIds

theorem lists_of_dependencies (sound : fn.graph.Sound)
    (declared : ∀ defn ∈ fn.outputs, defn.kind.isOutput = true)
    {order : List Int} (walked : fn.graph.dependencies fn.outputIds = .ok order) :
    fn.Lists order := by
  have nodup := sound.valid.nodeIds_nodup
  have ascending := pairwise_outputIds sound.valid
  have walks := sound.valid.walks_dependencies walked
  rw [sound.valid.dependencies_eq] at walked
  refine ⟨walks.nodup nodup_nil, fun id mem => ?_, ?_⟩
  · exact (walks.closed id mem).resolve_left not_mem_nil
  · refine sound.filter_walk nodup nodup_nil (ascending.imp ne_of_lt) (fun _ _ => not_mem_nil)
      (fun id mem => ?_) walked
    obtain ⟨node, listed, rfl, isOutput⟩ := isOutput_of_mem_outputIds declared mem
    rw [Graph.isOutputId, Graph.node?_of_mem sound.valid.ascending listed, any_some, isOutput]

end Function

end FieldGraph
