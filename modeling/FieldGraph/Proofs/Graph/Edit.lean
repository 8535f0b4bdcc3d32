import FieldGraph.Proofs.Graph.Sound

/-! # Edits keep graphs sound

Every edit of a graph preserves that the graph is sound, also when it is refused
halfway. Replacing the variables of an expression and deriving the ports of a function
node take all connections of the changed ports out before the ports are replaced, and
put back only connections that are possible.
-/

namespace FieldGraph.Graph

open Fallible List Option

variable {graph : Graph} {node : Node} {nodes : List Node} {id : Int}

/-! ## Nodes -/

theorem mem_placeNode {other : Node} :
    other ∈ placeNode node nodes ↔ other = node ∨ other ∈ nodes := by
  induction nodes with
  | nil => simp [placeNode]
  | cons first rest ih =>
    unfold placeNode
    split
    · simp
    · simp only [mem_cons]
      tauto

theorem ascending_placeNode (ascending : nodes.Pairwise (·.id < ·.id))
    (fresh : ∀ other ∈ nodes, other.id ≠ node.id) :
    (placeNode node nodes).Pairwise (·.id < ·.id) := by
  induction nodes with
  | nil => simp [placeNode]
  | cons first rest ih =>
    obtain ⟨least, ascending'⟩ := pairwise_cons.mp ascending
    unfold placeNode
    split
    · rename_i below
      refine pairwise_cons.mpr ⟨?_, ascending⟩
      intro other mem
      rcases mem_cons.mp mem with rfl | later
      · exact below
      · exact Int.lt_trans below (least other later)
    · refine pairwise_cons.mpr ⟨?_, ih ascending' fun other mem =>
        fresh other (mem_cons_of_mem _ mem)⟩
      intro other mem
      rcases mem_placeNode.mp mem with rfl | later
      · have := fresh first mem_cons_self
        omega
      · exact least other later

theorem preserves_reserveId (asked : Option Int) : (reserveId asked).Preserves Sound := by
  refine preserves_get_bind fun graph sound => ?_
  cases asked with
  | some id =>
    by_cases taken : graph.hasNode id = true
    · simpa [taken] using sound
    · simpa [taken] using sound
  | none =>
    refine ⟨sound.valid.replaceNodes sound.valid.ascending ?_ ?_, sound.nodes⟩
    · intro node mem
      have := sound.valid.below_next node mem
      omega
    · exact fun _ _ node mem _ => mem

theorem preserves_addNode (formed : node.WellFormed) : (addNode node).Preserves Sound := by
  refine preserves_get_bind fun graph sound => ?_
  by_cases taken : graph.hasNode node.id = true
  · simpa [taken] using sound
  have fresh (other : Node) (mem : other ∈ graph.nodes) : other.id ≠ node.id := by
    intro same
    exact taken (hasNode_iff.mpr (mem_map.mpr ⟨other, mem, same⟩))
  simp only [taken]
  refine ⟨sound.valid.replaceNodes (ascending_placeNode sound.valid.ascending fresh) ?_ ?_, ?_⟩
  · intro other mem
    have next : node.id < (if graph.nextId ≤ node.id then node.id + 1 else graph.nextId) := by
      split <;> omega
    rcases mem_placeNode.mp mem with rfl | before
    · exact next
    · have := sound.valid.below_next other before
      split <;> omega
  · exact fun _ _ other mem _ => mem_placeNode.mpr (.inr mem)
  · intro other mem
    rcases mem_placeNode.mp mem with rfl | before
    · exact formed
    · exact sound.nodes other before

theorem preserves_removeNode (id : Int) : (removeNode id).Preserves Sound := by
  refine preserves_get_bind fun graph sound => ?_
  cases found : graph.find id with
  | error cause => simpa [outcome_bind] using sound
  | ok node =>
    have isolated := sound.valid.isolate id
    have nodes := sound.valid.nodes_isolate id
    refine ⟨isolated.replaceNodes (isolated.ascending.filter _) ?_ ?_, ?_⟩
    · intro other mem
      exact isolated.below_next other (mem_of_mem_filter mem)
    · intro edge mem other listed touches
      refine mem_filter.mpr ⟨listed, ?_⟩
      rw [bne_iff_ne]
      rintro rfl
      rw [(sound.valid.mem_isolate.mp mem).2] at touches
      cases touches
    · intro other mem
      have listed := mem_of_mem_filter mem
      rw [nodes] at listed
      exact sound.nodes other listed

theorem preserves_clear : clear.Preserves Sound := by
  intro _ _
  exact ⟨valid_empty, by simp [clear]⟩

/-! ## Connections, names and defaults -/

theorem preserves_connect (edge : Connection) : (connect edge).Preserves Sound := by
  refine preserves_get_bind fun graph sound => ?_
  split
  · exact sound.link ‹_›
  · exact sound

theorem preserves_disconnect (edge : Connection) : (disconnect edge).Preserves Sound := by
  refine preserves_get_bind fun graph sound => ?_
  exact sound.unlink edge

theorem preserves_setName (id : Int) (name : String) : (setName id name).Preserves Sound := by
  refine preserves_get_bind fun graph sound => ?_
  cases found : graph.find id with
  | error cause => simpa [outcome_bind] using sound
  | ok node =>
    refine ⟨sound.valid.modifyNode_of_length id (fun _ => rfl) (fun _ => rfl) (fun _ => rfl), ?_⟩
    exact wellFormed_modifyNode sound fun node mem _ =>
      (sound.nodes node mem).of_shapes rfl rfl rfl rfl rfl

theorem preserves_setDefault_of {inv : Graph → Prop} {port : Port}
    (stored : ∀ graph index value, inv graph →
      inv (graph.modifyNode port.node (withDefault index value)))
    (value : Value) (quote : Value → String) : (setDefault port value quote).Preserves inv := by
  refine preserves_get_bind fun graph holds => ?_
  cases graph.inputPort port with
  | error cause => exact holds
  | ok found =>
    have store (number : Number Float) : inv ((Editing.ofConversion number.toReal >>= fun default =>
        set (graph.modifyNode port.node (withDefault port.index.toNat default))).outcome
          graph).2 := by
      cases number.toReal with
      | error cause => exact holds
      | ok default => exact stored graph _ default holds
    cases value with
    | integer n => exact store (.integer n)
    | real x => exact store (.real x)
    | _ => exact holds

theorem preserves_setDefault (port : Port) (value : Value) (quote : Value → String) :
    (setDefault port value quote).Preserves Sound :=
  preserves_setDefault_of (fun _ _ _ sound => sound.withDefault _ _ _) value quote

/-! ## The variables of an expression -/

theorem preserves_restorePort (target : Port) (default : Float) (edge : Option Connection) :
    (restorePort target default edge).Preserves Sound := by
  refine (preserves_modify fun graph sound => sound.withDefault _ _ _).bind fun _ => ?_
  cases edge with
  | none => exact preserves_pure _
  | some old => exact preserves_connect _

theorem mem_zip_inputPorts_iff {place : Port} {port : InputPort} :
    (place, port) ∈ node.inputPorts.zip node.inputs ↔
      ∃ index : Nat, node.inputs[index]? = some port ∧ place = ⟨node.id, index⟩ := by
  rw [mem_iff_getElem?]
  refine exists_congr fun index => ?_
  rw [getElem?_zip_eq_some, Node.inputPorts, getElem?_map, map_eq_some_iff]
  constructor
  · rintro ⟨⟨index, here, rfl⟩, found⟩
    obtain ⟨_, rfl⟩ := List.getElem?_eq_some_iff.mp here
    exact ⟨found, by simp⟩
  · rintro ⟨found, rfl⟩
    have inside := (List.getElem?_eq_some_iff.mp found).1
    exact ⟨⟨index, by simp [inside], rfl⟩, found⟩

theorem entries_boundInputs (distinct : (node.inputs.map (·.name)).Nodup) :
    (graph.boundInputs node).entries = (node.inputPorts.zip node.inputs).map fun item =>
      (item.2.name, (graph.incoming? item.1, item.2.default)) := by
  have names : ((node.inputPorts.zip node.inputs).map fun item => item.2.name) =
      node.inputs.map (·.name) := by
    have second : (node.inputPorts.zip node.inputs).map Prod.snd = node.inputs :=
      map_snd_zip (by simp [Node.inputPorts])
    simpa [Function.comp_def] using congrArg (List.map InputPort.name) second
  rw [← names] at distinct
  exact Table.entries_foldl (fun table _ => table.entries_insert_of_fresh)
    (fun item : Port × InputPort => item.2.name)
    (fun item => (graph.incoming? item.1, item.2.default)) _ {} distinct (by simp [Table.keys])

theorem Sound.mem_boundInputs (sound : graph.Sound) (mem : node ∈ graph.nodes)
    (isExpr : node.kind = .expression) {edge : Connection}
    (listed : edge ∈ graph.connections) (ends : edge.target.node = node.id) :
    edge ∈ (graph.boundInputs node).values.filterMap (·.1) := by
  obtain ⟨other, found, inside⟩ := hasInput_iff.mp (sound.valid.target_exists edge listed)
  rw [ends, node?_of_mem sound.valid.ascending mem, some.injEq] at found
  subst found
  obtain ⟨nonnegative, bounded⟩ := isSome_atPlace?_iff.mp inside
  have place : edge.target = ⟨node.id, edge.target.index.toNat⟩ := by
    rw [Int.toNat_of_nonneg nonnegative, ← ends]
  have present : (edge.target, node.inputs[edge.target.index.toNat]) ∈
      node.inputPorts.zip node.inputs :=
    mem_zip_inputPorts_iff.mpr ⟨_, getElem?_eq_getElem _, place⟩
  have recorded := (sound.valid.incoming_iff _ _).mpr ⟨listed, rfl⟩
  rw [Table.values, entries_boundInputs ((sound.nodes node mem).variables_nodup isExpr),
    List.map_map, filterMap_map]
  exact mem_filterMap.mpr ⟨_, present, recorded⟩

theorem Sound.withVariables (sound : graph.Sound) {names : List String}
    (isExpr : ∀ node ∈ graph.nodes, node.id = id → node.kind = .expression) (nodup : names.Nodup)
    (released : ∀ edge ∈ graph.connections, edge.target.node ≠ id) :
    (graph.modifyNode id fun node =>
      { node with inputs := names.map fun name => { name } }).Sound := by
  refine ⟨sound.valid.modifyNode id (fun _ => rfl) ?_ ?_, ?_⟩
  · intro node found edge mem starts
    obtain ⟨other, present, inside⟩ := hasOutput_iff.mp (sound.valid.source_exists edge mem)
    rw [starts, found, some.injEq] at present
    exact present ▸ inside
  · intro node found edge mem ends
    exact (released edge mem ends).elim
  · exact wellFormed_modifyNode sound fun node mem numbered =>
      (sound.nodes node mem).withVariables (isExpr node mem numbered) nodup

theorem preserves_setVariables (id : Int) (names : List String) :
    (setVariables id names).Preserves Sound := by
  refine preserves_get_bind fun graph sound => ?_
  rw [outcome_bind, outcome_ofExcept]
  cases found : graph.node? id with
  | none =>
    simp only [find, found]
    exact sound
  | some node =>
    simp only [find, found]
    obtain ⟨mem, numbered⟩ := mem_of_node? found
    by_cases isExpr : node.kind = .expression
    case neg => simpa [isExpr] using sound
    by_cases nodup : names.Nodup
    case neg => simpa [isExpr, nodup] using sound
    simp only [isExpr, nodup, bne_self_eq_false, Bool.false_eq_true, decide_true,
      Bool.not_true, ↓reduceIte, outcome_bind]
    refine preserves_forM _ ?_ _ ?_
    · rintro ⟨name, index⟩ -
      split
      · exact preserves_restorePort _ _ _
      · exact preserves_pure _
    · have unlinked := sound.valid.foldl_unlink ((graph.boundInputs node).values.filterMap (·.1))
      refine (sound.foldl_unlink _).withVariables ?_ nodup ?_
      · intro other present same
        rw [unlinked.2.1] at present
        exact sound.valid.eq_of_id found present same ▸ isExpr
      · intro edge left ends
        obtain ⟨listed, kept⟩ := (unlinked.2.2.2 edge).mp left
        exact kept (sound.mem_boundInputs mem isExpr listed (ends.trans numbered.symm))

/-! ## The ports of a function node -/

theorem Sound.embed (sound : graph.Sound)
    (isFunction : ∀ node ∈ graph.nodes, node.id = id → node.kind = .function)
    (isolated : ∀ edge ∈ graph.connections, edge.touches id = false)
    (inner : FunctionId) (fn : Function) : (graph.modifyNode id (·.embed inner fn)).Sound := by
  refine ⟨sound.valid.modifyNode id (fun _ => rfl) ?_ ?_, ?_⟩
  · intro node found edge mem starts
    have untouched := isolated edge mem
    simp [Connection.touches, starts] at untouched
  · intro node found edge mem ends
    have untouched := isolated edge mem
    simp [Connection.touches, ends] at untouched
  · exact wellFormed_modifyNode sound fun node mem numbered =>
      Node.wellFormed_embed (isFunction node mem numbered)
        ((sound.nodes node mem).params_eq_nil (isFunction node mem numbered)) inner fn

section Rebinding

variable {inv : Graph → Prop}
  (linked : ∀ graph edge, edge.touches id = true → inv graph → inv (graph.tryLink edge))
include linked

theorem rebindInputs_induction
    (restored : ∀ graph index value, inv graph →
      inv (graph.modifyNode id (withDefault index value)))
    (bound : Table Definition (Option Connection × Float)) (definitions : List Definition)
    (holds : inv graph) : inv (rebindInputs id graph bound definitions) := by
  unfold rebindInputs
  generalize definitions.zipIdx = items
  induction items generalizing graph bound with
  | nil => exact holds
  | cons item rest ih =>
    rw [foldl_cons]
    dsimp only
    cases bound.get? item.1 with
    | none => exact ih bound holds
    | some binding =>
      obtain ⟨edge, default⟩ := binding
      have kept := restored graph item.2 default holds
      cases edge with
      | none => exact ih _ kept
      | some old => exact ih _ (linked _ _ (by simp [Connection.touches]) kept)

theorem rebindOutputs_induction (fed : Table Definition (List Connection))
    (definitions : List Definition) (holds : inv graph) :
    inv (rebindOutputs id graph fed definitions) := by
  unfold rebindOutputs
  generalize definitions.zipIdx = items
  induction items generalizing graph fed with
  | nil => exact holds
  | cons item rest ih =>
    refine ih _ ?_
    exact foldlRecOn _ _ holds fun _ holds _ _ => linked _ _ (by simp [Connection.touches]) holds

end Rebinding

theorem Sound.updateFunctionNode (sound : graph.Sound) (mem : node ∈ graph.nodes)
    {emb : Embedding} (embeds : node.embedding = some emb) (fn : Function) :
    (graph.updateFunctionNode node emb fn).Sound := by
  have isFunction := (sound.nodes node mem).embedding.mp (by rw [embeds]; rfl)
  have isolated : (graph.isolate node.id).Sound := sound.foldl_unlink _
  have linked (graph : Graph) (edge : Connection) (_ : edge.touches node.id = true)
      (sound : graph.Sound) := sound.tryLink edge
  refine rebindOutputs_induction linked _ _ (rebindInputs_induction linked
    (fun _ _ _ sound => sound.withDefault _ _ _) _ _ (isolated.embed ?_ ?_ _ _))
  · intro other listed same
    rw [sound.valid.nodes_isolate] at listed
    have found := node?_of_mem sound.valid.ascending mem
    exact sound.valid.eq_of_id found listed same ▸ isFunction
  · intro edge left
    exact (sound.valid.mem_isolate.mp left).2

end FieldGraph.Graph
