import FieldGraph.Proofs.Graph.Dependencies

/-! # Walks under renaming

The walk that lists dependencies lists exactly the nodes that the outputs of a function
depend on. If these nodes occur in another graph under other numbers, with sources that
correspond, the walk through the other graph lists them there in the corresponding order.
-/

namespace FieldGraph

open Graph List Relation

namespace Graph

variable {graph graph' : Graph} {free free' order result : List Int} {id : Int}
  {rename : Int → Int} {part : Int → Prop}

/-- A part of a graph that is closed under sources occurs in another graph under other
numbers. -/
structure Renames (rename : Int → Int) (part : Int → Prop) (graph graph' : Graph) : Prop where
  injective : ∀ first second, part first → part second → rename first = rename second →
    first = second
  nodes : ∀ id, part id → ∃ node node', graph.node? id = some node ∧
    graph'.node? (rename id) = some node' ∧ (∀ source ∈ graph.sources node, part source) ∧
    graph'.sources node' = (graph.sources node).map rename

namespace Renames

variable (renames : Renames rename part graph graph')
include renames

theorem mem_map_iff (listed : ∀ other ∈ order, part other) (inside : part id) :
    rename id ∈ order.map rename ↔ id ∈ order := by
  refine ⟨fun mem => ?_, fun mem => mem_map_of_mem mem⟩
  obtain ⟨other, present, same⟩ := mem_map.mp mem
  rwa [← renames.injective other id (listed other present) inside same]

theorem idxOf_map (listed : ∀ other ∈ order, part other) (inside : part id) :
    (order.map rename).idxOf (rename id) = order.idxOf id := by
  induction order with
  | nil => rfl
  | cons first rest ih =>
    rw [map_cons, idxOf_cons, idxOf_cons, ih fun other mem => listed other (mem_cons_of_mem _ mem)]
    by_cases same : first = id
    · simp [same]
    · have apart : rename first ≠ rename id := fun equal =>
        same (renames.injective first id (listed first mem_cons_self) inside equal)
      rw [beq_eq_false_iff_ne.mpr same, beq_eq_false_iff_ne.mpr apart]

omit renames in
theorem foldlM {step step' : List Int → Int → Except EditError (List Int)}
    (each : ∀ order id result, (∀ other ∈ order, part other) → part id →
      step order id = .ok result → step' (order.map rename) (rename id) = .ok (result.map rename) ∧
        ∀ other ∈ result, part other)
    {starts : List Int} (inside : ∀ id ∈ starts, part id) (listed : ∀ other ∈ order, part other)
    (walked : starts.foldlM step order = .ok result) :
    (starts.map rename).foldlM step' (order.map rename) = .ok (result.map rename) ∧
      ∀ other ∈ result, part other := by
  induction starts generalizing order with
  | nil =>
    cases walked
    exact ⟨rfl, listed⟩
  | cons start starts ih =>
    rw [foldlM_cons] at walked
    obtain ⟨middle, first, rest⟩ := bind_eq_ok_iff.mp walked
    obtain ⟨first', listed'⟩ := each _ _ _ listed (inside start mem_cons_self) first
    rw [map_cons, foldlM_cons, first']
    exact ih (fun id mem => inside id (mem_cons_of_mem _ mem)) listed' rest

/-- The walk in the other graph takes corresponding steps. -/
theorem visit (nodup : free.Nodup) (nodup' : free'.Nodup)
    (enterable : ∀ id, part id → (id ∈ free ↔ rename id ∈ free'))
    (listed : ∀ other ∈ order, part other) (inside : part id)
    (visited : graph.visit free order id = .ok result) :
    graph'.visit free' (order.map rename) (rename id) = .ok (result.map rename) ∧
      ∀ other ∈ result, part other := by
  induction length : free.length using Nat.strongRecOn generalizing free free' order id result with
  | ind count ih =>
    rw [Graph.visit]
    rcases visit_cases visited with
      ⟨old, rfl⟩ | ⟨new, isFree, node, before, found, walked, rfl⟩
    · rw [if_pos (contains_iff_mem.mpr ((renames.mem_map_iff listed inside).mpr old))]
      exact ⟨rfl, listed⟩
    · have new' : ¬ (order.map rename).contains (rename id) = true := fun old =>
        new ((renames.mem_map_iff listed inside).mp (contains_iff_mem.mp old))
      rw [if_neg new', dif_pos ((enterable id inside).mp isFree)]
      obtain ⟨other, node', found', there, closed, same⟩ := renames.nodes id inside
      cases found.symm.trans found'
      have shorter : (free.erase id).length < count := by
        rw [length_erase_of_mem isFree]
        have := length_pos_of_mem isFree
        omega
      have enterable' : ∀ other, part other →
          (other ∈ free.erase id ↔ rename other ∈ free'.erase (rename id)) := by
        intro other inside'
        rw [nodup.mem_erase_iff, nodup'.mem_erase_iff, enterable other inside']
        refine and_congr_left' (not_congr ⟨congrArg rename, ?_⟩)
        exact renames.injective other id inside' inside
      obtain ⟨inner, listed'⟩ := foldlM (fun order other result listed inside visited =>
        ih _ shorter (nodup.erase _) (nodup'.erase _) enterable' listed inside visited rfl)
        closed listed walked
      rw [← same] at inner
      rw [map_append]
      refine ⟨bind_eq_ok_iff.mpr ⟨node', find_eq_ok_iff.mpr there,
        bind_eq_ok_iff.mpr ⟨_, inner, rfl⟩⟩, ?_⟩
      intro other mem
      rcases mem_append.mp mem with early | last
      · exact listed' other early
      · rw [mem_singleton.mp last]
        exact inside

end Renames

end Graph

namespace Function

variable {fn fn' : Function} {rename : Int → Int} {order : List Int} {id : Int}

/-- The outputs of a function depend on a node. -/
def Reads (fn : Function) (id : Int) : Prop :=
  ∃ output ∈ fn.outputIds, ReflTransGen fn.graph.Feeds id output

theorem reads_of_mem_outputIds (mem : id ∈ fn.outputIds) : fn.Reads id := ⟨id, mem, .refl⟩

theorem Reads.of_feeds {fed : Int} (reads : fn.Reads fed)
    (feeds : fn.graph.Feeds id fed) : fn.Reads id := by
  obtain ⟨output, mem, path⟩ := reads
  exact ⟨output, mem, .head feeds path⟩

theorem mem_nodeIds_of_mem_outputIds (mem : id ∈ fn.outputIds) : id ∈ fn.graph.nodeIds := by
  unfold outputIds at mem
  split at mem
  · obtain ⟨node, listed, rfl⟩ := mem_map.mp mem
    exact mem_map_of_mem (mem_of_mem_filter listed)
  · have found := mem_foldr_insertAscending.mp mem
    rw [mem_distinct] at found
    obtain ⟨defn, -, stands⟩ := mem_filterMap.mp found
    obtain ⟨node, here, rfl⟩ := Option.map_eq_some_iff.mp stands
    exact mem_map_of_mem (mem_of_nodeFor? here).1

theorem Reads.mem_nodeIds (reads : fn.Reads id) (valid : fn.graph.Valid) :
    id ∈ fn.graph.nodeIds := by
  obtain ⟨output, mem, path⟩ := reads
  exact valid.mem_nodeIds_of_path (mem_nodeIds_of_mem_outputIds mem) path

theorem Reads.exists_node (reads : fn.Reads id) (valid : fn.graph.Valid) :
    ∃ node, fn.graph.node? id = some node :=
  Option.isSome_iff_exists.mp (hasNode_iff.mpr (reads.mem_nodeIds valid))

theorem exists_dependencies (valid : fn.graph.Valid) :
    ∃ order, fn.graph.dependencies fn.outputIds = .ok order :=
  valid.exists_dependencies fun _ mem => mem_nodeIds_of_mem_outputIds mem

theorem dependencies_renamed (renames : Graph.Renames rename fn.Reads fn.graph fn'.graph)
    (valid : fn.graph.Valid) (valid' : fn'.graph.Valid)
    (outputs : fn'.outputIds = fn.outputIds.map rename)
    (walked : fn.graph.dependencies fn.outputIds = .ok order) :
    fn'.graph.dependencies fn'.outputIds = .ok (order.map rename) ∧ ∀ id ∈ order, fn.Reads id := by
  rw [valid.dependencies_eq] at walked
  rw [valid'.dependencies_eq, outputs]
  refine Graph.Renames.foldlM (fun order id result listed inside visited => ?_)
    (fun id mem => reads_of_mem_outputIds mem) (forall_mem_nil _) walked
  refine renames.visit valid.nodeIds_nodup valid'.nodeIds_nodup (fun id inside => ?_) listed
    inside visited
  obtain ⟨node, node', found, found', -⟩ := renames.nodes id inside
  refine iff_of_true (inside.mem_nodeIds valid) ?_
  rw [← hasNode_iff, Graph.hasNode, found']
  rfl

theorem mem_dependencies_iff (valid : fn.graph.Valid)
    (walked : fn.graph.dependencies fn.outputIds = .ok order) : id ∈ order ↔ fn.Reads id :=
  valid.mem_dependencies_iff walked

end Function

end FieldGraph
