import FieldGraph.Proofs.Library.Linked

/-! # What reachable functions declare

The outputs that a function declares are of kinds of output nodes, and a node that stands
for one of them is of its kind. So the nodes that an expansion starts from hand values
out.
-/

namespace FieldGraph

open List Option

variable {other : Int} {numbers : List Int}

namespace Library

open Fallible

/-- The declared outputs of all functions are of kinds of output nodes. -/
def Declared (lib : Library) : Prop := ∀ id fn, lib.function? id = some fn →
    ∀ defn ∈ fn.outputs, defn.kind.isOutput = true

variable {lib : Library}

theorem Declared.modifyFunction (declared : lib.Declared) (id : FunctionId)
    {change : Function → Function} (keeps : ∀ fn, lib.function? id = some fn →
      ∀ defn ∈ (change fn).outputs, defn.kind.isOutput = true) :
    (lib.modifyFunction id change).Declared :=
  forall_modifyFunction declared id keeps

theorem declared_clear (id : FunctionId) : (clear id).Preserves Declared := by
  refine Preserves.bind (fun lib declared => ?_) fun _ =>
    preserves_modify fun _ declared => declared.modifyFunction id fun _ _ => by simp
  cases found : lib.function? id with
  | none =>
    rw [outcome_onGraph_of_none found]
    exact declared
  | some fn =>
    rw [outcome_onGraph found]
    exact declared.modifyFunction id (declared id)

theorem Edited.declared {edited : FunctionId → Int → Prop} {after : Library}
    (edits : lib.Edited edited after) (declared : lib.Declared) : after.Declared := by
  intro id fn found
  cases before : lib.function? id with
  | none =>
    rw [(edits.others id fn before found).2]
    simp
  | some orig =>
    obtain ⟨fn', again, changed⟩ := edits.functions id orig before
    cases again.symm.trans found
    rw [changed.outputs]
    exact declared id orig before

theorem Declared.edit (declared : lib.Declared) (sound : lib.Sound) (edit : Edit) :
    (lib.afterEdit edit).Declared := by
  have keeps (lib : Library) (id : FunctionId) (change : Function → Function)
      (same : Redeclares change) (declared : lib.Declared) :=
    declared.modifyFunction id fun fn found =>
      (same fn).2.elim (fun same => same ▸ declared id fn found) fun kinds => kinds
  cases edit with
  | changeNoise id change =>
    intro id fn found
    rw [afterEdit, function?, functions_changeNoise] at found
    exact declared id fn found
  | clear around => exact declared_clear around lib declared
  | setInterface id inputs outputs =>
    exact preserves_setInterface_of keeps id inputs outputs lib declared
  | suggestInterface id => exact preserves_suggestInterface_of keeps id lib declared
  | _ =>
    refine (sound.edited_afterEdit ?_).declared declared
    rfl

theorem declared_afterEdits (edits : List Edit) : (afterEdits edits).Declared :=
  (foldlRecOn edits afterEdit (motive := fun lib => lib.Sound ∧ lib.Declared)
    ⟨sound_empty, by simp [Declared, function?]⟩
    fun _ ⟨sound, declared⟩ edit _ => ⟨sound.edit edit, declared.edit sound edit⟩).2

end Library

/-! ## The nodes that an expansion starts from -/

theorem mem_distinct {α : Type} [BEq α] [LawfulBEq α] {items : List α} {item : α} :
    item ∈ distinct items ↔ item ∈ items := by
  have collects (found : List α) : item ∈ items.foldl
      (fun found item => if found.contains item then found else found ++ [item]) found ↔
        item ∈ found ∨ item ∈ items := by
    induction items generalizing found with
    | nil => simp
    | cons first rest ih =>
      rw [foldl_cons]
      split
      · grind
      · grind
  rw [distinct, collects]
  simp

theorem Graph.mem_insertAscending {number : Int} :
    other ∈ insertAscending number numbers ↔ other = number ∨ other ∈ numbers := by
  induction numbers with
  | nil => simp [insertAscending]
  | cons first rest ih =>
    unfold insertAscending
    split
    · rw [mem_cons]
    · rw [mem_cons, mem_cons]
      tauto

theorem Graph.mem_foldr_insertAscending :
    other ∈ numbers.foldr insertAscending [] ↔ other ∈ numbers := by
  induction numbers with
  | nil => rfl
  | cons first rest ih => rw [foldr_cons, mem_insertAscending, ih, mem_cons]

theorem Graph.mem_of_nodeFor? {graph : Graph} {defn : Definition} {node : Node}
    (found : graph.nodeFor? defn = some node) : node ∈ graph.nodes ∧ node.kind = defn.kind := by
  have stands := find?_some found
  rw [Definition.isStoodForBy, Bool.and_eq_true] at stands
  exact ⟨mem_of_find?_eq_some found, (eq_of_beq stands.1).symm⟩

theorem Function.isOutput_of_mem_outputIds {fn : Function}
    (declared : ∀ defn ∈ fn.outputs, defn.kind.isOutput = true) {id : Int}
    (mem : id ∈ fn.outputIds) :
    ∃ node ∈ fn.graph.nodes, node.id = id ∧ node.kind.isOutput = true := by
  unfold outputIds at mem
  split at mem
  · obtain ⟨node, listed, rfl⟩ := mem_map.mp mem
    obtain ⟨present, isOutput⟩ := mem_filter.mp listed
    exact ⟨node, present, rfl, isOutput⟩
  · have found := Graph.mem_foldr_insertAscending.mp mem
    rw [mem_distinct] at found
    obtain ⟨defn, listed, stands⟩ := mem_filterMap.mp found
    obtain ⟨node, here, rfl⟩ := map_eq_some_iff.mp stands
    obtain ⟨present, kind⟩ := Graph.mem_of_nodeFor? here
    exact ⟨node, present, rfl, kind ▸ declared defn listed⟩

end FieldGraph
