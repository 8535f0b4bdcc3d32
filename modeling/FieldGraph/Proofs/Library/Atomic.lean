import FieldGraph.Proofs.Graph.Atomic
import FieldGraph.Proofs.Library.Declared

/-! # Refused edits

An edit that is refused leaves the library as it was, and some edits of a function are
never refused. These rely on what every library that edits lead to has: records of
connections that agree, function nodes with a function, and weight outputs with a layer.
-/

namespace FieldGraph

open Fallible Graph List

namespace Graph

variable {graph : Graph} {defn : Definition}

theorem isInput_of_mem_suggestedInputs (mem : defn ∈ graph.suggestedInputs) :
    defn.kind.isInput = true := by
  rw [suggestedInputs, mem_distinct] at mem
  rcases mem_append.mp mem with axis | custom
  · obtain ⟨c, -, rfl⟩ := mem_map.mp axis
    rfl
  · obtain ⟨node, listed, rfl⟩ := mem_map.mp custom
    have kind : node.kind = .customInput := eq_of_beq (mem_filter.mp listed).2
    rw [Node.definition, kind]
    rfl

theorem isOutput_of_mem_suggestedOutputs (mem : defn ∈ graph.suggestedOutputs) :
    defn.kind.isOutput = true := by
  rw [suggestedOutputs, mem_distinct] at mem
  obtain ⟨kind, among, listed⟩ := mem_flatMap.mp mem
  obtain ⟨node, present, rfl⟩ := mem_map.mp listed
  have same : node.kind = kind := eq_of_beq (mem_filter.mp present).2
  rw [Node.definition, same]
  exact contains_iff_mem.mpr among

end Graph

/-- What edits of a function take for granted. -/
structure Function.Coherent (lib : Library) (fn : Function) : Prop where
  /-- A connection that is recorded for its target is listed, and recorded for its source. -/
  recorded : ∀ edge, fn.graph.hasConnection edge = true → edge ∈ fn.graph.connections ∧
      edge ∈ fn.graph.outgoingFrom edge.source
  /-- A function node embeds a function that exists. -/
  embedded : ∀ node ∈ fn.graph.nodes, node.kind = .function →
    ∃ emb inner, node.embedding = some emb ∧ lib.function? emb.function = some inner
  /-- A weight output has a layer. -/
  layered : ∀ node ∈ fn.graph.nodes, node.kind = .outputWeight →
    ∃ layer, node.params = [.integer layer]

namespace Library

variable {lib : Library} {around : FunctionId} {fn : Function} {α : Type}

theorem Sound.coherent (sound : lib.Sound) (linked : lib.Linked)
    (found : lib.function? around = some fn) : fn.Coherent lib where
  recorded edge present := by
    have valid := (sound around fn found).valid
    have listed := valid.hasConnection_iff.mp present
    refine ⟨listed, ?_⟩
    rw [valid.outgoing_eq]
    exact mem_filter.mpr ⟨listed, beq_self_eq_true _⟩
  embedded node mem isFunction := by
    have formed := (sound around fn found).nodes node mem
    obtain ⟨emb, embeds⟩ := Option.isSome_iff_exists.mp (formed.embedding.mpr isFunction)
    obtain ⟨inner, present⟩ := Option.isSome_iff_exists.mp
      (linked around fn found node mem emb embeds)
    exact ⟨emb, inner, embeds, present⟩
  layered node mem isWeight := by
    have typed := ((sound around fn found).nodes node mem).params
    rw [isWeight] at typed
    obtain ⟨setting, rest, hasType, others, params⟩ := forall₂_cons_right_iff.mp typed
    rw [forall₂_nil_right_iff.mp others] at params
    cases setting with
    | integer layer => exact ⟨layer, params⟩
    | _ => exact hasType.elim

/-! ## Edits that are refused change nothing -/

/-- Why an edit is refused, if it is. -/
def refusal? (lib : Library) : Edit → Option EditError
  | .newFunction name => (newFunction name).refusal? lib
  | .newNoise noise => (newNoise noise).refusal? lib
  | .changeNoise id change => (changeNoise id change).refusal? lib
  | .createNode fn kind asked => (createNode fn kind asked).refusal? lib
  | .createFunctionNode around embedded asked =>
    (createFunctionNode around embedded asked).refusal? lib
  | .removeNode fn id => (removeNode fn id).refusal? lib
  | .clear fn => (clear fn).refusal? lib
  | .connect fn edge => (connect fn edge).refusal? lib
  | .disconnect fn edge => (disconnect fn edge).refusal? lib
  | .setName fn id name => (setName fn id name).refusal? lib
  | .setParam fn id key value => (setParam fn id key value).refusal? lib
  | .setDefault fn port value => (setDefault fn port value).refusal? lib
  | .setVariables fn id names => (setVariables fn id names).refusal? lib
  | .setInterface id inputs outputs => (setInterface id inputs outputs).refusal? lib
  | .suggestInterface id => (suggestInterface id).refusal? lib
  | .updateFunctionNodes around only => (updateFunctionNodes around only).refusal? lib

theorem atomic_onGraph {edit : Editing Graph α}
    (atomic : ∀ fn, lib.function? around = some fn → edit.Atomic fn.graph) :
    (onGraph around edit).Atomic lib := by
  intro error refused
  cases found : lib.function? around with
  | none => rw [outcome_onGraph_of_none found]
  | some fn =>
    rw [refusal?_eq_some_iff, outcome_onGraph found] at refused
    rw [outcome_onGraph found]
    rw [atomic fn found error (refusal?_eq_some_iff.mpr refused), withGraph_self found]

theorem atomic_changeNoise (id : NoiseId)
    (change : ValueNoise Float → Except EditError (ValueNoise Float)) :
    (changeNoise id change).Atomic lib := by
  refine atomic_get_bind ?_
  cases lib.noise? id with
  | none => exact atomic_pure _ _
  | some noise => exact atomic_ofExcept_bind fun _ _ => atomic_set _ _

theorem Sound.atomic_createNode (sound : lib.Sound) (kind : Kind) (asked : Option Int) :
    (createNode around kind asked).Atomic lib := by
  rcases sound.createNode_cases around kind asked with
    ⟨-, error, refused⟩ | ⟨fn, params, more, -, -, -, -, created⟩
  · exact fun _ _ => by rw [refused]
  · exact Completes.atomic created

theorem atomic_setParam (id : Int) (key : ParamKey) (value : Value) :
    (setParam around id key value).Atomic lib := by
  rcases setParam_cases lib around id key value with
    ⟨error, refused⟩ | ⟨fn, node, place, spec, setting, -, -, -, -, -, set⟩
  · exact fun _ _ => by rw [refused]
  · exact Completes.atomic set

theorem atomic_setInterface (id : FunctionId) (inputs outputs : List Definition) :
    (setInterface id inputs outputs).Atomic lib := by
  intro error refused
  rcases setInterface_cases lib id inputs outputs with ⟨cause, unchanged⟩ | ⟨_, -, declared⟩
  · rw [unchanged]
  · exact Completes.atomic declared error refused

/-! ## Edits that are never refused -/

section

variable (found : lib.function? around = some fn)

include found

theorem completes_getFunction : (getFunction around).Completes lib fn lib :=
  completes_ofExcept_iff.mpr ⟨find_eq_ok_iff.mpr found, rfl⟩

theorem refusal?_suggestInterface : (suggestInterface around).refusal? lib = none := by
  refine refusal?_bind_eq_none (completes_getFunction found)
    (refusal?_bind_eq_none (completes_getFunction found) ?_)
  have inputs : fn.graph.suggestedInputs.find? (!·.kind.isInput) = none := by
    rw [find?_eq_none]
    intro defn mem
    simp [isInput_of_mem_suggestedInputs mem]
  have outputs : fn.graph.suggestedOutputs.find? (!·.kind.isOutput) = none := by
    rw [find?_eq_none]
    intro defn mem
    simp [isOutput_of_mem_suggestedOutputs mem]
  rw [inputs, outputs]
  rfl

theorem refusal?_clear : (clear around).refusal? lib = none :=
  refusal?_bind_eq_none (outcome_onGraph found Graph.clear) rfl

theorem refusal?_updateFunctionNodes (only : Option FunctionId) :
    (updateFunctionNodes around only).refusal? lib = none :=
  refusal?_bind_eq_none (completes_getFunction found) rfl

end

theorem Sound.afterEdit_of_refusal? (sound : lib.Sound) {edit : Edit} {error : EditError}
    (refused : lib.refusal? edit = some error) : lib.afterEdit edit = lib := by
  cases edit with
  | newFunction name => cases refused
  | newNoise noise => cases refused
  | changeNoise id change => exact atomic_changeNoise id change error refused
  | createNode around kind asked => exact sound.atomic_createNode kind asked error refused
  | createFunctionNode around embedded asked =>
    rcases sound.createFunctionNode_cases around embedded asked with
      ⟨error, failed⟩ | ⟨fn, inner, emb, -, -, -, -, created⟩
    · rw [afterEdit, failed]
    · exact Completes.atomic created error refused
  | removeNode around id => exact atomic_onGraph (fun _ _ => atomic_removeNode id _) error refused
  | clear around =>
    cases found : lib.function? around with
    | none => rw [afterEdit, clear, outcome_bind, outcome_onGraph_of_none found]
    | some fn =>
      rw [refusal?, refusal?_clear found] at refused
      cases refused
  | connect around edge => exact atomic_onGraph (fun _ _ => atomic_connect edge _) error refused
  | disconnect around edge =>
    exact atomic_onGraph (fun _ _ => fun _ impossible => by cases impossible) error refused
  | setName around id name =>
    exact atomic_onGraph (fun _ _ => atomic_setName id name _) error refused
  | setParam around id key value => exact atomic_setParam id key value error refused
  | setDefault around port value =>
    exact atomic_get_bind (atomic_onGraph fun _ _ => atomic_setDefault port value _ _)
      error refused
  | setVariables around id names =>
    exact atomic_onGraph (fun fn found =>
      (sound around fn found).atomic_setVariables id names) error refused
  | setInterface id inputs outputs => exact atomic_setInterface id inputs outputs error refused
  | suggestInterface id =>
    exact atomic_ofExcept_bind (fun _ _ => atomic_setInterface id _ _) error refused
  | updateFunctionNodes around only =>
    exact atomic_ofExcept_bind (fun _ _ => fun _ impossible => by cases impossible) error refused

/-- **Edits are atomic.** In every library that edits lead to, an edit that is refused
leaves the whole library as it is: all nodes, ports, defaults, params, records of
connections, declarations, marks and counters. Updating function nodes, suggesting an
interface, disconnecting and clearing are not refused for any function there is, and find
all that they rely on. -/
theorem refused_edit_changes_nothing (edits : List Edit) :
    (∀ edit error, (afterEdits edits).refusal? edit = some error →
      (afterEdits edits).afterEdit edit = afterEdits edits) ∧
    ∀ id function, (afterEdits edits).function? id = some function →
      function.Coherent (afterEdits edits) ∧
      (∀ only, (afterEdits edits).refusal? (.updateFunctionNodes id only) = none) ∧
      (afterEdits edits).refusal? (.suggestInterface id) = none ∧
      (∀ connection, (afterEdits edits).refusal? (.disconnect id connection) = none) ∧
      (afterEdits edits).refusal? (.clear id) = none := by
  have sound := sound_afterEdits edits
  refine ⟨fun edit error refused => sound.afterEdit_of_refusal? refused, ?_⟩
  intro id function found
  exact ⟨sound.coherent (linked_afterEdits edits) found,
    fun only => refusal?_updateFunctionNodes found only, refusal?_suggestInterface found,
    fun connection => by rw [refusal?, Fallible.refusal?, disconnect, outcome_onGraph found]; rfl,
    refusal?_clear found⟩

/-- An expression that is fed and feeds a node, and variables that are refused for it. -/
theorem refused_edit_changes_nothing_duplicate :
    let edits : List Edit := [.newFunction "dome", .createNode 0 .constant none,
      .createNode 0 .expression none, .setVariables 0 2 ["a", "b"], .createNode 0 .relay none,
      .connect 0 ⟨⟨1, 0⟩, ⟨2, 1⟩⟩, .connect 0 ⟨⟨2, 0⟩, ⟨3, 0⟩⟩]
    (afterEdits edits).refusal? (.setVariables 0 2 ["b", "b"]) =
        some (.duplicateVariables ["b", "b"]) ∧
      (afterEdits edits).afterEdit (.setVariables 0 2 ["b", "b"]) = afterEdits edits ∧
      ∃ function, (afterEdits edits).function? 0 = some function ∧
        function.graph.connections = [⟨⟨1, 0⟩, ⟨2, 1⟩⟩, ⟨⟨2, 0⟩, ⟨3, 0⟩⟩] ∧
        function.Coherent (afterEdits edits) ∧
        (afterEdits edits).refusal? (.suggestInterface 0) = none := by
  intro edits
  have refused : (afterEdits edits).refusal? (.setVariables 0 2 ["b", "b"]) =
      some (.duplicateVariables ["b", "b"]) := by cbv
  have left : ((afterEdits edits).function? 0).map (·.graph.connections) =
      some [⟨⟨1, 0⟩, ⟨2, 1⟩⟩, ⟨⟨2, 0⟩, ⟨3, 0⟩⟩] := by cbv
  obtain ⟨function, found, connections⟩ := Option.map_eq_some_iff.mp left
  obtain ⟨unchanged, accepted⟩ := refused_edit_changes_nothing edits
  obtain ⟨coherent, -, suggested, -⟩ := accepted 0 function found
  exact ⟨refused, unchanged _ _ refused, function, found, connections, coherent, suggested⟩

end Library

end FieldGraph
