import FieldGraph.Proofs.Graph.Edit
import FieldGraph.Proofs.Library.Outcomes
import Mathlib

/-! # Reachable libraries

The libraries that edits lead to, whether the edits are refused or not, and what holds
of all of them: every graph is sound. Each edit of a library works on the graph of one
function, so the step lemma for a library rests on those for graphs.
-/

namespace FieldGraph

open Graph List Option

namespace Library

open Fallible

variable {change : Function → Function} {after : Library} {setting : Setting} {spec : ParamSpec}

/-- Every graph of the library is sound. -/
def Sound (lib : Library) : Prop := ∀ id fn, lib.function? id = some fn → fn.graph.Sound

variable {lib : Library}

theorem Sound.modifyFunction (sound : lib.Sound) (id : FunctionId)
    (keeps : ∀ fn, lib.function? id = some fn → (change fn).graph.Sound) :
    (lib.modifyFunction id change).Sound :=
  forall_modifyFunction sound id keeps

theorem Sound.modifyFunction_of_graph (sound : lib.Sound) (id : FunctionId)
    (keeps : ∀ fn, (change fn).graph = fn.graph) : (lib.modifyFunction id change).Sound :=
  sound.modifyFunction id fun fn found => by
    rw [keeps]
    exact sound id fn found

theorem preserves_getFunction {inv : Library → Prop} (id : FunctionId) :
    (getFunction id).Preserves inv :=
  fun _ holds => holds

theorem preserves_onGraph {α : Type} (id : FunctionId) {edit : Editing Graph α}
    (stays : edit.Preserves Graph.Sound) : (onGraph id edit).Preserves Sound := by
  intro lib sound
  simp only [onGraph, outcome_ofOutcome]
  cases found : lib.function? id with
  | none => exact sound
  | some fn =>
    refine sound.modifyFunction id fun other present => ?_
    exact stays _ (sound id fn found)

/-! ## Nodes and params -/

theorem preserves_newNoise (noise : ValueNoise Float) : (newNoise noise).Preserves Sound :=
  fun _ sound => sound

theorem preserves_newSetting (first : ParamDefault) : (newSetting first).Preserves Sound := by
  intro lib sound
  cases first <;> exact sound

theorem hasType_newSettings (specs : List ParamSpec) {params : List Setting}
    (created : (specs.mapM fun spec => newSetting spec.default).outcome lib = (.ok params, after)) :
    Forall₂ (fun setting (spec : ParamSpec) => setting.HasType spec.type) params specs := by
  induction specs generalizing lib params with
  | nil =>
    cases created
    exact .nil
  | cons spec rest ih =>
    rw [mapM_cons, outcome_bind] at created
    cases first : (newSetting spec.default).outcome lib with
    | mk result middle =>
      rw [first] at created
      cases result with
      | error error => cases created
      | ok setting =>
        dsimp only at created
        rw [outcome_bind] at created
        cases others : (rest.mapM fun spec => newSetting spec.default).outcome middle with
        | mk result last =>
          rw [others] at created
          cases result with
          | error error => cases created
          | ok settings =>
            cases created
            refine .cons ?_ (ih others)
            rw [ParamSpec.type]
            generalize spec.default = value at first ⊢
            cases value <;> cases first <;> trivial

theorem preserves_createNode (fn : FunctionId) (kind : Kind) (asked : Option Int) :
    (createNode fn kind asked).Preserves Sound := by
  unfold createNode
  by_cases plain : kind = .function
  · simp only [plain]
    exact preserves_throw _
  simp only [plain]
  refine (preserves_onGraph fn (preserves_reserveId asked)).bind fun id => ?_
  refine Preserves.bind_of_ok ?_ (fun _ _ _ => hasType_newSettings _) fun params typed => ?_
  · exact preserves_mapM _ fun spec _ => preserves_newSetting _
  · have formed : (Node.ofKind id kind params).WellFormed := Node.wellFormed_ofKind plain typed
    exact (preserves_onGraph fn (preserves_addNode formed)).bind fun _ =>
      preserves_pure _

theorem hasType_setting {node : Int} {quote : Value → String} {value : Value}
    (accepted : spec.setting node quote value = .ok setting) : setting.HasType spec.type := by
  unfold ParamSpec.setting at accepted
  generalize spec.type = type at accepted
  split at accepted
  case h_2 =>
      split at accepted <;> cases accepted
      trivial
  all_goals
    cases accepted
    try trivial

theorem wellFormed_withParam {node : Node} (formed : node.WellFormed) {place : Nat}
    (specified : node.kind.entry.params[place]? = some spec) (typed : setting.HasType spec.type) :
    { node with params := node.params.set place setting }.WellFormed := by
  refine { formed with params := ?_ }
  have old := forall₂_iff_get.mp formed.params
  refine forall₂_iff_get.mpr ⟨by simpa using old.1, fun index inside bounded => ?_⟩
  simp only [get_eq_getElem, getElem_set]
  by_cases here : place = index
  · subst here
    rw [if_pos rfl]
    obtain ⟨_, rfl⟩ := List.getElem?_eq_some_iff.mp specified
    exact typed
  · rw [if_neg here]
    exact old.2 index (by simpa using inside) bounded

theorem preserves_setParam (fn : FunctionId) (id : Int) (key : ParamKey) (value : Value) :
    (setParam fn id key value).Preserves Sound := by
  intro lib sound
  rcases setParam_cases lib fn id key value with
    ⟨error, refused⟩ | ⟨around, node, place, spec, setting, present, found, -, specified,
      accepted, set⟩
  · rw [refused]
    exact sound
  rw [set]
  refine sound.modifyFunction fn fun _ _ => ?_
  have graph := sound fn around present
  refine ⟨graph.valid.modifyNode_of_length id (fun _ => rfl) (fun _ => rfl) (fun _ => rfl),
    wellFormed_modifyNode graph ?_⟩
  intro other mem numbered
  obtain rfl := graph.valid.eq_of_id found mem numbered
  exact wellFormed_withParam (graph.nodes other mem) specified (hasType_setting accepted)

/-! ## Functions and what they declare -/

theorem preserves_newFunction (name : String) : (newFunction name).Preserves Sound := by
  intro lib sound id fn found
  change (lib.functions ++ [({ name } : Function)])[id]? = some fn at found
  rw [getElem?_append] at found
  split at found
  · exact sound id fn found
  · obtain rfl := mem_singleton.mp (mem_of_getElem? found)
    exact ⟨valid_empty, by simp⟩

theorem preserves_clear (fn : FunctionId) : (clear fn).Preserves Sound :=
  (preserves_onGraph fn Graph.preserves_clear).bind fun _ =>
    preserves_modify fun _ sound => sound.modifyFunction_of_graph fn fun _ => rfl

theorem preserves_setDefault (fn : FunctionId) (port : Port) (value : Value) :
    (setDefault fn port value).Preserves Sound :=
  preserves_get_bind fun lib sound =>
    preserves_onGraph fn (Graph.preserves_setDefault port value lib.quoteValue) lib sound

theorem preserves_createFunctionNode (around : FunctionId) (embedded : Option FunctionId)
    (asked : Option Int) : (createFunctionNode around embedded asked).Preserves Sound := by
  cases embedded with
  | none => exact preserves_throw _
  | some inner =>
    refine (preserves_getFunction inner).bind fun fn => ?_
    refine (preserves_onGraph around (preserves_reserveId asked)).bind fun id => ?_
    have formed : (({ id, kind := .function, name := fn.name } : Node).embed inner
        fn).WellFormed := Node.wellFormed_embed rfl rfl inner fn
    refine (preserves_onGraph around (preserves_addNode formed)).bind fun _ => ?_
    refine Preserves.bind (preserves_modify fun _ sound => ?_) fun _ => preserves_pure _
    exact sound.modifyFunction_of_graph inner fun _ => rfl

section Interface

/-- A change of what functions declare, and not of their graphs. -/
def Redeclares (change : Function → Function) : Prop := ∀ fn, (change fn).graph = fn.graph ∧
  ((change fn).outputs = fn.outputs ∨ ∀ defn ∈ (change fn).outputs, defn.kind.isOutput = true)

variable {inv : Library → Prop} (keeps : ∀ (lib : Library) id change, Redeclares change →
  inv lib → inv (lib.modifyFunction id change))

include keeps

theorem preserves_setInterface_of (id : FunctionId) (inputs outputs : List Definition) :
    (setInterface id inputs outputs).Preserves inv := by
  intro lib holds
  rcases setInterface_cases lib id inputs outputs with
    ⟨error, refused⟩ | ⟨dependents, kinds, declared⟩
  · rw [refused]
    exact holds
  · rw [declared]
    exact foldlRecOn dependents _ (keeps lib id _ (fun _ => ⟨rfl, .inr kinds⟩) holds)
      fun lib holds id _ => keeps lib id _ (fun _ => ⟨rfl, .inl rfl⟩) holds

theorem preserves_suggestInterface_of (id : FunctionId) : (suggestInterface id).Preserves inv :=
  (preserves_getFunction id).bind fun _ => preserves_setInterface_of keeps id _ _

end Interface

theorem Sound.updateNode (sound : lib.Sound) (around : FunctionId) (only : Option FunctionId)
    (id : Int) : (lib.updateNode around only id).Sound := by
  rcases lib.updateNode_cases around only id with
    same | ⟨fn, node, emb, inner, present, found, embeds, -, -, updated⟩
  · rw [same]
    exact sound
  · rw [updated]
    refine sound.modifyFunction around fun _ _ => ?_
    exact (sound around fn present).updateFunctionNode (mem_of_node? found).1 embeds inner

theorem preserves_updateFunctionNodes (around : FunctionId) (only : Option FunctionId) :
    (updateFunctionNodes around only).Preserves Sound := by
  refine (preserves_getFunction around).bind fun fn => preserves_modify ?_
  intro lib sound
  refine Sound.modifyFunction_of_graph ?_ around fun _ => rfl
  exact foldlRecOn fn.graph.nodeIds _ sound fun _ sound id _ => sound.updateNode around only id

/-! ## Histories -/

/-- An edit of a library. -/
inductive Edit where
  | newFunction (name : String)
  | newNoise (noise : ValueNoise Float)
  | changeNoise (id : NoiseId) (change : ValueNoise Float → Except EditError (ValueNoise Float))
  | createNode (fn : FunctionId) (kind : Kind) (asked : Option Int)
  | createFunctionNode (around : FunctionId) (embedded : Option FunctionId) (asked : Option Int)
  | removeNode (fn : FunctionId) (id : Int)
  | clear (fn : FunctionId)
  | connect (fn : FunctionId) (edge : Connection)
  | disconnect (fn : FunctionId) (edge : Connection)
  | setName (fn : FunctionId) (id : Int) (name : String)
  | setParam (fn : FunctionId) (id : Int) (key : ParamKey) (value : Value)
  | setDefault (fn : FunctionId) (port : Port) (value : Value)
  | setVariables (fn : FunctionId) (id : Int) (names : List String)
  | setInterface (id : FunctionId) (inputs outputs : List Definition)
  | suggestInterface (id : FunctionId)
  | updateFunctionNodes (around : FunctionId) (only : Option FunctionId)

/-- The library after an edit. A refused edit leaves what it changed before that. -/
def afterEdit (lib : Library) : Edit → Library
  | .newFunction name => ((newFunction name).outcome lib).2
  | .newNoise noise => ((newNoise noise).outcome lib).2
  | .changeNoise id change => ((changeNoise id change).outcome lib).2
  | .createNode fn kind asked => ((createNode fn kind asked).outcome lib).2
  | .createFunctionNode around embedded asked =>
    ((createFunctionNode around embedded asked).outcome lib).2
  | .removeNode fn id => ((removeNode fn id).outcome lib).2
  | .clear fn => ((clear fn).outcome lib).2
  | .connect fn edge => ((connect fn edge).outcome lib).2
  | .disconnect fn edge => ((disconnect fn edge).outcome lib).2
  | .setName fn id name => ((setName fn id name).outcome lib).2
  | .setParam fn id key value => ((setParam fn id key value).outcome lib).2
  | .setDefault fn port value => ((setDefault fn port value).outcome lib).2
  | .setVariables fn id names => ((setVariables fn id names).outcome lib).2
  | .setInterface id inputs outputs => ((setInterface id inputs outputs).outcome lib).2
  | .suggestInterface id => ((suggestInterface id).outcome lib).2
  | .updateFunctionNodes around only => ((updateFunctionNodes around only).outcome lib).2

/-- The library that a history of edits leads to from nothing. -/
def afterEdits (edits : List Edit) : Library := edits.foldl afterEdit {}

theorem Sound.edit (sound : lib.Sound) (edit : Edit) : (lib.afterEdit edit).Sound := by
  have keeps (lib : Library) (id : FunctionId) (change : Function → Function)
      (same : Redeclares change) (sound : lib.Sound) :=
    sound.modifyFunction_of_graph id fun fn => (same fn).1
  cases edit with
  | newFunction name => exact preserves_newFunction name lib sound
  | newNoise noise => exact preserves_newNoise noise lib sound
  | changeNoise id change =>
    intro id fn found
    rw [afterEdit, function?, functions_changeNoise] at found
    exact sound id fn found
  | createNode fn kind asked => exact preserves_createNode fn kind asked lib sound
  | createFunctionNode around embedded asked =>
    exact preserves_createFunctionNode around embedded asked lib sound
  | removeNode fn id => exact preserves_onGraph fn (preserves_removeNode id) lib sound
  | clear fn => exact preserves_clear fn lib sound
  | connect fn edge => exact preserves_onGraph fn (preserves_connect edge) lib sound
  | disconnect fn edge => exact preserves_onGraph fn (preserves_disconnect edge) lib sound
  | setName fn id name => exact preserves_onGraph fn (preserves_setName id name) lib sound
  | setParam fn id key value => exact preserves_setParam fn id key value lib sound
  | setDefault fn port value => exact preserves_setDefault fn port value lib sound
  | setVariables fn id names =>
    exact preserves_onGraph fn (preserves_setVariables id names) lib sound
  | setInterface id inputs outputs =>
    exact preserves_setInterface_of keeps id inputs outputs lib sound
  | suggestInterface id => exact preserves_suggestInterface_of keeps id lib sound
  | updateFunctionNodes around only => exact preserves_updateFunctionNodes around only lib sound

theorem sound_empty : ({} : Library).Sound := by
  simp [Sound, function?]

theorem sound_afterEdits (edits : List Edit) : (afterEdits edits).Sound :=
  foldlRecOn edits afterEdit sound_empty fun _ sound edit _ => sound.edit edit

/-- **Graphs stay valid.** After any history of edits, refused ones included, the
records of every graph agree, its connections join ports that exist, no node depends on
itself, and the next number is not in use. -/
theorem graph_valid_afterEdits (edits : List Edit) (id : FunctionId) (function : Function)
    (found : (afterEdits edits).function? id = some function) :
    function.graph.Valid ∧ function.graph.hasNode function.graph.nextId = false := by
  have valid := (sound_afterEdits edits id function found).valid
  exact ⟨valid, valid.nextId_unused⟩

/-- A history whose graph keeps one connection: a second one into the same port is
refused. -/
theorem graph_valid_afterEdits_refused :
    let edits : List Edit := [.newFunction "dome", .createNode 0 .constant none,
      .createNode 0 .relay none, .createNode 0 .relay (some 7), .connect 0 ⟨⟨1, 0⟩, ⟨2, 0⟩⟩,
      .connect 0 ⟨⟨2, 0⟩, ⟨7, 0⟩⟩, .connect 0 ⟨⟨1, 0⟩, ⟨7, 0⟩⟩, .removeNode 0 1]
    ∃ function, (afterEdits edits).function? 0 = some function ∧
      function.graph.connections = [⟨⟨2, 0⟩, ⟨7, 0⟩⟩] ∧
      function.graph.Valid ∧ function.graph.hasNode function.graph.nextId = false := by
  intro edits
  have left : ((afterEdits edits).function? 0).map (·.graph.connections) =
      some [⟨⟨2, 0⟩, ⟨7, 0⟩⟩] := by cbv
  obtain ⟨function, found, connections⟩ := map_eq_some_iff.mp left
  exact ⟨function, found, connections, graph_valid_afterEdits edits 0 function found⟩

end Library

end FieldGraph
