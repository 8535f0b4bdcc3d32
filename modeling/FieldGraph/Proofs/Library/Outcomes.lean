import FieldGraph.Proofs.Fallible
import FieldGraph.Proofs.Graph.Valid

/-! # What edits come to

An edit of a library is refused before anything changes, or what it makes of the library is
said outright: the graph of one function is replaced, or what functions declare.
-/

namespace FieldGraph

open Fallible List

namespace Library

variable {lib : Library} {around : FunctionId} {fn : Function}
  {change : Function → Function} {α : Type}

theorem find_eq_ok_iff {id : FunctionId} : lib.find id = .ok fn ↔ lib.function? id = some fn := by
  unfold find
  cases lib.function? id <;> simp

theorem function?_modifyFunction (lib : Library) (id other : FunctionId)
    (change : Function → Function) : (lib.modifyFunction id change).function? other =
      if id = other then (lib.function? other).map change else lib.function? other := by
  simp only [function?, modifyFunction]
  by_cases same : id = other <;> simp [same]

theorem forall_modifyFunction {holds : Function → Prop}
    (each : ∀ id fn, lib.function? id = some fn → holds fn) (id : FunctionId)
    (keeps : ∀ fn, lib.function? id = some fn → holds (change fn)) :
    ∀ other fn, (lib.modifyFunction id change).function? other = some fn → holds fn := by
  intro other fn found
  rw [function?_modifyFunction] at found
  by_cases same : id = other
  · subst same
    rw [if_pos rfl] at found
    obtain ⟨orig, present, rfl⟩ := Option.map_eq_some_iff.mp found
    exact keeps orig present
  · rw [if_neg same] at found
    exact each other fn found

theorem outcome_getFunction (id : FunctionId) (lib : Library) :
    (getFunction id).outcome lib = (lib.find id, lib) := rfl

/-! ## Edits of one graph -/

/-- The library with another graph in a function. -/
def withGraph (lib : Library) (id : FunctionId) (graph : Graph) : Library :=
  lib.modifyFunction id fun fn => { fn with graph }

/-- The library with noises behind those it has. -/
def restock (lib : Library) (more : List (ValueNoise Float)) : Library :=
  { lib with noises := lib.noises ++ more }

theorem function?_withGraph (found : lib.function? around = some fn) (graph : Graph)
    (id : FunctionId) : (lib.withGraph around graph).function? id =
      if around = id then some { fn with graph } else lib.function? id := by
  rw [withGraph, function?_modifyFunction]
  split
  · rename_i same
    rw [← same, found]
    rfl
  · rfl

@[simp]
theorem function?_restock (lib : Library) (more : List (ValueNoise Float)) (id : FunctionId) :
    (lib.restock more).function? id = lib.function? id := rfl

theorem modifyFunction_congr (found : lib.function? around = some fn)
    {other : Function → Function} (same : change fn = other fn) :
    lib.modifyFunction around change = lib.modifyFunction around other := by
  have functions : lib.functions.modify around change = lib.functions.modify around other := by
    refine ext_getElem? fun place => ?_
    by_cases here : around = place
    · subst here
      rw [function?] at found
      simp [found, same]
    · simp [here]
  rw [modifyFunction, modifyFunction, functions]

theorem withGraph_self (found : lib.function? around = some fn) :
    lib.withGraph around fn.graph = lib := by
  have same : lib.withGraph around fn.graph = lib.modifyFunction around id :=
    modifyFunction_congr found rfl
  rw [same]
  simp [modifyFunction]

theorem withGraph_withGraph (lib : Library) (id : FunctionId) (first second : Graph) :
    (lib.withGraph id first).withGraph id second = lib.withGraph id second := by
  simp [withGraph, modifyFunction, modify_modify_eq, Function.comp_def]

theorem withGraph_restock (lib : Library) (id : FunctionId) (graph : Graph)
    (more : List (ValueNoise Float)) :
    (lib.restock more).withGraph id graph = (lib.withGraph id graph).restock more := rfl

theorem restock_nil (lib : Library) : lib.restock [] = lib := by
  rw [restock, append_nil]

theorem restock_restock (lib : Library) (first second : List (ValueNoise Float)) :
    (lib.restock first).restock second = lib.restock (first ++ second) := by
  simp [restock]

theorem outcome_onGraph (found : lib.function? around = some fn)
    (edit : Editing Graph α) : (onGraph around edit).outcome lib = ((edit.outcome fn.graph).1,
        lib.withGraph around (edit.outcome fn.graph).2) := by
  simp only [onGraph, outcome_ofOutcome, found]
  rfl

theorem outcome_onGraph_of_none (missing : lib.function? around = none) (edit : Editing Graph α) :
    (onGraph around edit).outcome lib = (.error .notAFunction, lib) := by
  simp only [onGraph, outcome_ofOutcome, missing]

/-! ## Settings and interfaces -/

theorem setParam_cases (lib : Library) (around : FunctionId) (id : Int) (key : ParamKey)
    (value : Value) :
    (∃ error, (setParam around id key value).outcome lib = (.error error, lib)) ∨
      ∃ fn node place spec setting, lib.function? around = some fn ∧
        fn.graph.node? id = some node ∧ node.paramPlace key = .ok place ∧
        node.kind.entry.params[place]? = some spec ∧
        spec.setting id lib.quoteValue value = .ok setting ∧
        (setParam around id key value).outcome lib =
          (.ok (), lib.withGraph around (fn.graph.modifyNode id fun node =>
            { node with params := node.params.set place setting })) := by
  unfold setParam
  rw [outcome_bind, outcome_get]
  simp only [askGraph, outcome_bind, outcome_getFunction, find]
  cases present : lib.function? around with
  | none => exact .inl ⟨_, rfl⟩
  | some fn =>
    simp only [outcome_ofExcept, Graph.find]
    cases found : fn.graph.node? id with
    | none => exact .inl ⟨_, rfl⟩
    | some node =>
      dsimp only
      cases placed : node.paramPlace key with
      | error _ => exact .inl ⟨_, rfl⟩
      | ok place =>
        dsimp only
        cases specified : node.kind.entry.params[place]? with
        | none => exact .inl ⟨_, rfl⟩
        | some spec =>
          simp only [outcome_bind, outcome_ofExcept]
          cases accepted : spec.setting id lib.quoteValue value with
          | error _ => exact .inl ⟨_, rfl⟩
          | ok setting =>
            refine .inr ⟨fn, node, place, spec, setting, rfl, found, placed,
              specified, accepted, ?_⟩
            dsimp only
            rw [outcome_onGraph present]
            rfl

theorem functions_changeNoise (lib : Library) (id : NoiseId)
    (change : ValueNoise Float → Except EditError (ValueNoise Float)) :
    ((changeNoise id change).outcome lib).2.functions = lib.functions := by
  rw [changeNoise, outcome_bind, outcome_get]
  dsimp only
  cases lib.noise? id with
  | none => rfl
  | some noise =>
    simp only
    cases change noise <;> rfl

/-- The library with some functions marked. -/
def marking (lib : Library) (dependents : List FunctionId) : Library :=
  dependents.foldl (fun lib dependent =>
    lib.modifyFunction dependent fun other => { other with marked := true }) lib

theorem setInterface_cases (lib : Library) (id : FunctionId) (inputs outputs : List Definition) :
    (∃ error, (setInterface id inputs outputs).outcome lib = (.error error, lib)) ∨
      ∃ dependents, (∀ defn ∈ outputs, defn.kind.isOutput = true) ∧
        (setInterface id inputs outputs).Completes lib () ((lib.modifyFunction id fun fn =>
            { fn with inputs, outputs }).marking dependents) := by
  unfold Completes
  rw [setInterface, outcome_bind, outcome_getFunction]
  cases lib.find id with
  | error cause => exact .inl ⟨cause, rfl⟩
  | ok fn =>
    cases inputs.find? (!·.kind.isInput) with
    | some defn => exact .inl ⟨_, rfl⟩
    | none =>
      cases others : outputs.find? (!·.kind.isOutput) with
      | some defn => exact .inl ⟨_, rfl⟩
      | none => exact .inr ⟨fn.dependents, by simpa using others, rfl⟩

theorem updateNode_cases (lib : Library) (around : FunctionId) (only : Option FunctionId)
    (id : Int) :
    lib.updateNode around only id = lib ∨ ∃ fn node emb inner, lib.function? around = some fn ∧
        fn.graph.node? id = some node ∧ node.embedding = some emb ∧
        only.all (· == emb.function) = true ∧
        lib.function? emb.function = some inner ∧
        lib.updateNode around only id =
          lib.withGraph around (fn.graph.updateFunctionNode node emb inner) := by
  unfold updateNode
  cases present : lib.function? around with
  | none => exact .inl rfl
  | some fn =>
    dsimp only
    cases found : fn.graph.node? id with
    | none => exact .inl rfl
    | some node =>
      dsimp only
      cases embeds : node.embedding with
      | none => exact .inl rfl
      | some emb =>
        dsimp only
        split
        case isFalse => exact .inl rfl
        rename_i named
        cases exists_ : lib.function? emb.function with
        | none => exact .inl rfl
        | some inner =>
          exact .inr ⟨fn, node, emb, inner, rfl, found, embeds, named, exists_,
            modifyFunction_congr present rfl⟩

end Library

end FieldGraph
