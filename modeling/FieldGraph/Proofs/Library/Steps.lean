import FieldGraph.Proofs.Graph.Steps
import FieldGraph.Proofs.Library.Reachable

/-! # What edits of nodes come to

An edit of nodes works on the graph of one function. This module says what each of them
makes of a library: it is refused and leaves the library as it is, or one graph is
replaced, with noises for a new node behind those that are there.
-/

namespace FieldGraph

open Fallible

namespace Graph

variable {graph : Graph}

/-- The graph with a node added. -/
def adding (node : Node) (graph : Graph) : Graph := { graph with
    nodes := placeNode node graph.nodes
    nextId := if graph.nextId ≤ node.id then node.id + 1 else graph.nextId }

theorem outcome_addNode {node : Node} (unused : graph.hasNode node.id = false) :
    (addNode node).outcome graph = (.ok (), graph.adding node) := by
  simp [addNode, outcome_bind, unused, adding]

theorem Valid.reserveId_cases (valid : graph.Valid) (asked : Option Int) :
    (asked.isSome = true ∧ ∃ error, (reserveId asked).outcome graph = (.error error, graph)) ∨
      graph.hasNode (asked.getD graph.nextId) = false ∧
      ∃ reserved, (reserveId asked).outcome graph = (.ok (asked.getD graph.nextId), reserved) ∧
        ∀ node : Node, node.id = asked.getD graph.nextId →
          (addNode node).outcome reserved = (.ok (), graph.adding node) := by
  cases asked with
  | none =>
    have unused := valid.nextId_unused
    refine .inr ⟨unused, _, rfl, ?_⟩
    rintro node numbered
    rw [Option.getD_none] at numbered
    have free : ({ graph with nextId := graph.nextId + 1 }).hasNode node.id = false := by
      rw [numbered]
      exact unused
    rw [outcome_addNode free]
    have next : ¬ graph.nextId + 1 ≤ graph.nextId := by omega
    simp only [adding, numbered, next, ↓reduceIte, Std.le_refl]
  | some id =>
    by_cases taken : graph.hasNode id = true
    · left
      exact ⟨rfl, .nodeExists id, by simp [reserveId, outcome_bind, taken]⟩
    · have unused : graph.hasNode id = false := Bool.eq_false_iff.mpr taken
      refine .inr ⟨unused, graph, by simp [reserveId, outcome_bind, taken], ?_⟩
      rintro node numbered
      exact outcome_addNode (by rw [numbered]; exact unused)

end Graph

/-- A new node that embeds a function. -/
def Node.ofFunction (id : Int) (inner : FunctionId) (fn : Function) : Node :=
  Node.embed { id, kind := .function, name := fn.name } inner fn

namespace Library

variable {lib : Library} {around : FunctionId} {fn : Function}

/-! ## New nodes -/

/-- A setting is what a param starts with, unless the param starts with a noise. -/
def IsFirst (setting : Setting) (spec : ParamSpec) : Prop :=
  match spec.default with
  | .real x => setting = .real x
  | .integer n => setting = .integer n
  | .text s => setting = .text s
  | .freshNoise => True

theorem newSetting_completes (spec : ParamSpec) (lib : Library) :
    ∃ setting more, IsFirst setting spec ∧
      (newSetting spec.default).outcome lib = (.ok setting, lib.restock more) := by
  unfold IsFirst
  cases spec.default with
  | freshNoise => exact ⟨_, [.standard], trivial, rfl⟩
  | real x => exact ⟨.real x, [], rfl, by rw [restock_nil]; rfl⟩
  | integer n => exact ⟨.integer n, [], rfl, by rw [restock_nil]; rfl⟩
  | text s => exact ⟨.text s, [], rfl, by rw [restock_nil]; rfl⟩

theorem newSettings_complete (specs : List ParamSpec) (lib : Library) :
    ∃ params more, List.Forall₂ IsFirst params specs ∧
      (specs.mapM fun spec => newSetting spec.default).outcome lib =
        (.ok params, lib.restock more) := by
  induction specs generalizing lib with
  | nil => exact ⟨[], [], .nil, by rw [restock_nil]; rfl⟩
  | cons spec rest ih =>
    obtain ⟨setting, new, first, here⟩ := newSetting_completes spec lib
    obtain ⟨settings, more, others, there⟩ := ih (lib.restock new)
    refine ⟨setting :: settings, new ++ more, .cons first others, ?_⟩
    rw [List.mapM_cons, outcome_bind, here]
    dsimp only
    rw [outcome_bind, there, restock_restock]
    rfl

variable (sound : lib.Sound)

include sound

theorem Sound.reserveId_cases (around : FunctionId) (asked : Option Int) :
    ((asked.isSome = true ∨ lib.function? around = none) ∧
        ∃ error, (onGraph around (Graph.reserveId asked)).outcome lib = (.error error, lib)) ∨
      ∃ fn reserved, lib.function? around = some fn ∧
        fn.graph.hasNode (asked.getD fn.graph.nextId) = false ∧
        (onGraph around (Graph.reserveId asked)).outcome lib =
          (.ok (asked.getD fn.graph.nextId), lib.withGraph around reserved) ∧
        ∀ (node : Node) more, node.id = asked.getD fn.graph.nextId →
          (onGraph around (Graph.addNode node)).outcome
            ((lib.withGraph around reserved).restock more) =
              (.ok (), (lib.withGraph around (fn.graph.adding node)).restock more) := by
  cases found : lib.function? around with
  | none => exact .inl ⟨.inr rfl, .notAFunction, outcome_onGraph_of_none found _⟩
  | some fn =>
    rcases (sound around fn found).valid.reserveId_cases asked with
      ⟨given, error, refused⟩ | ⟨unused, reserved, given, adds⟩
    · refine .inl ⟨.inl given, error, ?_⟩
      rw [outcome_onGraph found, refused, withGraph_self found]
    · refine .inr ⟨fn, reserved, rfl, unused, ?_, ?_⟩
      · rw [outcome_onGraph found, given]
      · intro node more numbered
        have again : ((lib.withGraph around reserved).restock more).function? around =
            some { fn with graph := reserved } := by
          rw [function?_restock, function?_withGraph found, if_pos rfl]
        rw [outcome_onGraph again, adds node numbered, withGraph_restock, withGraph_withGraph]

theorem Sound.createNode_cases (around : FunctionId) (kind : Kind) (asked : Option Int) :
    ((kind = .function ∨ asked.isSome = true ∨ lib.function? around = none) ∧
        ∃ error, (createNode around kind asked).outcome lib = (.error error, lib)) ∨
      ∃ fn params more, lib.function? around = some fn ∧ kind ≠ .function ∧
        List.Forall₂ IsFirst params kind.entry.params ∧
        fn.graph.hasNode (asked.getD fn.graph.nextId) = false ∧
        (createNode around kind asked).outcome lib =
          (.ok (asked.getD fn.graph.nextId), (lib.withGraph around (fn.graph.adding
            (Node.ofKind (asked.getD fn.graph.nextId) kind params))).restock more) := by
  unfold createNode
  by_cases plain : kind = .function
  · exact .inl ⟨.inl plain, .functionKind, by simp only [plain]; rfl⟩
  simp only [plain, ↓reduceIte]
  rcases sound.reserveId_cases around asked with
    ⟨cause, error, refused⟩ | ⟨fn, reserved, found, unused, given, adds⟩
  · exact .inl ⟨.inr cause, error, by rw [outcome_bind, refused]⟩
  · obtain ⟨params, more, first, settings⟩ := newSettings_complete kind.entry.params
      (lib.withGraph around reserved)
    refine .inr ⟨fn, params, more, found, plain, first, unused, ?_⟩
    rw [outcome_bind, given]
    dsimp only
    rw [outcome_bind, settings]
    dsimp only
    rw [outcome_bind, adds (Node.ofKind (asked.getD fn.graph.nextId) kind params) more rfl]
    rfl

theorem Sound.createFunctionNode_cases (around : FunctionId) (embedded : Option FunctionId)
    (asked : Option Int) :
    (∃ error, (createFunctionNode around embedded asked).outcome lib = (.error error, lib)) ∨
      ∃ fn inner emb, lib.function? around = some fn ∧
        embedded = some inner ∧ lib.function? inner = some emb ∧
        fn.graph.hasNode (asked.getD fn.graph.nextId) = false ∧
        (createFunctionNode around embedded asked).outcome lib =
          (.ok (asked.getD fn.graph.nextId), (lib.withGraph around
            (fn.graph.adding (Node.ofFunction (asked.getD fn.graph.nextId) inner
              emb))).modifyFunction inner fun fn =>
                { fn with dependents := distinct (fn.dependents ++ [around]) }) := by
  cases embedded with
  | none => exact .inl ⟨.notAFunction, rfl⟩
  | some inner =>
    unfold createFunctionNode
    rw [outcome_bind, outcome_getFunction]
    cases present : lib.function? inner with
    | none => exact .inl ⟨.notAFunction, by simp only [find, present]⟩
    | some emb =>
      simp only [find, present]
      rcases sound.reserveId_cases around asked with
        ⟨-, error, refused⟩ | ⟨fn, reserved, found, unused, given, adds⟩
      · exact .inl ⟨error, by rw [outcome_bind, refused]⟩
      · refine .inr ⟨fn, inner, emb, found, rfl, present, unused, ?_⟩
        have added := adds (Node.ofFunction (asked.getD fn.graph.nextId) inner emb) [] rfl
        rw [restock_nil, restock_nil] at added
        rw [outcome_bind, given]
        dsimp only
        rw [Node.ofFunction] at added
        rw [outcome_bind, added]
        rfl

end Library

end FieldGraph
