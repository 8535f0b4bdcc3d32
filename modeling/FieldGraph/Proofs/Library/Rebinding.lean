import FieldGraph.Proofs.Graph.Variables
import FieldGraph.Proofs.Library.Reachable

/-! # New ports for old nodes

Declaring the variables of an expression, and bringing function nodes up to date, replaces the
input and output ports of nodes. What was bound to a port moves to the new place of its name or
definition. Nothing else is lost, and nothing else changes.
-/

namespace FieldGraph

open Fallible List Option

namespace Graph

/-- What a graph becomes when an expression gets variables, which are to be its input ports. -/
structure Redeclared (before : Graph) (node : Node) (names : List String)
    (inputs : List InputPort) (after : Graph) : Prop where
  /-- The ports are the variables in order. -/
  named : inputs.map (·.name) = names
  /-- Nothing else changes about the expression, and nothing about other nodes. -/
  nodes : after.nodes = before.nodes.map fun other =>
    if other.id = node.id then { other with inputs } else other
  /-- A variable that was there keeps its default and its source. -/
  kept : ∀ (old new : Nat) (port : InputPort), node.inputs[old]? = some port →
    names[new]? = some port.name → inputs[new]? = some port ∧
      ∀ source, (⟨source, ⟨node.id, new⟩⟩ ∈ after.connections ↔
        ⟨source, ⟨node.id, old⟩⟩ ∈ before.connections)
  /-- A new variable is zero, and nothing is connected to it. -/
  added : ∀ (new : Nat) (name : String), names[new]? = some name →
    name ∉ node.inputs.map (·.name) → inputs[new]? = some { name, default := 0 } ∧
      ∀ source, ⟨source, ⟨node.id, new⟩⟩ ∉ after.connections
  /-- Only what variables had that are still there is connected to the expression. -/
  dropped : ∀ edge ∈ after.connections, edge.target.node = node.id →
    ∃ (old new : Nat) (port : InputPort), node.inputs[old]? = some port ∧
      names[new]? = some port.name ∧ edge.target = ⟨node.id, new⟩ ∧
      ⟨edge.source, ⟨node.id, old⟩⟩ ∈ before.connections
  /-- Connections that do not end at the expression stay as they are. -/
  elsewhere : ∀ edge, edge.target.node ≠ node.id →
    (edge ∈ after.connections ↔ edge ∈ before.connections)

section Redeclared

variable {graph : Graph} {node : Node} {names : List String} {name : String} {new : Nat}

theorem getElem?_declaredInputs (here : names[new]? = some name) :
    (graph.declaredInputs node names)[new]? = some (match (graph.boundInputs node).get? name with
        | some (_, default) => { name, default }
        | none => { name }) := by
  rw [declaredInputs, getElem?_map, here]
  rfl

theorem Sound.redeclared (sound : graph.Sound) (mem : node ∈ graph.nodes)
    (isExpr : node.kind = .expression) (nodup : names.Nodup) :
    graph.Redeclared node names (graph.declaredInputs node names) (graph.declared node names) := by
  have distinct := (sound.nodes node mem).variables_nodup isExpr
  have unbound := (sound.nodes node mem).variables_unbound isExpr
  have connected := sound.mem_declared mem isExpr nodup
  constructor
  case named => exact names_declaredInputs graph node names
  case nodes => simpa only [beq_iff_eq] using sound.nodes_declared mem isExpr nodup
  case kept =>
    intro old new port stood named
    refine ⟨?_, fun source => (connected _).trans ?_⟩
    · rw [getElem?_declaredInputs named,
        (get?_boundInputs_iff distinct).mpr ⟨old, port, stood, rfl, rfl⟩]
      have := unbound port (mem_of_getElem? stood)
      cases port
      cases this
      rfl
    · constructor
      · rintro (⟨-, other⟩ | ⟨old', new', port', stood', named', target, listed⟩)
        · exact (other rfl).elim
        obtain rfl : new = new' := by simpa using target
        -- Two ports of one name are one port.
        have same : (node.inputs.map (·.name))[old]? = (node.inputs.map (·.name))[old']? := by
          rw [getElem?_map, getElem?_map, stood, stood', map_some, map_some, ← named, named']
        have inside := (List.getElem?_eq_some_iff.mp stood).1
        rw [(getElem?_inj (by simpa using inside) distinct).mp same]
        exact listed
      · exact fun listed => .inr ⟨old, new, port, stood, named, rfl, listed⟩
  case added =>
    intro new name named fresh
    constructor
    · rw [getElem?_declaredInputs named]
      have nothing : (graph.boundInputs node).get? name = none := by
        rw [eq_none_iff_forall_ne_some]
        intro value held
        obtain ⟨old, port, stood, rfl, -⟩ := (get?_boundInputs_iff distinct).mp held
        exact fresh (List.mem_map_of_mem (mem_of_getElem? stood))
      rw [nothing]
    · intro source listed
      rcases (connected _).mp listed with ⟨-, other⟩ | ⟨old, new', port, stood, named', target, -⟩
      · exact other rfl
      · obtain rfl : new = new' := by simpa using target
        cases named.symm.trans named'
        exact fresh (List.mem_map_of_mem (mem_of_getElem? stood))
  case dropped =>
    intro edge listed ends
    rcases (connected edge).mp listed with ⟨-, other⟩ | kept
    · exact (other ends).elim
    · exact kept
  case elsewhere =>
    intro edge ends
    rw [connected]
    constructor
    · rintro (⟨listed, -⟩ | ⟨_, _, _, _, _, target, _⟩)
      · exact listed
      · exact (ends (by rw [target])).elim
    · exact fun listed => .inl ⟨listed, ends⟩

end Redeclared

end Graph

namespace Library

/-- **New variables lose nothing.** In every graph that edits lead to, distinct variables can be
declared for every expression. Those that it had keep their default and their source at their
new place, new ones are zero and connected to nothing, and all else stays as it is: the
connections from the expression, the other connections, and the other nodes. -/
theorem variables_redeclared_afterEdits (edits : List Edit) (around : FunctionId)
    (function : Function) (found : (afterEdits edits).function? around = some function) (id : Int)
    (node : Node) (present : function.graph.node? id = some node)
    (isExpression : node.kind = .expression) (names : List String) (nodup : names.Nodup) :
    ∃ inputs graph, (setVariables around id names).Completes (afterEdits edits) ()
        ((afterEdits edits).withGraph around graph) ∧
      function.graph.Redeclared node names inputs graph := by
  have sound := sound_afterEdits edits around function found
  have declared := sound.completes_setVariables present isExpression nodup
  refine ⟨_, _, ?_, sound.redeclared (Graph.mem_of_node? present).1 isExpression nodup⟩
  rw [Completes, setVariables, outcome_onGraph found, declared]

/-- Of three variables the last and the first are declared again, with a new one between them.
The source of the last and the default of the first are at their new places, the connection
of the second is gone, and the expression still feeds the node behind it. -/
theorem variables_redeclared_afterEdits_shuffle :
    let edits : List Edit := [.newFunction "shuffle", .createNode 0 .constant none,
      .createNode 0 .expression none, .setVariables 0 2 ["a", "b", "c"], .createNode 0 .relay none,
      .setDefault 0 ⟨2, 0⟩ (.real 7), .connect 0 ⟨⟨1, 0⟩, ⟨2, 1⟩⟩, .connect 0 ⟨⟨1, 0⟩, ⟨2, 2⟩⟩,
      .connect 0 ⟨⟨2, 0⟩, ⟨3, 0⟩⟩]
    ∃ (inputs : List InputPort) (graph : Graph),
      (setVariables 0 2 ["c", "d", "a"]).Completes (afterEdits edits) ()
        ((afterEdits edits).withGraph 0 graph) ∧
      inputs[0]? = some { name := "c" } ∧ inputs[1]? = some { name := "d" } ∧
      inputs[2]? = some { name := "a", default := 7 } ∧
      ⟨⟨1, 0⟩, ⟨2, 0⟩⟩ ∈ graph.connections ∧ (∀ source, ⟨source, ⟨2, 1⟩⟩ ∉ graph.connections) ∧
      (∀ source, ⟨source, ⟨2, 2⟩⟩ ∉ graph.connections) ∧ ⟨⟨2, 0⟩, ⟨3, 0⟩⟩ ∈ graph.connections := by
  intro edits
  have answers : ((afterEdits edits).function? 0).bind (fun function =>
      (function.graph.node? 2).map fun node =>
        (node.kind, node.inputs, function.graph.connections)) =
      some (.expression, [{ name := "a", default := 7 }, { name := "b" }, { name := "c" }],
        [⟨⟨1, 0⟩, ⟨2, 1⟩⟩, ⟨⟨1, 0⟩, ⟨2, 2⟩⟩, ⟨⟨2, 0⟩, ⟨3, 0⟩⟩]) := by cbv
  obtain ⟨function, found, answers⟩ := bind_eq_some_iff.mp answers
  obtain ⟨node, present, answers⟩ := map_eq_some_iff.mp answers
  simp only [Prod.mk.injEq] at answers
  obtain ⟨isExpression, ports, connections⟩ := answers
  obtain ⟨inputs, graph, completes, redeclared⟩ := variables_redeclared_afterEdits edits 0 function
    found 2 node present isExpression ["c", "d", "a"] (by decide)
  have numbered : node.id = 2 := (Graph.mem_of_node? present).2
  obtain ⟨last, fromLast⟩ := redeclared.kept 2 0 { name := "c" } (by rw [ports]; rfl) rfl
  obtain ⟨new, unfed⟩ := redeclared.added 1 "d" rfl (by rw [ports]; decide)
  obtain ⟨first, fromFirst⟩ :=
    redeclared.kept 0 2 { name := "a", default := 7 } (by rw [ports]; rfl) rfl
  rw [numbered, connections] at fromLast fromFirst
  rw [numbered] at unfed
  refine ⟨inputs, graph, completes, last, new, first, (fromLast _).mpr (by decide), unfed,
    fun source listed => ?_, ?_⟩
  · simpa using (fromFirst source).mp listed
  · rw [redeclared.elsewhere _ (by rw [numbered]; decide), connections]
    decide

end Library

end FieldGraph
