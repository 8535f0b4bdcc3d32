import FieldGraph.Proofs.Graph.Atomic
import FieldGraph.Proofs.Graph.Dependencies

/-! # Walks after edits

In every graph that edits lead to, walks along connections find exactly the nodes that can be
reached. So two ports can be connected exactly if the connection keeps the graph acyclic, and
the dependencies of some nodes come sorted, each node behind all nodes that feed it.
-/

namespace FieldGraph

open Relation

namespace Graph

variable {graph : Graph} {port : Port}

/-- A port is an output port of a node of the graph. -/
def IsOutput (graph : Graph) (port : Port) : Prop :=
  ∃ node ∈ graph.nodes, node.id = port.node ∧ 0 ≤ port.index ∧ port.index < node.outputs.length

/-- A port is an input port of a node of the graph. -/
def IsInput (graph : Graph) (port : Port) : Prop :=
  ∃ node ∈ graph.nodes, node.id = port.node ∧ 0 ≤ port.index ∧ port.index < node.inputs.length

variable (valid : graph.Valid)

include valid

theorem Valid.node?_eq_some_iff {id : Int} {node : Node} :
    graph.node? id = some node ↔ node ∈ graph.nodes ∧ node.id = id :=
  ⟨mem_of_node?, fun ⟨mem, numbered⟩ => numbered ▸ node?_of_mem valid.ascending mem⟩

theorem Valid.hasOutput_iff_isOutput : graph.hasOutput port = true ↔ graph.IsOutput port := by
  simp only [hasOutput_iff, valid.node?_eq_some_iff, isSome_atPlace?_iff, IsOutput, and_assoc]

theorem Valid.hasInput_iff_isInput : graph.hasInput port = true ↔ graph.IsInput port := by
  simp only [hasInput_iff, valid.node?_eq_some_iff, isSome_atPlace?_iff, IsInput, and_assoc]

/-- **Two ports can be connected exactly if the connection keeps the graph acyclic.** -/
theorem Valid.canConnect_iff_acyclic {edge : Connection} :
    graph.canConnect edge = true ↔ graph.IsOutput edge.source ∧ graph.IsInput edge.target ∧
        (∀ other ∈ graph.connections, other.target ≠ edge.target) ∧
        ∀ node, ¬ TransGen (graph.link edge).Feeds node node := by
  constructor
  · intro possible
    obtain ⟨source, target, -, free, -⟩ := canConnect_iff.mp possible
    exact ⟨valid.hasOutput_iff_isOutput.mp source, valid.hasInput_iff_isInput.mp target,
      valid.incoming?_eq_none_iff.mp free, (valid.link possible).acyclic⟩
  · rintro ⟨source, target, vacant, acyclic⟩
    have added : (graph.link edge).Feeds edge.source.node edge.target.node :=
      ⟨edge, List.mem_append_right _ List.mem_cons_self, rfl, rfl⟩
    have kept (first second : Int) (feeds : graph.Feeds first second) :
        (graph.link edge).Feeds first second := by
      obtain ⟨other, mem, starts, ends⟩ := feeds
      exact ⟨other, List.mem_append_left _ mem, starts, ends⟩
    refine canConnect_iff.mpr ⟨valid.hasOutput_iff_isOutput.mpr source,
      valid.hasInput_iff_isInput.mpr target, ?_, valid.incoming?_eq_none_iff.mpr vacant, ?_⟩
    · intro same
      exact acyclic edge.source.node (.single (same ▸ added))
    · -- A path back would be closed by the connection.
      rw [Bool.eq_false_iff]
      intro found
      have path := ReflTransGen.mono kept _ _ (valid.hasPath_iff.mp found)
      exact acyclic edge.target.node (TransGen.tail' path added)

end Graph

namespace Library

/-- **Connections are refused exactly where they must be.** In every graph that edits lead to,
two ports can be connected exactly if the one is an output port, the other is an input port
that no connection leads to, and no node depends on itself in the graph with the connection
added. A path is found from one node to another exactly if connections lead there. -/
theorem connectable_iff_afterEdits (edits : List Edit) (id : FunctionId) (function : Function)
    (found : (afterEdits edits).function? id = some function) :
    (∀ source target, function.graph.canConnect ⟨source, target⟩ = true ↔
      function.graph.IsOutput source ∧ function.graph.IsInput target ∧
        (∀ connection ∈ function.graph.connections, connection.target ≠ target) ∧
        ∀ node, ¬ TransGen (function.graph.link ⟨source, target⟩).Feeds node node) ∧
    ∀ start target, function.graph.hasPath start target = true ↔
      ReflTransGen function.graph.Feeds start target := by
  have valid := (sound_afterEdits edits id function found).valid
  exact ⟨fun source target => valid.canConnect_iff_acyclic, fun start target => valid.hasPath_iff⟩

/-- Of three nodes in a row the last cannot feed the first, which it depends on; the first can
feed the free port of the last. -/
theorem connectable_iff_afterEdits_row :
    let edits : List Edit := [.newFunction "row", .createNode 0 .relay none,
      .createNode 0 .relay none, .createNode 0 (.operation .add) none,
      .connect 0 ⟨⟨1, 0⟩, ⟨2, 0⟩⟩, .connect 0 ⟨⟨2, 0⟩, ⟨3, 0⟩⟩]
    ∃ function, (afterEdits edits).function? 0 = some function ∧
      ReflTransGen function.graph.Feeds 1 3 ∧
      ¬ ReflTransGen function.graph.Feeds 3 1 ∧
      (∀ node, ¬ TransGen (function.graph.link ⟨⟨1, 0⟩, ⟨3, 1⟩⟩).Feeds node node) ∧
      ∃ node, TransGen (function.graph.link ⟨⟨3, 0⟩, ⟨1, 0⟩⟩).Feeds node node := by
  intro edits
  have answers : ((afterEdits edits).function? 0).map (fun function =>
      (function.graph.hasPath 1 3, function.graph.hasPath 3 1,
        function.graph.canConnect ⟨⟨1, 0⟩, ⟨3, 1⟩⟩,
        function.graph.canConnect ⟨⟨3, 0⟩, ⟨1, 0⟩⟩,
        function.graph.hasOutput ⟨3, 0⟩, function.graph.hasInput ⟨1, 0⟩,
        function.graph.incoming? ⟨1, 0⟩)) =
      some (true, false, true, false, true, true, none) := by cbv
  obtain ⟨function, found, answers⟩ := Option.map_eq_some_iff.mp answers
  simp only [Prod.mk.injEq] at answers
  obtain ⟨path, noPath, possible, impossible, source, target, free⟩ := answers
  obtain ⟨connects, paths⟩ := connectable_iff_afterEdits edits 0 function found
  have valid := (sound_afterEdits edits 0 function found).valid
  refine ⟨function, found, (paths 1 3).mp path, fun back => ?_, ?_, ?_⟩
  · rw [(paths 3 1).mpr back] at noPath
    cases noPath
  · exact ((connects ⟨1, 0⟩ ⟨3, 1⟩).mp possible).2.2.2
  · by_contra none
    rw [(connects ⟨3, 0⟩ ⟨1, 0⟩).mpr ⟨valid.hasOutput_iff_isOutput.mp source,
      valid.hasInput_iff_isInput.mp target, valid.incoming?_eq_none_iff.mp free,
      fun node cycle => none ⟨node, cycle⟩⟩] at impossible
    cases impossible

/-- **Dependencies come sorted.** In every graph that edits lead to, the walk to the
dependencies of some nodes ends without meeting a cycle. It lists exactly the nodes from which
one of these is reached, none of them twice, and every node behind the nodes that feed it. -/
theorem dependencies_sorted_afterEdits (edits : List Edit) (id : FunctionId) (function : Function)
    (found : (afterEdits edits).function? id = some function) (roots : List Int)
    (exist : ∀ root ∈ roots, root ∈ function.graph.nodeIds) :
    ∃ order, function.graph.dependencies roots = .ok order ∧ order.Nodup ∧
      (∀ node, node ∈ order ↔ ∃ root ∈ roots, ReflTransGen function.graph.Feeds node root) ∧
      function.graph.Topological order := by
  have valid := (sound_afterEdits edits id function found).valid
  obtain ⟨order, walked⟩ := valid.exists_dependencies exist
  have walks := valid.walks_dependencies walked
  exact ⟨order, walked, walks.nodup List.nodup_nil, fun node => valid.mem_dependencies_iff walked,
    walks.ordered fun front id back split => by cases front <;> cases split⟩

/-- Roots may repeat and depend on each other: every node is listed once, though the walk comes
to the first one three times. -/
theorem dependencies_sorted_afterEdits_diamond :
    let edits : List Edit := [.newFunction "diamond", .createNode 0 .relay none,
      .createNode 0 .relay none, .createNode 0 (.operation .add) none, .createNode 0 .relay none,
      .connect 0 ⟨⟨1, 0⟩, ⟨2, 0⟩⟩, .connect 0 ⟨⟨1, 0⟩, ⟨3, 0⟩⟩, .connect 0 ⟨⟨2, 0⟩, ⟨3, 1⟩⟩,
      .connect 0 ⟨⟨3, 0⟩, ⟨4, 0⟩⟩]
    ∃ function, (afterEdits edits).function? 0 = some function ∧
      function.graph.dependencies [3, 2, 3, 1] = .ok [1, 2, 3] ∧
      function.graph.Topological [1, 2, 3] ∧
      ∀ node, node ∈ [1, 2, 3] ↔
        ∃ root ∈ [3, 2, 3, 1], ReflTransGen function.graph.Feeds node root := by
  intro edits
  have answers : ((afterEdits edits).function? 0).map (fun function =>
      (function.graph.dependencies [3, 2, 3, 1], function.graph.nodeIds)) =
      some (.ok [1, 2, 3], [1, 2, 3, 4]) := by cbv
  obtain ⟨function, found, answers⟩ := Option.map_eq_some_iff.mp answers
  simp only [Prod.mk.injEq] at answers
  obtain ⟨listed, ids⟩ := answers
  obtain ⟨order, walked, -, members, sorted⟩ :=
    dependencies_sorted_afterEdits edits 0 function found [3, 2, 3, 1] (by rw [ids]; decide)
  obtain rfl := Except.ok.inj (listed.symm.trans walked)
  exact ⟨function, found, listed, sorted, members⟩

end Library

end FieldGraph
