import FieldGraph.Proofs.Compile.Evaluate
import FieldGraph.Proofs.Compile.Schedule
import FieldGraph.Proofs.Compile.Sources
import FieldGraph.Proofs.Double

/-! # Steps of an expansion settle

A step of an expansion that does not succeed blames a node: an expression that cannot be read or has
no port for a variable, or a function node. No step runs into missing nodes, ports or operands,
because records are as long as the lists of output ports they stand for, and operations have the
params and operands of the catalog.

Resolving the values of a node waits for the sources of the node that have no records, and for
nothing else.
-/

namespace FieldGraph

open Frame List Option

/-- A node with nothing to reject. The ports of an expression are its variables, in order. -/
structure Node.Consistent (node : Node) : Prop where
  plain : node.kind ≠ .function
  expression : node.kind = .expression → ∃ root,
    Expression.parseWithin Expression.requestRoom Expression.Callable.catalog
        node.expressionText = .ok root ∧
      node.inputs.map (·.name) = Expression.variablesOf root

/-- A node with an expression that a compilation has no room to read. -/
def Node.Deep (node : Node) : Prop := node.kind = .expression ∧
  Expression.compileRoom < Expression.depth Expression.Callable.catalog node.expressionText

/-- An error rejects a node of a frame for what is wrong with it, or is that its expression
is nested too deep. -/
def CompileError.Blames (lib : Library) (top : Frame) (error : CompileError) : Prop :=
  ∃ (frame : Frame) (node : Node), frame.Proper lib top ∧
    frame.function.graph.node? node.id = some node ∧
    ((∃ cause, error = .rejected (some (frame.origin node.id)) cause ∧ cause.isLocal = true ∧
      ¬ node.Consistent) ∨ error = .broken .nestedTooDeep ∧ node.Deep)

variable {lib : Library} {top frame : Frame} {fails : CompileError → Prop}

theorem Frame.Legal.hasNode_origin (legal : frame.Legal lib top) {node : Node}
    (present : frame.Has node) : top.function.graph.hasNode (frame.origin node.id) = true := by
  induction frame generalizing node with
  | root id fn =>
    rw [legal.1]
    exact isSome_iff_exists.mpr ⟨node, present⟩
  | embedded parent site id fn ih => exact ih legal.1 legal.2.1

/-! ## Records and sources -/

namespace Expansion

variable {before middle after : Expansion}

/-- Nothing is recorded and nothing is handed out. -/
structure Quiet (before after : Expansion) : Prop where
  values : after.values = before.values
  sinks : ∀ node ∈ after.nodes, node.isSink = true → node ∈ before.nodes

theorem Quiet.refl (expn : Expansion) : expn.Quiet expn := ⟨rfl, fun _ mem _ => mem⟩

theorem Quiet.trans (first : before.Quiet middle) (second : middle.Quiet after) :
    before.Quiet after :=
  ⟨second.values.trans first.values,
    fun node mem isSink => first.sinks node (second.sinks node mem isSink) isSink⟩

theorem quiet_append {node : ExpandedNode} (keeps : node.isSink = false)
    (inputs : Table Coordinate Nat) :
    before.Quiet { before with nodes := before.nodes ++ [node], inputs } := by
  refine ⟨rfl, fun other mem isSink => ?_⟩
  rcases mem_append.mp mem with old | new
  · exact old
  · rw [mem_singleton.mp new, keeps] at isSink
    cases isSink

/-- A recorded node is there, and has a value for each of its output ports. -/
def Sized (lib : Library) (top : Frame) (values : Table Site (List Ref)) : Prop :=
  ∀ (frame : Frame) (id : Int) (refs : List Ref), frame.Legal lib top →
    values.get? (frame.path, id) = some refs →
      ∃ node, frame.function.graph.node? id = some node ∧ refs.length = node.outputs.length

/-- A failure is allowed for if a supply is an output port that a record has no value for. -/
def Covers (values : Table Site (List Ref)) (fails : CompileError → Prop) (supply : Supply) :
    Prop :=
  ∀ frame port refs, supply = .source frame port →
    values.get? (frame.path, port.node) = some refs → atPlace? refs port.index = none →
      fails (.broken (.defect (.noSuchOutput port)))

/-- The node that has to be expanded before the value of a source is known. -/
def missing? (values : Table Site (List Ref)) (source : Option (Frame × Port)) :
    Option (Frame × Int) :=
  source.bind fun (frame, port) =>
    if values.contains (frame.path, port.node) then none else some (frame, port.node)

end Expansion

namespace Expanding

open Expansion

variable {before : Expansion} {node : Node}

/-- A value is resolved if its source has a record, and waits for the source otherwise. -/
def Traces (before : Expansion) (source : Option (Frame × Port)) (resolved : Resolved)
    (after : Expansion) : Prop :=
  before.Quiet after ∧ resolved.pending? = missing? before.values source

theorem settles_resolveSource {source : Port}
    (covers : Covers before.values fails (.source frame source)) :
    (resolveSource frame source).Settles before fails (Traces before (some (frame, source))) := by
  apply settles_get_bind
  cases recorded : before.values.get? (frame.path, source.node) with
  | none =>
    refine settles_pure ⟨.refl before, ?_⟩
    simp [missing?, Table.contains, recorded, Resolved.pending?]
  | some refs =>
    dsimp only
    cases here : atPlace? refs source.index with
    | none => exact covers frame source refs rfl recorded here
    | some ref =>
      refine settles_pure ⟨.refl before, ?_⟩
      simp [missing?, Table.contains, recorded, Resolved.pending?]

theorem settles_coordinate (c : Coordinate) :
    (coordinate c).Settles before fails fun _ after => before.Quiet after := by
  apply settles_get_bind
  cases before.inputs.get? c with
  | some id => exact settles_pure (.refl before)
  | none =>
    apply Settles.bind
    apply (settles_addNode _ _ _).imp
    rintro node after ⟨rfl, rfl⟩
    exact Settles.bind (settles_modify (settles_pure (quiet_append rfl _)))

theorem settles_outerInput (kind : Kind) :
    (outerInput kind).Settles before fails (Traces before none) := by
  unfold outerInput
  cases kind.coordinate? with
  | none => exact settles_pure ⟨.refl before, rfl⟩
  | some c =>
    apply Settles.bind
    apply (settles_coordinate c).imp
    intro ref after quiet
    exact settles_pure ⟨quiet, rfl⟩

theorem settles_resolve {supply : Supply} (covers : Covers before.values fails supply) :
    supply.resolve.Settles before fails (Traces before supply.source?) := by
  cases supply with
  | source source port => exact settles_resolveSource covers
  | outer kind => exact settles_outerInput kind
  | literal x => exact settles_pure ⟨.refl before, rfl⟩

/-- The values of a list are resolved, or wait for their sources. -/
def TracesAll (before : Expansion) (sources : List (Option (Frame × Port)))
    (found : List Resolved) (after : Expansion) : Prop :=
  before.Quiet after ∧ found.map Resolved.pending? = sources.map (missing? before.values)

theorem settles_resolveAll {supplies : List Supply}
    (covers : ∀ supply ∈ supplies, Covers before.values fails supply) :
    (supplies.mapM Supply.resolve).Settles before fails
      (TracesAll before (supplies.map Supply.source?)) := by
  induction supplies generalizing before with
  | nil => exact settles_pure ⟨.refl before, rfl⟩
  | cons supply rest ih =>
    rw [mapM_cons]
    obtain ⟨here, others⟩ := forall_mem_cons.mp covers
    apply Settles.bind
    refine (settles_resolve here).imp ?_
    rintro resolved middle ⟨first, here⟩
    apply Settles.bind
    refine (ih (first.values ▸ others)).imp ?_
    rintro found after ⟨second, there⟩
    refine settles_pure ⟨first.trans second, ?_⟩
    rw [first.values] at there
    rw [map_cons, map_cons, map_cons, here, there]

theorem settles_gather (proper : frame.Proper lib top) (covers : frame.Opens lib node →
      ∀ supply ∈ frame.supplies lib node, Covers before.values fails supply)
    (blame : node.kind = .function →
      ∀ cause, cause.isLocal = true → fails (.rejected (some (frame.origin node.id)) cause)) :
    (gather lib frame node).Settles before fails fun found after =>
      TracesAll before (frame.sources lib node) found after ∧ frame.Opens lib node := by
  refine settles_gather_of blame fun leads => ?_
  have opens : frame.Opens lib node := fun kind =>
    (leads kind).imp fun _ => .imp_right (.imp_left (· proper.nodup))
  exact (settles_resolveAll (covers opens)).imp fun _ _ traced => ⟨traced, opens⟩

theorem traces_gather (proper : frame.Proper lib top) (node : Node) :
    (gather lib frame node).Ensures before fun found after =>
      TracesAll before (frame.sources lib node) found after ∧ frame.Opens lib node :=
  settles_gather proper (fun _ _ _ _ _ _ _ _ _ => trivial) fun _ _ _ => trivial

theorem covers_of_sized (sized : Sized lib top before.values) (sound : lib.Sound)
    (proper : frame.Proper lib top) (present : frame.Has node) (opens : frame.Opens lib node) :
    ∀ supply ∈ frame.supplies lib node, Covers before.values fails supply := by
  rintro _ mem source port refs rfl recorded lacks
  have supplies := proper.supplies_sources sound present opens (mem_sources_iff.mpr mem)
  obtain ⟨node, found, length⟩ := sized source port.node refs supplies.proper.legal recorded
  obtain ⟨other, there, inside⟩ := Graph.hasOutput_iff.mp supplies.exists_output
  cases found.symm.trans there
  unfold atPlace? at lacks inside
  split at inside
  · rename_i pos
    rw [if_pos pos] at lacks
    simp [length] at lacks inside
    omega
  · cases inside

end Expanding

end FieldGraph
