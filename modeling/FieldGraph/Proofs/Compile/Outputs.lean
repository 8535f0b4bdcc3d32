import FieldGraph.Proofs.Compile.Correspond
import FieldGraph.Proofs.Graph.Dependencies

/-! # The outputs of a program

A program that is not compiled for debugging has one output for each output node of its
function, in the order of their numbers.
-/

namespace FieldGraph

open Expanding List Option

variable {lib : Library} {top : Frame} {before after expn : Expansion} {ids : List Int}
  {point : Point} {fits : Fitting}
  {fn : Function} {roots : List Int}

/-- An expanded node hands out the value of a node of a graph. -/
def Graph.HandsOut (lib : Library) (graph : Graph) (id : Int) (sink : ExpandedNode) : Prop :=
  ∃ node, graph.node? id = some node ∧ sink.origin = some id ∧
    sink.role = .sink node.kind node.definitionName (node.params.map (Setting.freeze lib))

namespace Expansion

/-- An expansion hands out the values of some nodes of the compiled function, in order. -/
def HandsOut (lib : Library) (top : Frame) (ids : List Int) (expn : Expansion) : Prop :=
  Forall₂ (top.function.graph.HandsOut lib) ids (expn.nodes.filter ExpandedNode.isSink)

theorem Deepens.filter_nodes (deepens : before.Deepens top after) (ordered : after.Ordered fits) :
    after.nodes.filter ExpandedNode.isSink = before.nodes.filter ExpandedNode.isSink := by
  obtain ⟨rest, nodes⟩ := deepens.nodes
  have ascending := ordered.sequenced.ascending
  have none : rest.filter ExpandedNode.isSink = [] := by
    rw [filter_eq_nil_iff]
    intro node mem isSink
    have earlier := deepens.sinks node (nodes ▸ mem_append_right _ mem) isSink
    rw [← nodes] at ascending
    exact Nat.lt_irrefl _ ((pairwise_append.mp ascending).2.2 node earlier node mem)
  rw [← nodes, filter_append, none, append_nil]

end Expansion

namespace Expanding

variable (sound : lib.Sound) (admits : lib.Fits fits) (proper : top.Proper lib top)
  (depth : Nat) (faithful : before.Faithful lib top point fits)
  (handed : before.HandsOut lib top ids)

include sound admits proper depth faithful handed

theorem ensures_visit_handsOut {node : Node} (present : top.Has node)
    (hands : node.kind.handsOut = true) (new : node.id ∉ ids) :
    (visit lib depth [] top node.id).Ensures before fun _ after =>
      after.HandsOut lib top (ids ++ [node.id]) := by
  refine (ensures_visit_finishes sound admits proper depth faithful present).imp ?_
  rintro _ after (⟨rfl, recorded⟩ | ⟨-, refs, middle, ⟨kept, deepens⟩, finished⟩)
  · -- What is recorded has been handed out.
    obtain ⟨refs, found⟩ := isSome_iff_exists.mp recorded
    obtain ⟨sink, mem, ⟨kind, name, params, role⟩, origin⟩ :=
      faithful.handedOut node.id node refs found present hands
    have isSink : sink.isSink = true := by rw [ExpandedNode.isSink, role]
    obtain ⟨id, listed, _, -, same, -⟩ :=
      exists_of_forall₂_right handed (mem_filter.mpr ⟨mem, isSink⟩)
    rw [origin, some.injEq] at same
    exact (new (same ▸ listed)).elim
  · obtain ⟨value, rfl⟩ := ensures_iff.mp (ensures_finish_handOut hands refs) _ after finished
    unfold Expansion.HandsOut Expansion.handOut
    dsimp only [Expansion.handingOut]
    rw [filter_append, deepens.filter_nodes kept.ordered]
    exact rel_append handed (.cons ⟨node, present, rfl, rfl⟩ .nil)

theorem ensures_visits_handsOut (nodup : (ids ++ roots).Nodup)
    (starts : ∀ root ∈ roots, ∃ node, top.function.graph.node? root = some node ∧
      node.kind.handsOut = true) :
    (roots.forM (visit lib depth [] top)).Ensures before fun _ after =>
      after.HandsOut lib top (ids ++ roots) := by
  induction roots generalizing before ids with
  | nil =>
    rw [append_nil]
    exact settles_pure handed
  | cons root roots ih =>
    obtain ⟨node, present, hands⟩ := starts root mem_cons_self
    obtain ⟨-, rfl⟩ := Graph.mem_of_node? present
    have new : node.id ∉ ids := fun listed =>
      (nodup_append.mp nodup).2.2 node.id listed node.id mem_cons_self rfl
    refine Settles.bind (((ensures_visit admits proper.legal depth [] faithful proper.legal
      node.id).and (ensures_visit_handsOut sound admits proper depth faithful handed present
        hands new)).imp fun _ middle both => ?_)
    rw [append_cons] at nodup ⊢
    exact ih both.1.1.faithful both.2 nodup fun other mem =>
      starts other (mem_cons_of_mem _ mem)

end Expanding

/-- **An expansion hands out the outputs of its function, in order.** -/
theorem Library.expand_handsOut (sound : lib.Sound) (declared : lib.Declared) {id : FunctionId}
    (found : lib.function? id = some fn) (expanded : lib.expand id false = .ok expn) :
    expn.HandsOut lib (.root id fn) fn.outputIds := by
  have valid := (sound id fn found).valid
  obtain ⟨_, roots, found', rooted, walked⟩ := exists_walk expanded
  cases found.symm.trans found'
  obtain rfl : roots = fn.outputIds := (Function.expansionRoots_ok rooted).2.trans (append_nil _)
  have starts : ∀ root ∈ fn.outputIds, ∃ node, fn.graph.node? root = some node ∧
      node.kind.handsOut = true := by
    intro root mem
    obtain ⟨node, present, hands, -⟩ := Function.exists_output valid (declared id fn found) mem
    exact ⟨node, present, hands⟩
  have start : Expansion.Faithful lib (.root id fn) (fun _ => 0)
      (Operation.Suits lib) {} := Expansion.faithful_empty
  have none : ({} : Expansion).HandsOut lib (.root id fn) [] := .nil
  have nodup : ([] ++ fn.outputIds).Nodup := (Function.pairwise_outputIds valid).imp ne_of_lt
  exact ensures_iff.mp (ensures_visits_handsOut sound sound.fits (Frame.proper_root found)
    lib.expansionDepth start none nodup starts) _ expn walked

/-- What an output of a program tells about a node. -/
structure Output.Tells (lib : Library) (graph : Graph) (id : Int) (output : Output) : Prop where
  node : output.node = id
  origin : ∃ node, graph.node? id = some node ∧ output.kind = node.kind ∧
    output.name = node.definitionName ∧
    output.layer = Schedule.layer node.kind (node.params.map (Setting.freeze lib))

theorem Schedule.tells_output {sched : Schedule} {graph : Graph} {id : Int}
    {sink merged : ExpandedNode} {output : Output} (handsOut : graph.HandsOut lib id sink)
    (renames : sink.Renames merged) (made : sched.output merged = .ok output) :
    output.Tells lib graph id := by
  obtain ⟨node, present, origin, role⟩ := handsOut
  rw [← renames.role] at role
  unfold Schedule.output at made
  split at made
  · cases made
    refine ⟨?_, node, present, ?_, ?_, ?_⟩
    · rw [renames.origin, origin, getD_some]
    · simp only [ExpandedNode.kind, role]
    · simp only [ExpandedNode.name, role]
    · simp only [ExpandedNode.kind, ExpandedNode.params, role]
  · cases made

/-- **A program has the outputs of its function, in order.** -/
theorem Expansion.Faithful.outputs {prog : Program Float}
    (faithful : expn.Faithful lib top point fits) (handsOut : expn.HandsOut lib top ids)
    (realizes : expn.schedule.Realizes prog) :
    Forall₂ (fun id (output : Output) => output.Tells lib top.function.graph id) ids
      prog.outputs := by
  have made := realizes.outputs
  rw [outputs_schedule, faithful.filter_live] at made
  have renamed : Forall₂ ExpandedNode.Renames (expn.nodes.filter ExpandedNode.isSink)
      (expn.merged.filter ExpandedNode.isSink) := by
    refine rel_filter (fun old new renames => ?_)
      (Merging.follows_ofNodes faithful.ordered.sequenced).nodes
    have same : old.isSink = new.isSink := by
      rw [ExpandedNode.isSink, ExpandedNode.isSink, renames.role]
    exact Bool.eq_iff_iff.mp same
  have handed : Forall₂ (fun merged id => ∃ sink, top.function.graph.HandsOut lib id sink ∧
      sink.Renames merged) (expn.merged.filter ExpandedNode.isSink) ids :=
    forall₂_of_common renamed handsOut.flip fun sink _ _ _ renames handed => ⟨sink, handed, renames⟩
  refine forall₂_of_common handed made fun _ _ _ _ handed output => ?_
  obtain ⟨sink, handed, renames⟩ := handed
  exact Schedule.tells_output handed renames output

end FieldGraph
