import FieldGraph.Proofs.Compile.Continued

/-! # Recorded nodes

A node is recorded after the nodes that it is made of, and a function node only if it is
up to date and embeds no function that is around it. So the nodes that an expansion has
recorded are closed under following connections back, through functions and out of them.
-/

namespace FieldGraph

open Expanding

variable {lib : Library} {top frame : Frame} {before middle after : Expansion}
  {point : Point} {fits : Fitting}

namespace Frame

/-- A node can be expanded: a function node leads to a frame, and sources are recorded. -/
structure Settled (lib : Library) (recorded : Frame → Int → Prop) (frame : Frame)
    (node : Node) : Prop where
  opens : frame.Opens lib node
  sources : ∀ source port, some (source, port) ∈ frame.sources lib node → recorded source port.node

theorem Settled.mono {recorded later : Frame → Int → Prop} {node : Node}
    (settled : frame.Settled lib recorded node)
    (kept : ∀ frame id, recorded frame id → later frame id) : frame.Settled lib later node :=
  ⟨settled.opens, fun source port listed => kept _ _ (settled.sources source port listed)⟩

end Frame

namespace Expansion

/-- The values of a node are recorded. -/
def Records (expn : Expansion) (frame : Frame) (id : Int) : Prop :=
  expn.values.contains (frame.path, id) = true

/-- What a recorded node is made of is recorded. -/
def Closed (lib : Library) (top : Frame) (expn : Expansion) : Prop :=
  ∀ (frame : Frame) (node : Node), frame.Proper lib top →
    frame.function.graph.node? node.id = some node → expn.Records frame node.id →
      frame.Settled lib expn.Records node

theorem closed_empty : Closed lib top {} := by
  intro frame node _ _ recorded
  cases recorded

theorem Closed.of_values_eq (closed : before.Closed lib top)
    (same : after.values = before.values) : after.Closed lib top := by
  have records : after.Records = before.Records := by
    unfold Records
    rw [same]
  rw [Closed, records]
  exact closed

theorem Closed.record (closed : before.Closed lib top) (proper : frame.Proper lib top) {node : Node}
    (present : frame.Has node) (settled : frame.Settled lib before.Records node) (values : List Ref)
    (added : after.values = before.values.insert (frame.path, node.id) values) :
    after.Closed lib top := by
  have kept (frame : Frame) (id : Int) (old : before.Records frame id) :
      after.Records frame id := by
    rw [Records] at old ⊢
    rw [added, contains_insert, old, Bool.or_true]
  intro other asked proper' present' recorded
  rw [Records, added, contains_insert, Bool.or_eq_true, decide_eq_true_eq] at recorded
  rcases recorded with same | old
  · obtain ⟨paths, ids⟩ := Prod.mk.inj same
    obtain rfl := proper'.legal.eq_of_path_eq proper.legal paths
    rw [ids] at present'
    cases present.symm.trans present'
    exact settled.mono kept
  · exact (closed other asked proper' present' old).mono kept

end Expansion

namespace Expanding

open Expansion

variable {node : Node} {refs : List Ref}

theorem settled_of_traces {found : List Resolved}
    (traced : TracesAll before (frame.sources lib node) found after)
    (opens : frame.Opens lib node) (values : found.mapM Resolved.value? = some refs) :
    frame.Settled lib after.Records node := by
  refine ⟨opens, fun source port listed => ?_⟩
  by_contra unrecorded
  rw [Records, traced.1.values, Bool.not_eq_true] at unrecorded
  have waits := (mem_pending_iff traced.2).mpr ⟨port, listed, rfl, unrecorded⟩
  obtain ⟨resolved, mem, pending⟩ := List.mem_filterMap.mp waits
  obtain ⟨ref, -, known⟩ := exists_of_forall₂_left (mapM_eq_some_iff.mp values) mem
  cases resolved with
  | value ref => cases pending
  | pending source id => cases known

theorem ensures_finish_closed (admits : lib.Fits fits)
    (faithful : before.Faithful lib top point fits) (closed : before.Closed lib top)
    (proper : frame.Proper lib top) (present : frame.Has node)
    (fills : Fills lib frame point node refs before)
    (settled : frame.Settled lib before.Records node) :
    (finish lib frame node refs).Ensures before fun _ after => after.Closed lib top := by
  have expands : (expandNode lib frame node refs).Ensures before fun _ after =>
      after.values = before.values := by
    cases hands : node.kind.handsOut with
    | false =>
      refine (ensures_expandNode point admits faithful.ordered proper.legal present fills.inside
        fills.count hands).imp fun _ _ holds => ?_
      exact holds.1.values
    | true =>
      refine (ensures_expandNode_handsOut hands refs).imp fun _ _ holds => ?_
      simp only [holds.2.2, handingOut]
  refine Settles.bind (expands.imp fun values middle same => settles_modify ?_)
  refine closed.record proper present settled values ?_
  exact congrArg (·.insert (frame.path, node.id) values) same

end Expanding

/-- **Expansions are closed.** A node is recorded after what it is made of. -/
theorem Library.expand_closed (sound : lib.Sound) {id : FunctionId} {debug : Bool} {fn : Function}
    {expn : Expansion} (found : lib.function? id = some fn)
    (expanded : lib.expand id debug = .ok expn) : expn.Closed lib (.root id fn) := by
  have outermost := Frame.proper_root found
  let top := Frame.root id fn
  let holds (expn : Expansion) := expn.Faithful lib top (fun _ => 0)
    (Operation.Suits lib) ∧ expn.Closed lib top
  refine (expand_of found expanded holds (fun frame _ => frame.Proper lib top)
    (fun _ => outermost) ⟨Expansion.faithful_empty, Expansion.closed_empty⟩ ?_).2
  rintro frame node proper present before ⟨faithful, closed⟩
  refine ((ensures_gather_fills faithful proper.legal present).and
    ((traces_gather proper node).and (supplied_gather sound proper present))).imp ?_
  rintro gathered middle ⟨⟨extension, -, fills⟩, ⟨traced, opens⟩, supplied⟩
  have kept : holds middle := ⟨faithful.extends extension, closed.of_values_eq traced.1.values⟩
  refine ⟨kept, fun source id waits => (supplied source id waits).1, fun refs values => ?_⟩
  have settled := settled_of_traces traced opens values
  refine ((ensures_finish sound.fits outermost.legal kept.1 proper.legal present
    (fills refs values)).and (ensures_finish_closed sound.fits kept.1 kept.2 proper present
      (fills refs values) settled)).imp ?_
  exact fun _ _ ⟨advances, closed⟩ => ⟨advances.faithful, closed⟩

end FieldGraph
