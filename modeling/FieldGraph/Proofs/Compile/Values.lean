import FieldGraph.Proofs.Compile.NormalForm

/-! # Merging and sharing keep values

The run of the program that is made of an expansion ends with the values of the nodes that are left
and of the outputs in their buffers, and it ends exactly if these nodes have values.

Only the sign of zero can be lost: zero and negative zero count as the same, so they must not both
be used.
-/

namespace FieldGraph

open ExpandedNode List Machine Merging Option

theorem forall₂_filterMap {β γ δ : Type} {f : β → Option γ} {related : γ → δ → Prop}
    {items : List β} {others : List δ}
    (each : Forall₂ (fun item other => ∃ found, f item = some found ∧ related found other)
      items others) : Forall₂ related (items.filterMap f) others := by
  induction each with
  | nil => exact .nil
  | cons here _ ih =>
    obtain ⟨found, same, holds⟩ := here
    rw [filterMap_cons, same]
    exact .cons holds ih

/-! ## What the nodes that are left compute -/

namespace Expansion

variable {fits : Fitting} {lib : Library}
  {expn : Expansion} {prog : Program Float} {point : Point}
  {res : Nat → List Float32} {node : ExpandedNode} {full : Machine Float32}

theorem Ordered.in_live (ordered : expn.Ordered fits) (mem : node ∈ expn.live) :
    ∀ ref ∈ node.inputs, ref.In expn.live := by
  have follows := follows_ofNodes ordered.sequenced
  have resolves := resolves_ofNodes ordered.sequenced ordered.operands
  exact in_prune follows.sequenced (resolves.operands node (mem_of_mem_filter mem)) mem

theorem Ordered.buffers_of_reads (ordered : expn.Ordered fits)
    (solves : Solves point res expn.live) (mem : node ∈ expn.schedule.order)
    (reads : ∀ index, expn.schedule.Reads res full (.port node.id index)) :
    Forall₂ (fun addr value => full.buffer addr = [value])
      (expn.schedule.resultAddresses node) (res node.id) := by
  have computes := computes_of_mem_order mem
  unfold ExpandedNode.computes at computes
  split at computes
  · rename_i op params role
    have quantities := ExpandedNode.quantities
      (solves.outputCount_eq (Schedule.Realizes.live_of_mem_order mem) role)
    rw [mapM_eq_some_iff, forall₂_map_right_iff] at quantities
    have listed : Forall₂ (fun ref value => ref ∈ node.results ∧
        ref.quantity? res = some (.sample value)) node.results (res node.id) :=
      (forall₂_and_left _ _).mpr ⟨fun _ => id, quantities⟩
    refine forall₂_filterMap (listed.imp fun ref value both => ?_)
    obtain ⟨isResult, found⟩ := both
    obtain ⟨index, inside, rfl⟩ := mem_map.mp isResult
    obtain ⟨addr, given⟩ := isSome_iff_exists.mp
      (ordered.allots_schedule.results node mem index (mem_range.mp inside))
    refine ⟨addr, given, reads index addr value given ?_⟩
    rw [Ref.single?, found]
    rfl
  · cases computes

theorem Faithful.forall₂_outputs {top : Frame} (faithful : expn.Faithful lib top point fits)
    (realizes : expn.schedule.Realizes prog) {related : ExpandedNode → ExpandedNode → Prop}
    (renames : ∀ old new, related old new → old.Renames new)
    (merged : Forall₂ related expn.nodes expn.merged) :
    Forall₂ (fun sink output => ∃ new ∈ expn.live, related sink new ∧
        expn.schedule.output new = .ok output)
      (expn.nodes.filter ExpandedNode.isSink) prog.outputs := by
  have handed := realizes.outputs
  rw [outputs_schedule] at handed
  have sinks : Forall₂ related (expn.nodes.filter ExpandedNode.isSink)
      (expn.live.filter ExpandedNode.isSink) := by
    rw [faithful.filter_live]
    refine rel_filter (fun old new both => ?_) merged
    have same : old.isSink = new.isSink := by
      rw [ExpandedNode.isSink, ExpandedNode.isSink, (renames old new both).role]
    exact Bool.eq_iff_iff.mp same
  refine forall₂_of_common sinks.flip handed fun new listed _ _ both made => ?_
  exact ⟨new, mem_of_mem_filter listed, both, made⟩

theorem Ordered.output_of_reads (ordered : expn.Ordered fits) (crafted : expn.Crafted)
    (solves : Solves point (expn.evaluate point) expn.live)
    (reads : ∀ ref, (∀ x, ref = .constant x → ∃ node ∈ expn.live, .constant x ∈ node.inputs) →
      expn.schedule.Reads (expn.evaluate point) full ref) {sink merged : ExpandedNode}
    (present : sink ∈ expn.nodes) (hands : sink.isSink = true)
    (live : merged ∈ expn.live) (renames : sink.Renames merged)
    (same : merged.inputs.map (Ref.quantity? (expn.evaluate point)) =
      sink.inputs.map (Ref.quantity? (expn.evaluate point))) {output : Output}
    (handed : expn.schedule.output merged = .ok output) :
    output.node = sink.origin.getD 0 ∧ ∃ value, expn.evaluate point sink.id = [value] ∧
      full.buffer output.address = [value] := by
  obtain ⟨found, numbered⟩ := Schedule.output_ok handed
  refine ⟨numbered.trans (by rw [renames.origin]), ?_⟩
  obtain ⟨kind, name, params, role⟩ := role_of_isSink hands
  have hands' : merged.isSink = true := by rw [ExpandedNode.isSink, renames.role, role]
  obtain ⟨given, inputs⟩ := (crafted.nodes sink present).exists_value hands
  obtain ⟨taken, inputs'⟩ := (crafted.live live).exists_value hands'
  have operand : taken ∈ merged.inputs := by
    rw [inputs']
    exact mem_singleton_self taken
  obtain ⟨value, sampled⟩ := solves.exists_single? (ordered.in_live live taken operand)
  have sampled' : given.single? (expn.evaluate point) = some value := by
    rw [inputs, inputs'] at same
    rw [← sampled, Ref.single?, Ref.single?, (List.cons.inj same).1]
  refine ⟨value, ?_, ?_⟩
  · rw [ordered.evaluate_eq present, ExpandedNode.evaluate, role, inputs]
    simp [sampled']
  · rw [inputs'] at found
    refine reads taken (fun x constant => ⟨merged, live, ?_⟩) output.address value found sampled
    rw [← constant]
    exact operand

/-- A program is made of an expansion in which the two zeros are kept apart. -/
structure Compiled (lib : Library) (expn : Expansion) (prog : Program Float) :
    Prop where
  faithful : ∃ top, expn.Faithful lib top (fun _ => 0) (Operation.Suits lib)
  crafted : expn.Crafted
  realizes : expn.schedule.Realizes prog
  wellFormed : prog.WellFormed
  apart : expn.ZerosApart

namespace Compiled

variable {start full : Machine Float32}

variable (compiled : expn.Compiled lib prog)

include compiled

theorem ordered : expn.Ordered (Operation.Suits lib) := by
  obtain ⟨top, faithful⟩ := compiled.faithful
  exact faithful.ordered

theorem mirrors (point : Point) :
    (Merging.ofNodes expn.nodes).Mirrors point (expn.evaluate point) expn.nodes :=
  mirrors_ofNodes (compiled.apart.exact compiled.ordered) compiled.ordered.sequenced
    (compiled.ordered.valuates point)

theorem valuates_live (point : Point) : Valuates point (expn.evaluate point) expn.live :=
  (compiled.mirrors point).valuates.mono (filter_subset_self _)

variable (loaded : start.Holds prog 1 fun c => [point c])

include loaded

/-- A program can be run exactly if the nodes that are left have values. -/
theorem runs_iff :
    (∃ full, Machine.runSteps prog prog.allSteps start = (.ok (), full)) ↔
      Solves point (expn.evaluate point) expn.live := by
  have realizes := compiled.realizes
  constructor
  · rintro ⟨full, run⟩
    obtain ⟨changes, satisfied⟩ := runSteps_allSteps compiled.wellFormed loaded.length_eq run
    have holds := loaded.of_run compiled.wellFormed changes
    refine (compiled.valuates_live point).solves_of_computable compiled.ordered.sequenced_live
      (fun _ => compiled.ordered.in_live) fun node mem op params role args length => ?_
    have listed : node ∈ expn.schedule.order := by
      rw [order_schedule]
      exact mem_filter.mpr ⟨mem, by rw [ExpandedNode.computes, role]⟩
    obtain ⟨instr, there, computes, inputs, -⟩ :=
      exists_of_forall₂_left realizes.instructions listed
    obtain ⟨rfl, rfl⟩ := Role.compute.inj (role.symm.trans computes)
    have pos : 0 < full.size := by rw [holds.size_eq]; exact Nat.one_pos
    exact (satisfied instr there).apply_ok pos (length.trans inputs.length_eq)
  · intro solves
    refine exists_runSteps (fun instr listed args length => ?_) start
    obtain ⟨node, mem, role, inputs, -⟩ := exists_of_forall₂_right realizes.instructions listed
    obtain ⟨values, read, computed⟩ :=
      solves.compute node (Schedule.Realizes.live_of_mem_order mem) _ _ role
    -- Whether an operation can be computed depends on the number of operands only.
    have width : values.length = args.length := by
      rw [length, ← (mapM_eq_some_iff.mp read).length_eq, inputs.length_eq]
    have uniform := Kernels.isOk_compute instr.operation instr.params width
    have first : instr.apply values = .ok (expn.evaluate point node.id) := computed
    unfold Instruction.apply at first ⊢
    rw [first] at uniform
    cases result : Kernels.compute instr.operation instr.params args with
    | ok made => exact ⟨made, rfl⟩
    | error fault =>
      rw [result] at uniform
      cases uniform

variable (run : Machine.runSteps prog prog.allSteps start = (.ok (), full))

include run

theorem reads_of_run (ref : Ref)
    (used : ∀ x, ref = .constant x → ∃ node ∈ expn.live, .constant x ∈ node.inputs) :
    expn.schedule.Reads (expn.evaluate point) full ref := by
  have solves := (compiled.runs_iff loaded).mp ⟨full, run⟩
  obtain ⟨changes, satisfied⟩ := runSteps_allSteps compiled.wellFormed loaded.length_eq run
  have holds := loaded.of_run compiled.wellFormed changes
  refine compiled.ordered.reads (p := fun x => ∃ node ∈ expn.nodes, .constant x ∈ node.inputs)
    (fun node mem x operand => ⟨node, mem, operand⟩) compiled.apart.constants solves
    compiled.realizes holds satisfied ref fun x same => ?_
  obtain ⟨node, live, operand⟩ := used x same
  obtain ⟨old, there, renames⟩ := compiled.ordered.exists_of_mem_live live
  exact ⟨old, there, renames.constants x operand⟩

theorem outputs_of_run :
    Forall₂ (fun sink (output : Output) => output.node = sink.origin.getD 0 ∧
        ∃ value, expn.evaluate point sink.id = [value] ∧ full.buffer output.address = [value])
      (expn.nodes.filter ExpandedNode.isSink) prog.outputs := by
  have solves := (compiled.runs_iff loaded).mp ⟨full, run⟩
  obtain ⟨top, faithful⟩ := compiled.faithful
  have outputs := faithful.forall₂_outputs compiled.realizes (fun _ _ both => both.1)
    (compiled.mirrors point).inputs
  have sinks := (forall₂_and_left _ _).mpr ⟨fun sink mem => mem_filter.mp mem, outputs⟩
  refine sinks.imp fun sink output both => ?_
  obtain ⟨⟨present, hands⟩, merged, live, ⟨renames, same⟩, handed⟩ := both
  exact compiled.ordered.output_of_reads compiled.crafted solves (compiled.reads_of_run loaded run)
    present hands live renames same handed

end Compiled

end Expansion

namespace Library

theorem compiled_of_compile {edits : List Edit} {id : FunctionId} {debug : Bool} {expn : Expansion}
    {prog : Program Float} (expanded : (afterEdits edits).expand id debug = .ok expn)
    (compiled : (afterEdits edits).compile id debug = .ok prog) (apart : expn.ZerosApart) :
    expn.Compiled (afterEdits edits) prog := by
  obtain ⟨fn, roots, -, -, faithful, -⟩ :=
    expand_faithful (fun _ => 0) (sound_afterEdits edits).fits expanded
  obtain ⟨expn', expanded', realizes⟩ := compile_realizes compiled
  cases expanded.symm.trans expanded'
  exact ⟨⟨_, faithful⟩, faithful.crafted, realizes, wellFormed_of_compile compiled, apart⟩

/-- **Merging and sharing keep values.** What expands is compiled, and a run on a sample
ends exactly if the nodes that are left have values. Then the buffers of their ports and
those of the outputs hold the values that the expansion has node by node. -/
theorem merging_preserves_values (edits : List Edit) (id : FunctionId) (debug : Bool)
    {expansion : Expansion} (expanded : (afterEdits edits).expand id debug = .ok expansion)
    (apart : expansion.ZerosApart) :
    ∃ program, (afterEdits edits).compile id debug = .ok program ∧
      ∀ (point : Coordinate → Float32) (start : Machine Float32),
        start.Holds program 1 (fun c => [point c]) →
          ((∃ full, Machine.runSteps program program.allSteps start = (.ok (), full)) ↔
            ∀ node ∈ expansion.schedule.order, expansion.evaluate point node.id ≠ []) ∧
          ∀ full, Machine.runSteps program program.allSteps start = (.ok (), full) →
            (∀ node ∈ expansion.schedule.order,
              List.Forall₂ (fun address value => full.buffer address = [value])
                (expansion.schedule.resultAddresses node) (expansion.evaluate point node.id)) ∧
            List.Forall₂ (fun sink (output : Output) => output.node = sink.origin.getD 0 ∧
              ∃ value, expansion.evaluate point sink.id = [value] ∧
                full.buffer output.address = [value])
              (expansion.nodes.filter ExpandedNode.isSink) program.outputs := by
  obtain ⟨function, roots, -, -, faithful, -⟩ :=
    expand_faithful (fun _ => 0) (sound_afterEdits edits).fits expanded
  have crafted := faithful.crafted
  obtain ⟨program, made⟩ := faithful.ordered.exists_program (fun node member isSink => by
    obtain ⟨value, inputs⟩ := (crafted.nodes node member).exists_value isSink
    rw [inputs]
    exact cons_ne_nil _ _) debug
  have ready := compile_of_expand expanded made
  have compiled := compiled_of_compile expanded ready apart
  refine ⟨program, ready, fun point start loaded => ?_⟩
  have runs := compiled.runs_iff loaded
  refine ⟨runs.trans ⟨fun solves node member => ?_, fun some => ?_⟩, fun full run => ?_⟩
  · have live := Schedule.Realizes.live_of_mem_order member
    have computes := Expansion.computes_of_mem_order member
    unfold ExpandedNode.computes at computes
    split at computes
    · rename_i op params role
      obtain ⟨operands, -, computed⟩ := solves.compute node live op params role
      rw [← length_pos_iff, Operation.length_of_kernel computed, length_pos_iff]
      exact op.outputs_ne_nil
    · cases computes
  · refine (compiled.valuates_live point).solves fun node member op params role => some node ?_
    rw [Expansion.order_schedule]
    exact mem_filter.mpr ⟨member, by rw [ExpandedNode.computes, role]⟩
  · have reads := compiled.reads_of_run loaded run
    exact ⟨fun node member => compiled.ordered.buffers_of_reads (runs.mp ⟨full, run⟩) member
      fun index => reads _ (by rintro _ ⟨⟩), compiled.outputs_of_run loaded run⟩

theorem zerosApart_rampExpansion : rampExpansion.ZerosApart := by
  have signed : (-0 : Float) ≠ 2 := by decide
  refine Expansion.zerosApart_of_unsigned ?_ ?_ <;> simp [rampExpansion, signed]

/-- A machine with a sample for the field of two products. -/
def rampMachine (product total : Float32) : Machine Float32 where
  size := 1
  buffers := [[3], [Precision.narrow (2 : Float)], [product], [total]]

theorem holds_rampMachine (product total : Float32) :
    (rampMachine product total).Holds rampProgram 1 fun _ => [3] :=
  .of_all rfl rfl (forall_mem_singleton.mpr rfl) (forall_mem_singleton.mpr rfl)

/-- The run computes one product and has the sum of both in the buffer of the output. -/
theorem merging_preserves_values_ramp : ∃ full : Machine Float32,
      Machine.runSteps rampProgram rampProgram.allSteps (rampMachine 0 0) = (.ok (), full) ∧
        full.buffer 3 = [3 * Precision.narrow (2 : Float) + 3 * Precision.narrow (2 : Float)] ∧
        rampExpansion.evaluate (fun _ => 3) 5 = full.buffer 3 := by
  obtain ⟨program, compiled, values⟩ :=
    merging_preserves_values rampField 0 false expand_rampField zerosApart_rampExpansion
  obtain rfl := Except.ok.inj (compile_rampField.symm.trans compiled)
  have run : Machine.runSteps rampProgram rampProgram.allSteps (rampMachine 0 0) =
      (.ok (), rampMachine (3 * Precision.narrow (2 : Float))
        (3 * Precision.narrow (2 : Float) + 3 * Precision.narrow (2 : Float))) := by rfl
  obtain ⟨-, kept⟩ := values (fun _ => 3) (rampMachine 0 0) (holds_rampMachine 0 0)
  obtain ⟨-, outputs⟩ := kept _ run
  obtain _ | ⟨⟨-, value, evaluated, held⟩, -⟩ := outputs
  exact ⟨_, run, rfl, evaluated.trans held.symm⟩

end Library

end FieldGraph
