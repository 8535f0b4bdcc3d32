import FieldGraph.Proofs.Run.Load
import FieldGraph.Run.Plan

/-! # Plans replay runs

A plan leaves out instructions, and replaces others by copies and constants. If what it concludes
from the intervals is true of a full run, then running the plan gives the requested buffers the
content that the full run gives them.

The argument follows the walk that finds the plan, from the last instruction to the first: every
needed buffer that the earlier instructions have written has the content it has after the full run.
-/

namespace FieldGraph

open Arithmetic List Machine

variable {R α : Type}

variable [Arithmetic R] [Arithmetic α] [Precision R α] [Kernels R α]

/-- What a plan concludes from intervals is true of the buffers after a full run. -/
structure Program.Honest (prog : Program R) (ranges : List (Interval R)) (full : Machine α) :
    Prop where
  /-- An input whose interval is a single number holds that number. -/
  inputs : ∀ axis addr, (axis, addr) ∈ prog.inputs → (ranges.getD addr .whole).isSingle = true →
      full.buffer addr = List.replicate full.size (Precision.narrow (ranges.getD addr .whole).lower)
  /-- A result that is said to equal an operand equals it. -/
  passthrough : ∀ instr ∈ prog.instructions, ∀ place result,
    instr.operation.passthrough? instr.params (Program.rangesAt ranges instr.inputs) = some place →
    instr.outputs = [result] → ∃ operand, instr.inputs[place]? = some operand ∧
        full.buffer result = full.buffer operand
  /-- Results with single numbers for intervals are the numbers found at the corners. -/
  saturated : ∀ known, Known.ofProgram prog ranges = .ok known →
    ∀ instr ∈ prog.instructions, ∀ values,
      (Program.rangesAt ranges instr.outputs).all Interval.isSingle = true →
      Program.saturated? instr ranges known = .ok (some values) →
        Forall₂ (fun addr value => full.buffer addr = List.replicate full.size value)
          instr.outputs values

omit [Arithmetic α] in
theorem length_of_mem_choices {lists : List (List α)} {choice : List α}
    (mem : choice ∈ choices lists) : choice.length = lists.length := by
  induction lists generalizing choice with
  | nil =>
    rw [mem_singleton.mp mem]
    rfl
  | cons first rest ih =>
    obtain ⟨item, -, later⟩ := mem_flatMap.mp mem
    obtain ⟨others, chosen, rfl⟩ := mem_map.mp later
    rw [length_cons, ih chosen, length_cons]

/-! ## Known numbers -/

namespace Known

/-- Known numbers are what the buffers hold for every sample. -/
def Holds (known : Known α) (mach : Machine α) : Prop :=
  ∀ addr value, known.get? addr = some value → mach.buffer addr = List.replicate mach.size value

variable {prog : Program R} {ranges : List (Interval R)} {known : Known α} {full : Machine α}

omit [Arithmetic α] in
theorem Holds.insert (holds : known.Holds full) {addr : Nat} {value : α}
    (right : full.buffer addr = List.replicate full.size value) :
    Holds (Table.insert known addr value) full := by
  intro other number found
  by_cases same : other = addr
  · subst same
    rw [Table.get?_insert_self] at found
    exact Option.some.inj found ▸ right
  · rw [Table.get?_insert_of_ne _ _ same] at found
    exact holds other number found

theorem holds_initial {start : Machine α} {size : Nat} {samples : Coordinate → List α}
    (loaded : start.Holds prog size samples)
    (changes : start.ChangesOnly full (prog.instructions.flatMap (·.outputs)))
    (formed : prog.WellFormed) (honest : prog.Honest ranges full) :
    (initial prog ranges : Known α).Holds full := by
  refine List.foldlRecOn _ _ (motive := fun known : Known α => known.Holds full) ?_ ?_
  · refine List.foldlRecOn _ _ (motive := fun known : Known α => known.Holds full) ?_ ?_
    · intro addr value found
      simp [Table.get?] at found
    · rintro known holds ⟨addr, value⟩ mem
      refine holds.insert ?_
      have given : addr ∈ prog.given := mem_append_right _ (mem_map.mpr ⟨_, mem, rfl⟩)
      have unwritten := (nodup_append'.mp formed.addresses_nodup).2.2 given
      rw [changes.buffer_eq addr unwritten, changes.size_eq, loaded.size_eq]
      exact loaded.constants addr value mem
  · rintro known holds ⟨axis, addr⟩ mem
    dsimp only
    split
    · exact holds.insert (honest.inputs axis addr mem ‹_›)
    · exact holds

omit [Arithmetic R] [Precision R α] in
theorem Holds.step (holds : known.Holds full) {instr : Instruction R}
    (satisfied : full.Satisfies instr) (pos : 0 < full.size) :
    ∃ next, Known.step known instr = .ok next ∧ Known.Holds next full := by
  unfold Known.step
  cases operandsKnown : instr.inputs.mapM known.get? with
  | none => exact ⟨known, rfl, holds⟩
  | some args =>
    have each := mapM_eq_some_iff.mp operandsKnown
    obtain ⟨res, computed⟩ := satisfied.apply_ok pos each.length_eq.symm
    have constant := each.imp fun addr value found => holds addr value found
    simp only [computed]
    refine ⟨_, rfl, ?_⟩
    refine List.foldlRecOn _ _ (motive := fun known : Known α => known.Holds full) holds ?_
    rintro known holds ⟨addr, value⟩ mem
    refine holds.insert ?_
    obtain ⟨place, inside, here⟩ := mem_iff_getElem.mp mem
    rw [length_zip] at inside
    rw [getElem_zip, Prod.mk.injEq] at here
    have result : instr.outputs[place]? = some addr :=
      List.getElem?_eq_some_iff.mpr ⟨by omega, here.1⟩
    have number : res[place]? = some value := List.getElem?_eq_some_iff.mpr ⟨by omega, here.2⟩
    rw [satisfied.buffer_eq_replicate constant computed result, getD_eq_getElem?_getD, number]
    rfl

omit [Arithmetic R] [Precision R α] in
theorem Holds.foldlM_step (holds : known.Holds full) {instructions : List (Instruction R)}
    (satisfied : ∀ instr ∈ instructions, full.Satisfies instr) (pos : 0 < full.size) : ∃ last,
    instructions.foldlM Known.step known = .ok last ∧ Known.Holds last full := by
  induction instructions generalizing known with
  | nil => exact ⟨known, rfl, holds⟩
  | cons instr rest ih =>
    obtain ⟨next, stepped, after⟩ := holds.step (satisfied _ mem_cons_self) pos
    obtain ⟨last, found, good⟩ := ih after fun other mem => satisfied other (mem_cons_of_mem _ mem)
    refine ⟨last, ?_, good⟩
    rw [foldlM_cons, stepped]
    exact found

end Known

/-! ## Steps -/

/-- A step gives the results of an instruction the content they have after a run. -/
def StepMode.Justified (full : Machine α) (instr : Instruction R) : StepMode α → Prop
  | .execute => True
  | .copy source => ∃ result operand, instr.outputs = [result] ∧
      instr.inputs[source]? = some operand ∧ full.buffer result = full.buffer operand
  | .constant values => Forall₂ (fun addr value =>
    full.buffer addr = List.replicate full.size value) instr.outputs values

/-- A step of a program gives the results of its instruction the content they have after
a run. -/
def Step.Right (prog : Program R) (full : Machine α) (step : Step α) : Prop :=
  ∀ instr, prog.instructions[step.index]? = some instr → step.mode.Justified full instr

namespace Program

variable {prog : Program R} {ranges : List (Interval R)} {known : Known α} {full : Machine α}
  {instr : Instruction R}

theorem saturated?_ok (ranges : List (Interval R)) (known : Known α)
    (satisfied : full.Satisfies instr) (pos : 0 < full.size) :
    ∃ settled, saturated? instr ranges known = .ok settled := by
  have each : ∀ args ∈ choices (instr.inputs.map (known.corners ranges)),
      ∃ res, instr.apply args = .ok res := fun args chosen =>
    satisfied.apply_ok pos (by rw [length_of_mem_choices chosen, length_map])
  obtain ⟨res, computed⟩ := exists_mapM_ok each
  exact ⟨_, bind_eq_ok_iff.mpr ⟨res, computed, rfl⟩⟩

variable (honest : prog.Honest ranges full)

include honest

theorem settled?_ok (found : Known.ofProgram prog ranges = .ok known)
    (mem : instr ∈ prog.instructions) (satisfied : full.Satisfies instr) (pos : 0 < full.size) :
    ∃ settled, settled? instr ranges known = .ok settled ∧ ∀ values,
      settled = some values → (StepMode.constant values).Justified full instr := by
  unfold settled?
  by_cases single : (rangesAt ranges instr.outputs).all Interval.isSingle = true
  · obtain ⟨settled, computed⟩ := saturated?_ok ranges known satisfied pos
    rw [if_pos single]
    refine ⟨settled, computed, fun values isSettled => ?_⟩
    rw [isSettled] at computed
    exact honest.saturated known found instr mem values single computed
  · rw [if_neg single]
    exact ⟨none, rfl, fun values impossible => by cases impossible⟩

theorem copied?_justified (mem : instr ∈ prog.instructions) {place : Nat}
    (copied : copied? instr ranges = some place) : (StepMode.copy place).Justified full instr := by
  unfold copied? at copied
  split at copied
  · rename_i one
    obtain ⟨result, only⟩ := length_eq_one_iff.mp one
    obtain ⟨operand, here, same⟩ := honest.passthrough instr mem place result copied only
    exact ⟨result, operand, only, here, same⟩
  · cases copied

theorem stepMode_ok (found : Known.ofProgram prog ranges = .ok known) (holds : known.Holds full)
    (mem : instr ∈ prog.instructions) (satisfied : full.Satisfies instr) (pos : 0 < full.size) :
    ∃ mode, stepMode instr ranges known = .ok mode ∧ mode.Justified full instr := by
  unfold stepMode
  cases resultsKnown : instr.outputs.mapM known.get? with
  | some values =>
    refine ⟨.constant values, rfl, ?_⟩
    exact (mapM_eq_some_iff.mp resultsKnown).imp fun addr value => holds addr value
  | none =>
    obtain ⟨settled, computed, right⟩ := settled?_ok honest found mem satisfied pos
    cases settled with
    | some values => exact ⟨_, bind_eq_ok_iff.mpr ⟨_, computed, rfl⟩, right values rfl⟩
    | none =>
      cases copied : copied? instr ranges with
      | none => exact ⟨_, bind_eq_ok_iff.mpr ⟨_, computed, rfl⟩, trivial⟩
      | some place =>
        exact ⟨_, bind_eq_ok_iff.mpr ⟨_, computed, rfl⟩, copied?_justified honest mem copied⟩

end Program

namespace Machine

variable {prog : Program R} {full : Machine α} {instr : Instruction R}

omit [Arithmetic R] [Precision R α] in
/-- A justified step whose operands are those of the full run gives the results of the
full run. -/
theorem runStep_justified (mach : Machine α) {index : Nat}
    (here : prog.instructions[index]? = some instr)
    (satisfied : full.Satisfies instr) (nodup : instr.outputs.Nodup)
    (inside : ∀ addr ∈ instr.outputs, addr < mach.buffers.length)
    (size : mach.size = full.size) {mode : StepMode α} (justified : mode.Justified full instr)
    (args : ∀ addr ∈ Program.operandsOf instr mode, mach.buffer addr = full.buffer addr) :
    ∃ after, mach.runStep prog ⟨index, mode⟩ = .ok after ∧ mach.ChangesOnly after instr.outputs ∧
      ∀ addr ∈ instr.outputs, after.buffer addr = full.buffer addr := by
  unfold runStep
  rw [here]
  cases mode with
  | execute =>
    obtain ⟨res, computed, stored⟩ := satisfied
    have same : instr.inputs.map mach.buffer = instr.inputs.map full.buffer := map_congr_left args
    rw [← same, ← size] at computed
    refine ⟨_, bind_eq_ok_iff.mpr ⟨res, computed, rfl⟩,
      mach.changesOnly_writeAll _ _, fun addr written => ?_⟩
    obtain ⟨place, bounded, rfl⟩ := mem_iff_getElem.mp written
    have found := getElem?_eq_getElem bounded
    rw [stored place _ found]
    refine mach.buffer_writeAll nodup inside found ?_
    rw [getElem?_map, getElem?_range bounded]
    rfl
  | copy source =>
    obtain ⟨result, operand, only, found, same⟩ := justified
    have needed : operand ∈ (instr.inputs.drop source).take 1 := by
      refine mem_of_getElem? (i := 0) ?_
      simpa [getElem?_take, getElem?_drop] using found
    have read : instr.inputs.getD source 0 = operand := by
      rw [getD_eq_getElem?_getD, found]
      rfl
    refine ⟨_, rfl, ?_, fun addr written => ?_⟩
    · exact (mach.changesOnly_writeAll _ _).mono (take_subset _ _)
    · rw [only] at nodup inside written ⊢
      rw [mem_singleton.mp written, same, read, ← args operand needed]
      exact mach.buffer_writeAll nodup inside (getElem?_cons_zero) (getElem?_cons_zero)
  | constant values =>
    refine ⟨_, rfl, mach.changesOnly_writeAll _ _, fun addr written => ?_⟩
    obtain ⟨place, bounded, rfl⟩ := mem_iff_getElem.mp written
    obtain ⟨length, each⟩ := forall₂_iff_get.mp justified
    have number : values[place]? = some (values.get ⟨place, length ▸ bounded⟩) :=
      getElem?_eq_getElem _
    have content := each place bounded (length ▸ bounded)
    rw [get_eq_getElem] at content
    rw [content, ← size]
    refine mach.buffer_writeAll nodup inside (getElem?_eq_getElem bounded) ?_
    rw [getElem?_map, number]
    rfl

end Machine

/-! ## Plans -/

namespace Program

variable {prog : Program R} {ranges : List (Interval R)} {known : Known α}
  {full other : Machine α} {steps : List (Step α)}

theorem planBackward_right (honest : prog.Honest ranges full)
    (found : Known.ofProgram prog ranges = .ok known) (holds : known.Holds full)
    (pos : 0 < full.size) (satisfied : ∀ instr ∈ prog.instructions, full.Satisfies instr)
    {rest : List (Instruction R × Nat)}
    (listed : ∀ entry ∈ rest, prog.instructions[entry.2]? = some entry.1) (needed : List Nat)
    (right : ∀ step ∈ steps, step.Right prog full) :
    ∃ all, planBackward ranges known rest needed steps = .ok all ∧
      ∀ step ∈ all, step.Right prog full := by
  induction rest generalizing needed steps with
  | nil => exact ⟨steps, rfl, right⟩
  | cons entry rest ih =>
    obtain ⟨instr, index⟩ := entry
    have here := listed (instr, index) mem_cons_self
    have others : ∀ entry ∈ rest, prog.instructions[entry.2]? = some entry.1 :=
      fun entry mem => listed entry (mem_cons_of_mem _ mem)
    rw [planBackward]
    split
    · have mem := mem_of_getElem? here
      obtain ⟨mode, chosen, justified⟩ :=
        stepMode_ok honest found holds mem (satisfied instr mem) pos
      have step : Step.Right prog full ⟨index, mode⟩ := by
        intro other there
        cases here.symm.trans there
        exact justified
      obtain ⟨all, planned, allRight⟩ :=
        ih others (operandsOf instr mode ++ needed) (forall_mem_cons.mpr ⟨step, right⟩)
      exact ⟨all, bind_eq_ok_iff.mpr ⟨mode, chosen, planned⟩, allRight⟩
    · exact ih others needed right

/-- The steps found for the first instructions give every needed buffer that those write
the content it has after the full run, if they are right. -/
theorem planBackward_replays (formed : prog.WellFormed)
    (satisfied : ∀ instr ∈ prog.instructions, full.Satisfies instr)
    (size : other.size = full.size) (length : other.buffers.length = prog.bufferCount)
    (given : ∀ addr ∈ prog.given, other.buffer addr = full.buffer addr)
    {before after : List (Instruction R)} (split : prog.instructions = before ++ after)
    {needed : List Nat} {all : List (Step α)}
    (planned : planBackward ranges known before.zipIdx.reverse needed steps = .ok all)
    (right : ∀ step ∈ all, step.Right prog full) :
    ∃ front reached, all = front ++ steps ∧ Machine.runSteps prog front other = (.ok (), reached) ∧
      other.ChangesOnly reached (before.flatMap (·.outputs)) ∧
      ∀ addr ∈ needed, addr ∈ prog.given ++ before.flatMap (·.outputs) →
        reached.buffer addr = full.buffer addr := by
  induction before using List.reverseRecOn generalizing after needed steps with
  | nil =>
    cases planned
    refine ⟨[], other, rfl, rfl, .refl other, fun addr _ isGiven => ?_⟩
    exact given addr (by simpa using isGiven)
  | append_singleton before last ih =>
    rw [append_assoc] at split
    have mem : last ∈ prog.instructions := by simp [split]
    have here : prog.instructions[before.length]? = some last := by simp [split]
    rw [zipIdx_append, reverse_append, zipIdx_singleton, reverse_singleton,
      singleton_append, planBackward, Nat.zero_add] at planned
    rw [flatMap_append, flatMap_singleton]
    by_cases isNeeded : last.outputs.any needed.contains = true
    · rw [if_pos isNeeded] at planned
      obtain ⟨mode, -, earlier⟩ := bind_eq_ok_iff.mp planned
      obtain ⟨front, reached, rfl, run, changes, agrees⟩ := ih split earlier
      have justified : mode.Justified full last :=
        right ⟨before.length, mode⟩ (mem_append_right _ mem_cons_self) last here
      -- The operands are needed, and written by earlier instructions.
      have args : ∀ addr ∈ operandsOf last mode, reached.buffer addr = full.buffer addr := by
        intro addr isOperand
        refine agrees addr (mem_append_left _ isOperand) ?_
        refine formed.reads_earlier before last after split addr ?_
        cases mode with
        | execute => exact isOperand
        | copy source => exact mem_of_mem_drop (mem_of_mem_take isOperand)
        | constant values => cases isOperand
      obtain ⟨own, apart⟩ := formed.outputs_separate split
      obtain ⟨next, ran, written, res⟩ := runStep_justified reached here
        (satisfied last mem) own
        (fun addr output => by
          rw [changes.length_eq, length]
          exact formed.outputs_inside_buffers mem output)
        (changes.size_eq.trans size) justified args
      refine ⟨front ++ [⟨before.length, mode⟩], next, ?_, ?_, changes.trans written, ?_⟩
      · rw [append_assoc, singleton_append]
      · exact runSteps_append_ok.mpr ⟨reached, run, runSteps_singleton_ok.mpr ran⟩
      · intro addr inNeeded available
        by_cases isResult : addr ∈ last.outputs
        · exact res addr isResult
        · rw [written.buffer_eq addr isResult]
          refine agrees addr (mem_append_right _ inNeeded) ?_
          rw [← append_assoc] at available
          exact (mem_append.mp available).resolve_right isResult
    · rw [if_neg isNeeded] at planned
      obtain ⟨front, reached, same, run, changes, agrees⟩ := ih split planned
      refine ⟨front, reached, same, run, changes.mono (subset_append_left _ _), ?_⟩
      intro addr inNeeded available
      refine agrees addr inNeeded ?_
      rw [← append_assoc] at available
      refine (mem_append.mp available).resolve_right fun isResult => isNeeded ?_
      exact any_eq_true.mpr ⟨addr, isResult, contains_iff_mem.mpr inNeeded⟩

variable {size : Nat} {samples : Coordinate → List α} {start : Machine α} {needed : List Nat}

/-- **Honest intervals give right plans.** -/
theorem plan_right (formed : prog.WellFormed) (pos : 0 < size)
    (loaded : start.Holds prog size samples)
    (run : Machine.runSteps prog prog.allSteps start = (.ok (), full))
    (honest : prog.Honest ranges full) (needed : List Nat) :
    ∃ steps, prog.plan ranges needed = .ok steps ∧ ∀ step ∈ steps, step.Right prog full := by
  obtain ⟨changes, satisfied⟩ := runSteps_allSteps formed loaded.length_eq run
  have enough : 0 < full.size := by
    rw [changes.size_eq, loaded.size_eq]
    exact pos
  obtain ⟨known, found, holds⟩ :=
    (Known.holds_initial loaded changes formed honest).foldlM_step satisfied enough
  have listed : ∀ entry ∈ prog.instructions.zipIdx.reverse,
      prog.instructions[entry.2]? = some entry.1 := fun entry mem =>
    mem_zipIdx_iff_getElem?.mp (mem_reverse.mp mem)
  have none : ∀ step ∈ ([] : List (Step α)), step.Right prog full := by simp
  obtain ⟨steps, planned, right⟩ :=
    planBackward_right honest found holds enough satisfied listed needed none
  exact ⟨steps, bind_eq_ok_iff.mpr ⟨known, found, planned⟩, right⟩

/-- **Right plans replay runs.** If the steps of a plan are right about a full run of a
well-formed program, running them on any machine that holds the same inputs gives the
requested buffers the content that the full run gives them. -/
theorem plan_replays (formed : prog.WellFormed) (loaded : start.Holds prog size samples)
    (reloaded : other.Holds prog size samples)
    (run : Machine.runSteps prog prog.allSteps start = (.ok (), full))
    (planned : prog.plan ranges needed = .ok steps) (right : ∀ step ∈ steps, step.Right prog full) :
    ∃ reached, Machine.runSteps prog steps other = (.ok (), reached) ∧
      other.ChangesOnly reached (prog.instructions.flatMap (·.outputs)) ∧
      ∀ addr ∈ needed, reached.buffer addr = full.buffer addr := by
  obtain ⟨changes, satisfied⟩ := runSteps_allSteps formed loaded.length_eq run
  have samplesEq : full.size = size := changes.size_eq.trans loaded.size_eq
  have given : ∀ addr ∈ prog.given, other.buffer addr = full.buffer addr := by
    intro addr isGiven
    have unwritten := (nodup_append'.mp formed.addresses_nodup).2.2 isGiven
    rw [changes.buffer_eq addr unwritten]
    exact reloaded.buffer_eq loaded isGiven
  obtain ⟨known, -, found⟩ := bind_eq_ok_iff.mp planned
  obtain ⟨front, reached, rfl, replay, rewritten, agrees⟩ :=
    planBackward_replays formed satisfied (reloaded.size_eq.trans samplesEq.symm)
      reloaded.length_eq given (append_nil _).symm found right
  rw [append_nil]
  refine ⟨reached, replay, rewritten, fun addr inNeeded => ?_⟩
  by_cases inside : addr < prog.bufferCount
  · exact agrees addr inNeeded (formed.mem_addresses.mpr inside)
  · -- There is no such buffer in either machine.
    have absent (mach : Machine α) (count : mach.buffers.length = prog.bufferCount) :
        mach.buffer addr = [] := by
      rw [Machine.buffer, getD_eq_getElem?_getD, getElem?_eq_none (by omega)]
      rfl
    rw [absent reached (rewritten.length_eq.trans reloaded.length_eq),
      absent full (changes.length_eq.trans loaded.length_eq)]

end Program

end FieldGraph
