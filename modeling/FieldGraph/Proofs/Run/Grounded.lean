import FieldGraph.Proofs.Run.Load
import FieldGraph.Run.Plan

/-! # Steps that read only what was written

Steps are grounded if each of them reads only buffers that were filled before the run or written by
an earlier step. Grounded steps do the same on all machines that agree on what was filled, whatever
earlier runs left there. The steps of a full run are grounded, and so are the steps of every plan,
whichever intervals it was made from.
-/

namespace FieldGraph

open Arithmetic List

variable {R α : Type} {steps : List (Step α)} {before after : List (Instruction R)}

/-! ## Machines that agree -/

namespace Machine

/-- Two machines have buffers of the same number and size, with the same content at known
addresses. -/
structure Agree (first second : Machine α) (known : List Nat) : Prop where
  size_eq : first.size = second.size
  length_eq : first.buffers.length = second.buffers.length
  buffer_eq : ∀ addr ∈ known, first.buffer addr = second.buffer addr

variable {first second : Machine α} {known fewer : List Nat}

variable (agree : first.Agree second known)

include agree

theorem Agree.mono (subset : fewer ⊆ known) : first.Agree second fewer :=
  { agree with buffer_eq := fun addr mem => agree.buffer_eq addr (subset mem) }

theorem Agree.write (addr : Nat) (samples : List α) :
    (first.write addr samples).Agree (second.write addr samples) (addr :: known) where
  size_eq := agree.size_eq
  length_eq := by
    rw [(first.changesOnly_write addr samples).length_eq,
      (second.changesOnly_write addr samples).length_eq, agree.length_eq]
  buffer_eq other mem := by
    by_cases same : addr = other
    · subst same
      by_cases inside : addr < first.buffers.length
      · rw [first.buffer_write_self inside, second.buffer_write_self (agree.length_eq ▸ inside)]
      · -- There is no such buffer in either machine.
        have absent (mach : Machine α) (outside : ¬ addr < mach.buffers.length) :
            (mach.write addr samples).buffer addr = [] := by
          simp [buffer, Machine.write, outside]
        rw [absent first inside, absent second (agree.length_eq ▸ inside)]
    · rw [first.buffer_write_of_ne samples same, second.buffer_write_of_ne samples same]
      exact agree.buffer_eq other ((mem_cons.mp mem).resolve_left (Ne.symm same))

theorem Agree.writeAll (addresses : List Nat) (columns : List (List α)) :
    (first.writeAll addresses columns).Agree (second.writeAll addresses columns)
      (addresses.take columns.length ++ known) := by
  induction addresses generalizing first second known columns with
  | nil =>
    rw [take_nil]
    exact agree
  | cons addr rest ih =>
    cases columns with
    | nil => exact agree
    | cons column others =>
      refine (ih (agree.write addr column) others).mono fun place mem => ?_
      rw [length_cons, take_succ_cons, cons_append, mem_cons] at mem
      rw [mem_append, mem_cons]
      rcases mem with rfl | later
      · exact .inr (.inl rfl)
      · exact (mem_append.mp later).imp_right .inr

end Machine

/-! ## What steps read and write -/

namespace Step

/-- The buffers that a step reads. -/
def reads (prog : Program R) (step : Step α) : List Nat :=
  match prog.instructions[step.index]? with
  | none => []
  | some instr =>
    match step.mode with
    | .execute => instr.inputs
    | .copy source => [instr.inputs.getD source 0]
    | .constant _ => []

/-- The buffers that a step writes. -/
def writes (prog : Program R) (step : Step α) : List Nat :=
  match prog.instructions[step.index]? with
  | none => []
  | some instr =>
    match step.mode with
    | .execute => instr.outputs
    | .copy _ => instr.outputs.take 1
    | .constant values => instr.outputs.take values.length

end Step

namespace Program

/-- Each step reads what is known, or what an earlier one wrote. -/
def Grounded (prog : Program R) : List Nat → List (Step α) → Prop
  | _, [] => True
  | known, step :: rest => step.reads prog ⊆ known ∧ prog.Grounded (step.writes prog ++ known) rest

/-- The buffers that steps write. -/
def written (prog : Program R) (steps : List (Step α)) : List Nat := steps.flatMap (·.writes prog)

theorem Grounded.mono {prog : Program R} {known more : List Nat}
    (grounded : prog.Grounded known steps) (subset : known ⊆ more) : prog.Grounded more steps := by
  induction steps generalizing known more with
  | nil => exact grounded
  | cons step rest ih =>
    refine ⟨List.Subset.trans grounded.1 subset, ih grounded.2 ?_⟩
    exact append_subset.mpr ⟨subset_append_left _ _, subset_append_of_subset_right _ subset⟩

end Program

namespace Machine

variable [Arithmetic α] [Kernels R α] {prog : Program R} {first second : Machine α}
  {known : List Nat}

theorem Agree.runStep (agree : first.Agree second known) {step : Step α}
    (reads : step.reads prog ⊆ known) :
    (∃ fault, first.runStep prog step = .error fault ∧ second.runStep prog step = .error fault) ∨
      ∃ after other, first.runStep prog step = .ok after ∧ second.runStep prog step = .ok other ∧
        after.Agree other (step.writes prog ++ known) := by
  obtain ⟨index, mode⟩ := step
  unfold Machine.runStep Step.writes
  unfold Step.reads at reads
  cases found : prog.instructions[index]? with
  | none => exact .inr ⟨first, second, rfl, rfl, agree⟩
  | some instr =>
    rw [found] at reads
    cases mode with
    | execute =>
      have args : instr.inputs.map first.buffer = instr.inputs.map second.buffer :=
        map_congr_left fun addr read => agree.buffer_eq addr (reads read)
      dsimp only
      rw [runInstruction, runInstruction, args, agree.size_eq]
      cases (rows (instr.inputs.map second.buffer) second.size).mapM instr.apply with
      | error fault => exact .inl ⟨fault, rfl, rfl⟩
      | ok res =>
        refine .inr ⟨_, _, rfl, rfl, ?_⟩
        have written := agree.writeAll instr.outputs
          ((List.range instr.outputs.length).map (column res))
        rw [length_map, length_range, take_length] at written
        exact written
    | copy source =>
      have same := agree.buffer_eq _ (reads mem_cons_self)
      dsimp only
      rw [same]
      refine .inr ⟨_, _, rfl, rfl, ?_⟩
      have written := agree.writeAll (instr.outputs.take 1)
        [second.buffer (instr.inputs.getD source 0)]
      rw [take_take] at written
      exact written
    | constant values =>
      rw [agree.size_eq]
      refine .inr ⟨_, _, rfl, rfl, ?_⟩
      have written := agree.writeAll instr.outputs (values.map (List.replicate second.size))
      rw [length_map] at written
      exact written

/-- **Grounded steps do the same on machines that agree.** They fail at the same place
for the same reason, or the machines agree afterwards on all that was written. -/
theorem Agree.runSteps (agree : first.Agree second known) (grounded : prog.Grounded known steps) :
    (runSteps prog steps first).1 = (runSteps prog steps second).1 ∧
      ((runSteps prog steps first).1 = .ok () →
        (runSteps prog steps first).2.Agree (runSteps prog steps second).2
          (prog.written steps ++ known)) := by
  induction steps generalizing first second known with
  | nil => exact ⟨rfl, fun _ => agree⟩
  | cons step rest ih =>
    rw [Machine.runSteps, Machine.runSteps]
    rcases agree.runStep grounded.1 with
      ⟨fault, failed, failedToo⟩ | ⟨after, other, ran, ranToo, agreed⟩
    · rw [failed, failedToo]
      refine ⟨rfl, fun completed => ?_⟩
      cases completed
    · rw [ran, ranToo]
      obtain ⟨same, further⟩ := ih agreed grounded.2
      refine ⟨same, fun completed => (further completed).mono fun addr mem => ?_⟩
      rw [Program.written, flatMap_cons] at mem
      simp only [mem_append] at mem ⊢
      tauto

end Machine

namespace Program

variable {prog : Program R}

/-! ## Full runs -/

theorem grounded_range' (formed : prog.WellFormed) (split : prog.instructions = before ++ after) :
    prog.Grounded (prog.given ++ before.flatMap (·.outputs))
        ((List.range' before.length after.length).map fun index => (⟨index, .execute⟩ : Step α)) ∧
      after.flatMap (·.outputs) ⊆ prog.written
        ((List.range' before.length after.length).map fun index =>
          (⟨index, .execute⟩ : Step α)) := by
  induction after generalizing before with
  | nil => exact ⟨trivial, nil_subset _⟩
  | cons instr after ih =>
    have here : prog.instructions[before.length]? = some instr := by simp [split]
    have further : prog.instructions = (before ++ [instr]) ++ after := by simp [split]
    obtain ⟨grounded, covered⟩ := ih further
    rw [length_append] at grounded covered
    rw [length_cons, range'_succ, map_cons]
    have reads : Step.reads prog (⟨before.length, .execute⟩ : Step α) = instr.inputs := by
      rw [Step.reads, here]
    have writes : Step.writes prog (⟨before.length, .execute⟩ : Step α) =
        instr.outputs := by rw [Step.writes, here]
    refine ⟨⟨?_, grounded.mono fun addr mem => ?_⟩, ?_⟩
    · rw [reads]
      exact formed.reads_earlier before instr after split
    · rw [writes]
      simp only [flatMap_append, flatMap_singleton, mem_append] at mem ⊢
      tauto
    · rw [written, flatMap_cons, flatMap_cons, writes]
      exact append_subset.mpr ⟨subset_append_left _ _, subset_append_of_subset_right _ covered⟩

theorem grounded_allSteps (formed : prog.WellFormed) :
    prog.Grounded prog.given (prog.allSteps : List (Step α)) ∧
      prog.addresses ⊆ prog.written (prog.allSteps : List (Step α)) ++ prog.given := by
  obtain ⟨grounded, covered⟩ := grounded_range' (α := α) formed (nil_append prog.instructions).symm
  rw [flatMap_nil, append_nil, length_nil, ← range_eq_range'] at grounded
  rw [length_nil, ← range_eq_range'] at covered
  refine ⟨grounded, fun addr mem => ?_⟩
  rcases mem_append.mp mem with given | computed
  · exact mem_append_right _ given
  · exact mem_append_left _ (covered computed)

end Program

/-! ## Plans -/

namespace StepMode

/-- A copy is made of an operand and of the only result, and there is a number for every
result that is constant. -/
def Suited (instr : Instruction R) : StepMode α → Prop
  | .execute => True
  | .copy source => source < instr.inputs.length ∧ instr.outputs.length = 1
  | .constant values => values.length = instr.outputs.length

variable {instr : Instruction R} {mode : StepMode α} {prog : Program R} {index : Nat}

variable (suited : mode.Suited instr) (here : prog.instructions[index]? = some instr)

include suited here

theorem Suited.reads : Step.reads prog ⟨index, mode⟩ = Program.operandsOf instr mode := by
  rw [Step.reads, here]
  cases mode with
  | execute => rfl
  | constant values => rfl
  | copy source =>
    obtain ⟨inside, -⟩ := suited
    simp only [Program.operandsOf, getD_eq_getElem?_getD, getElem?_eq_getElem inside,
      Option.getD_some]
    rw [drop_eq_getElem_cons, take_succ_cons, take_zero]

theorem Suited.writes : Step.writes prog ⟨index, mode⟩ = instr.outputs := by
  rw [Step.writes, here]
  cases mode with
  | execute => rfl
  | copy source => exact take_of_length_le (Nat.le_of_eq suited.2)
  | constant values => exact take_of_length_le (Nat.le_of_eq suited.symm)

end StepMode

namespace Program

variable [Arithmetic R] [Arithmetic α] [Precision R α] [Kernels R α] {prog : Program R}
  {ranges : List (Interval R)} {known : Known α} {requested : List Nat}

theorem suited_of_stepMode {instr : Instruction R} {mode : StepMode α}
    (chosen : stepMode instr ranges known = .ok mode) : mode.Suited instr := by
  unfold stepMode at chosen
  split at chosen
  · rename_i values resultsKnown
    cases chosen
    exact (mapM_eq_some_iff.mp resultsKnown).length_eq.symm
  · obtain ⟨settled, computed, rest⟩ := bind_eq_ok_iff.mp chosen
    cases settled with
    | some values =>
      cases rest
      unfold settled? at computed
      split at computed
      · obtain ⟨res, -, agreed⟩ := bind_eq_ok_iff.mp computed
        have each := mapM_eq_some_iff.mp (Except.ok.inj agreed)
        rw [StepMode.Suited, ← each.length_eq, length_range]
      · cases computed
    | none =>
      dsimp only at rest
      split at rest
      · rename_i place copied
        cases rest
        unfold copied? at copied
        split at copied
        · rename_i one
          unfold Operation.passthrough? at copied
          have inside : place < (rangesAt ranges instr.inputs).length := by
            split at copied <;> grind
          rw [rangesAt, length_map] at inside
          exact ⟨inside, one⟩
        · cases copied
      · cases rest
        trivial

/-- What holds of the steps found so far when the first instructions are still to be
looked at: they need nothing of those instructions but needed buffers, and fill the
requested ones. -/
def Suffices (prog : Program R) (before : List (Instruction R)) (requested needed : List Nat)
    (steps : List (Step α)) : Prop :=
  ∀ known, (∀ addr ∈ needed, addr ∈ prog.given ++ before.flatMap (·.outputs) → addr ∈ known) →
    prog.Grounded known steps ∧ ∀ addr ∈ requested, addr ∈ prog.addresses →
        addr ∈ prog.written steps ++ known

theorem suffices_planBackward (formed : prog.WellFormed)
    (split : prog.instructions = before ++ after) {needed : List Nat} {all : List (Step α)}
    (enough : prog.Suffices before requested needed steps)
    (planned : planBackward ranges known before.zipIdx.reverse needed steps = .ok all) : ∃ last,
    prog.Suffices [] requested last all := by
  induction before using List.reverseRecOn generalizing after needed steps with
  | nil =>
    cases planned
    exact ⟨needed, enough⟩
  | append_singleton before last ih =>
    rw [append_assoc] at split
    have here : prog.instructions[before.length]? = some last := by simp [split]
    rw [zipIdx_append, reverse_append, zipIdx_singleton, reverse_singleton,
      singleton_append, planBackward, Nat.zero_add] at planned
    by_cases isNeeded : last.outputs.any needed.contains = true
    · rw [if_pos isNeeded] at planned
      obtain ⟨mode, chosen, earlier⟩ := bind_eq_ok_iff.mp planned
      have suited := suited_of_stepMode chosen
      refine ih split (fun available supplied => ?_) earlier
      -- The results of the instruction are available after its step.
      obtain ⟨grounded, covered⟩ := enough (last.outputs ++ available) fun addr inNeeded => by
        rw [flatMap_append, flatMap_singleton, ← append_assoc, mem_append]
        rintro (early | own)
        · exact mem_append_right _ (supplied addr (mem_append_right _ inNeeded) early)
        · exact mem_append_left _ own
      refine ⟨⟨?_, ?_⟩, fun addr asked isAddress => ?_⟩
      · rw [suited.reads here]
        intro addr operand
        refine supplied addr (mem_append_left _ operand) ?_
        refine formed.reads_earlier before last after split addr ?_
        cases mode with
        | execute => exact operand
        | copy source => exact mem_of_mem_drop (mem_of_mem_take operand)
        | constant values => cases operand
      · rw [suited.writes here]
        exact grounded
      · have found := covered addr asked isAddress
        rw [written, flatMap_cons, suited.writes here]
        simp only [mem_append] at found ⊢
        tauto
    · rw [if_neg isNeeded] at planned
      refine ih split (fun available supplied => ?_) planned
      refine enough available fun addr inNeeded => ?_
      rw [flatMap_append, flatMap_singleton, ← append_assoc, mem_append]
      rintro (early | own)
      · exact supplied addr inNeeded early
      · refine (isNeeded ?_).elim
        exact any_eq_true.mpr ⟨addr, own, contains_iff_mem.mpr inNeeded⟩

/-- **Plans are grounded.** Whatever the intervals are, a plan reads nothing but what is
given and what it wrote itself, and it fills the requested buffers. -/
theorem grounded_plan (formed : prog.WellFormed)
    (planned : prog.plan ranges requested = .ok steps) :
    prog.Grounded prog.given steps ∧ ∀ addr ∈ requested, addr ∈ prog.addresses →
        addr ∈ prog.written steps ++ prog.given := by
  obtain ⟨known, -, found⟩ := bind_eq_ok_iff.mp planned
  have nothing : prog.Suffices prog.instructions requested requested
      ([] : List (Step α)) := fun available supplied =>
    ⟨trivial, fun addr asked isAddress => supplied addr asked isAddress⟩
  obtain ⟨last, enough⟩ := suffices_planBackward formed (append_nil _).symm nothing found
  exact enough prog.given fun addr _ isGiven => by simpa using isGiven

end Program

end FieldGraph
