import FieldGraph.Proofs.Results
import FieldGraph.Run.Machine
import Mathlib.Data.List.Induction
import Mathlib.Data.List.Nodup
import Mathlib.Data.List.Perm.Basic
import Mathlib.Tactic.Tauto

/-! # Runs of well-formed programs

In a well-formed program every buffer is written once, before any instruction reads it.
A full run therefore ends with buffers that satisfy every instruction at once: the
results of an instruction are what it computes from the buffers as they are at the end.
Arguments about runs need the end of a run only.
-/

namespace FieldGraph

open Arithmetic List

variable {R α : Type} {columns : List (List α)}

namespace Program

variable {addr : Nat} {instr : Instruction R}

/-- The buffers that are filled before a run. -/
def given (prog : Program R) : List Nat := prog.inputs.map (·.2) ++ prog.constants.map (·.1)

/-- All buffers, in the order in which they are written. -/
def addresses (prog : Program R) : List Nat := prog.given ++ prog.instructions.flatMap (·.outputs)

/-- Every buffer is written once, and before it is read. -/
structure WellFormed (prog : Program R) : Prop where
  /-- The buffers are those below the number of buffers, each written once. -/
  addresses_perm : prog.addresses.Perm (List.range prog.bufferCount)
  /-- An instruction reads what is given or what an earlier instruction wrote. -/
  reads_earlier : ∀ before instr after, prog.instructions = before ++ instr :: after →
      ∀ addr ∈ instr.inputs, addr ∈ prog.given ++ before.flatMap (·.outputs)
  /-- Every coordinate has one buffer. -/
  inputs_nodup : (prog.inputs.map (·.1)).Nodup
  /-- The results are in buffers. -/
  outputs_inside : ∀ output ∈ prog.outputs, output.address < prog.bufferCount
  /-- The values of ports are in buffers. -/
  ports_inside : ∀ entry ∈ prog.ports, entry.2 < prog.bufferCount

variable {prog : Program R}

variable (formed : prog.WellFormed)

include formed

theorem WellFormed.addresses_nodup : prog.addresses.Nodup :=
  formed.addresses_perm.nodup_iff.mpr nodup_range

theorem WellFormed.mem_addresses : addr ∈ prog.addresses ↔ addr < prog.bufferCount := by
  rw [formed.addresses_perm.mem_iff, mem_range]

theorem WellFormed.outputs_separate {before after : List (Instruction R)}
    (split : prog.instructions = before ++ instr :: after) :
    instr.outputs.Nodup ∧ ∀ addr ∈ instr.outputs, addr ∉ prog.given ++ before.flatMap (·.outputs) ∧
        addr ∉ after.flatMap (·.outputs) := by
  have nodup := formed.addresses_nodup
  rw [addresses, split, flatMap_append, ← append_assoc] at nodup
  obtain ⟨_, rest, apart⟩ := nodup_append'.mp nodup
  obtain ⟨own, _, later⟩ := nodup_append'.mp rest
  refine ⟨own, fun addr written => ⟨fun earlier => ?_, fun again => later written again⟩⟩
  exact apart earlier (mem_append_left _ written)

theorem WellFormed.outputs_inside_buffers (mem : instr ∈ prog.instructions)
    (written : addr ∈ instr.outputs) : addr < prog.bufferCount := by
  refine formed.mem_addresses.mp (mem_append_right _ ?_)
  exact mem_flatMap.mpr ⟨instr, mem, written⟩

end Program

namespace Machine

variable {addr : Nat}

/-! ## Writing buffers -/

theorem buffer_write_self (mach : Machine α) (inside : addr < mach.buffers.length)
    (samples : List α) : (mach.write addr samples).buffer addr = samples := by
  simp [buffer, write, inside]

theorem buffer_write_of_ne (mach : Machine α) {other : Nat} (samples : List α)
    (different : addr ≠ other) : (mach.write addr samples).buffer other = mach.buffer other := by
  simp [buffer, write, getElem?_set_ne different]

/-- After a computation only some buffers have changed. -/
structure ChangesOnly (before after : Machine α) (written : List Nat) : Prop where
  /-- The number of samples is the same. -/
  size_eq : after.size = before.size
  /-- The number of buffers is the same. -/
  length_eq : after.buffers.length = before.buffers.length
  /-- Other buffers are the same. -/
  buffer_eq : ∀ addr, addr ∉ written → after.buffer addr = before.buffer addr

theorem ChangesOnly.refl (mach : Machine α) : mach.ChangesOnly mach [] := ⟨rfl, rfl, fun _ _ => rfl⟩

theorem ChangesOnly.trans {first second third : Machine α} {early late : List Nat}
    (before : first.ChangesOnly second early) (after : second.ChangesOnly third late) :
    first.ChangesOnly third (early ++ late) where
  size_eq := after.size_eq.trans before.size_eq
  length_eq := after.length_eq.trans before.length_eq
  buffer_eq addr untouched := by
    rw [mem_append, not_or] at untouched
    exact (after.buffer_eq addr untouched.2).trans (before.buffer_eq addr untouched.1)

theorem ChangesOnly.mono {before after : Machine α} {written more : List Nat}
    (changes : before.ChangesOnly after written) (subset : written ⊆ more) :
    before.ChangesOnly after more :=
  { changes with buffer_eq := fun addr untouched =>
      changes.buffer_eq addr fun mem => untouched (subset mem) }

variable (mach : Machine α)

theorem changesOnly_write (addr : Nat) (samples : List α) :
    mach.ChangesOnly (mach.write addr samples) [addr] where
  size_eq := rfl
  length_eq := by simp [write]
  buffer_eq other untouched :=
    mach.buffer_write_of_ne samples fun same => untouched (mem_singleton.mpr same.symm)

theorem changesOnly_writeAll (addresses : List Nat) (columns : List (List α)) :
    mach.ChangesOnly (mach.writeAll addresses columns) addresses := by
  induction addresses generalizing mach columns with
  | nil => exact .refl mach
  | cons addr rest ih =>
    cases columns with
    | nil => exact (ChangesOnly.refl mach).mono (nil_subset _)
    | cons column others => exact (mach.changesOnly_write addr column).trans (ih _ others)

theorem serial_writeAll (addresses : List Nat) (columns : List (List α)) :
    (mach.writeAll addresses columns).serial = mach.serial := by
  unfold writeAll
  induction addresses.zip columns generalizing mach with
  | nil => rfl
  | cons entry rest ih => exact ih _

theorem buffer_writeAll {addresses : List Nat} (nodup : addresses.Nodup)
    (inside : ∀ addr ∈ addresses, addr < mach.buffers.length) {place : Nat} {samples : List α}
    (here : addresses[place]? = some addr) (written : columns[place]? = some samples) :
    (mach.writeAll addresses columns).buffer addr = samples := by
  induction addresses generalizing mach columns place with
  | nil => simp at here
  | cons first rest ih =>
    obtain ⟨new, nodup⟩ := nodup_cons.mp nodup
    cases columns with
    | nil => simp at written
    | cons column others =>
      change ((mach.write first column).writeAll rest others).buffer addr = samples
      cases place with
      | zero =>
        obtain rfl := Option.some.inj here
        obtain rfl := Option.some.inj written
        have kept := ((mach.write first column).changesOnly_writeAll rest others).buffer_eq
        rw [kept first new]
        exact mach.buffer_write_self (inside first mem_cons_self) column
      | succ place =>
        refine ih _ nodup (fun other mem => ?_) here written
        rw [(mach.changesOnly_write first column).length_eq]
        exact inside other (mem_cons_of_mem _ mem)

end Machine

/-! ## Samples -/

section Rows

variable [Arithmetic α]

theorem rows_replicate (values : List α) (count : Nat) :
    rows (values.map (List.replicate count)) count = List.replicate count values := by
  induction count with
  | zero => rfl
  | succ count ih =>
    rw [rows, map_map, map_map, replicate_succ]
    have heads : values.map ((·.headD zero) ∘ List.replicate (count + 1)) = values := by
      conv_rhs => rw [← map_id values]
      exact map_congr_left fun _ _ => rfl
    have tails : values.map (List.tail ∘ List.replicate (count + 1)) =
        values.map (List.replicate count) := map_congr_left fun _ _ => rfl
    rw [heads, tails, ih]

theorem length_of_mem_rows {count : Nat} {row : List α} (mem : row ∈ rows columns count) :
    row.length = columns.length := by
  induction count generalizing columns with
  | zero => simp [rows] at mem
  | succ count ih =>
    rcases mem_cons.mp mem with rfl | later
    · simp
    · rw [ih later, length_map]

theorem length_rows (columns : List (List α)) (count : Nat) :
    (rows columns count).length = count := by
  induction count generalizing columns with
  | zero => rfl
  | succ count ih => rw [rows, length_cons, ih]

end Rows

namespace Machine

/-! ## Instructions -/

variable [Arithmetic α] [Kernels R α] {after mach full start : Machine α}
  {instr : Instruction R} {args : List α} {prog : Program R}

/-- The results of an instruction are what it computes from its operands. -/
def Satisfies (mach : Machine α) (instr : Instruction R) : Prop :=
  ∃ res, (rows (instr.inputs.map mach.buffer) mach.size).mapM instr.apply = .ok res ∧
    ∀ place addr, instr.outputs[place]? = some addr → mach.buffer addr = column res place

theorem Satisfies.of_changesOnly {before : Machine α} {written : List Nat}
    (satisfied : before.Satisfies instr) (changes : before.ChangesOnly after written)
    (reads : ∀ addr ∈ instr.inputs, addr ∉ written)
    (writes : ∀ addr ∈ instr.outputs, addr ∉ written) : after.Satisfies instr := by
  obtain ⟨res, computed, stored⟩ := satisfied
  have args : instr.inputs.map after.buffer = instr.inputs.map before.buffer :=
    map_congr_left fun addr mem => changes.buffer_eq addr (reads addr mem)
  refine ⟨res, by rw [args, changes.size_eq, computed], fun place addr here => ?_⟩
  rw [changes.buffer_eq addr (writes addr (mem_of_getElem? here))]
  exact stored place addr here

theorem runInstruction_ok (run : mach.runInstruction instr = .ok after)
    (nodup : instr.outputs.Nodup) (inside : ∀ addr ∈ instr.outputs, addr < mach.buffers.length)
    (separate : ∀ addr ∈ instr.inputs, addr ∉ instr.outputs) :
    mach.ChangesOnly after instr.outputs ∧ after.Satisfies instr := by
  obtain ⟨res, computed, stored⟩ := bind_eq_ok_iff.mp run
  cases stored
  have changes := mach.changesOnly_writeAll instr.outputs
    ((List.range instr.outputs.length).map (column res))
  refine ⟨changes, res, ?_, fun place addr here => ?_⟩
  · have args : instr.inputs.map (Machine.buffer _) = instr.inputs.map mach.buffer :=
      map_congr_left fun addr mem =>
        changes.buffer_eq addr (separate addr mem)
    rw [args, changes.size_eq, computed]
  · refine mach.buffer_writeAll nodup inside here ?_
    have bounded := (List.getElem?_eq_some_iff.mp here).1
    rw [getElem?_map, getElem?_range bounded]
    rfl

theorem Satisfies.apply_ok (satisfied : full.Satisfies instr) (pos : 0 < full.size)
    (length : args.length = instr.inputs.length) : ∃ res, instr.apply args = .ok res := by
  obtain ⟨table, computed, -⟩ := satisfied
  -- The first sample shows that the number of operands is right.
  cases sampled : rows (instr.inputs.map full.buffer) full.size with
  | nil =>
    have none := length_rows (instr.inputs.map full.buffer) full.size
    rw [sampled, length_nil] at none
    omega
  | cons row rest =>
    rw [sampled] at computed
    cases mapM_eq_ok_iff.mp computed with
    | cons first _ =>
      have width : row.length = instr.inputs.length := by
        rw [length_of_mem_rows (sampled ▸ mem_cons_self), length_map]
      have uniform := Kernels.isOk_compute instr.operation instr.params (width.trans length.symm)
      unfold Instruction.apply at first ⊢
      rw [first] at uniform
      cases result : Kernels.compute instr.operation instr.params args with
      | ok res => exact ⟨res, rfl⟩
      | error fault =>
        rw [result] at uniform
        cases uniform

theorem Satisfies.buffer_eq_replicate (satisfied : full.Satisfies instr) {res : List α}
    (constant : Forall₂ (fun addr value => full.buffer addr =
      List.replicate full.size value) instr.inputs args)
    (computed : instr.apply args = .ok res) {place addr : Nat}
    (here : instr.outputs[place]? = some addr) :
    full.buffer addr = List.replicate full.size (res.getD place zero) := by
  obtain ⟨table, found, stored⟩ := satisfied
  have columns : instr.inputs.map full.buffer = args.map (List.replicate full.size) := by
    have same : Forall₂ Eq (instr.inputs.map full.buffer)
        (args.map (List.replicate full.size)) := by
      rw [forall₂_map_left_iff, forall₂_map_right_iff]
      exact constant
    exact forall₂_eq_eq_eq ▸ same
  have everywhere : (List.replicate full.size args).mapM instr.apply =
      .ok (List.replicate full.size res) := by
    rw [mapM_eq_ok_iff, forall₂_iff_get]
    refine ⟨by simp, fun index _ _ => ?_⟩
    simpa using computed
  rw [columns, rows_replicate, everywhere, Except.ok.injEq] at found
  rw [stored place addr here, ← found, column, map_replicate]

/-! ## Runs -/

theorem runSteps_append (first second : List (Step α)) (mach : Machine α) :
    runSteps prog (first ++ second) mach =
      match runSteps prog first mach with
      | (.ok (), middle) => runSteps prog second middle
      | (.error fault, middle) => (.error fault, middle) := by
  induction first generalizing mach with
  | nil => rfl
  | cons step rest ih =>
    rw [cons_append, runSteps, runSteps]
    cases mach.runStep prog step with
    | error fault => rfl
    | ok next => exact ih next

theorem runSteps_append_ok {first second : List (Step α)} :
    runSteps prog (first ++ second) mach = (.ok (), after) ↔
      ∃ middle, runSteps prog first mach = (.ok (), middle) ∧
        runSteps prog second middle = (.ok (), after) := by
  rw [runSteps_append]
  cases reached : runSteps prog first mach with
  | mk result middle =>
    cases result with
    | error fault => simp
    | ok done => simp

theorem runSteps_singleton_ok {step : Step α} : runSteps prog [step] mach = (.ok (), after) ↔
      mach.runStep prog step = .ok after := by
  rw [runSteps]
  cases mach.runStep prog step with
  | error fault => simp
  | ok next => simp [runSteps]

/-- The first instructions of a program write their results and nothing else, and are
satisfied. -/
theorem runSteps_executed (formed : prog.WellFormed)
    (length : start.buffers.length = prog.bufferCount) {before after : List (Instruction R)}
    (split : prog.instructions = before ++ after)
    (run : runSteps prog ((List.range before.length).map fun index => ⟨index, .execute⟩) start =
      (.ok (), mach)) :
    start.ChangesOnly mach (before.flatMap (·.outputs)) ∧
      ∀ instr ∈ before, mach.Satisfies instr := by
  induction before using List.reverseRecOn generalizing after mach with
  | nil =>
    obtain rfl := (Prod.mk.inj run).2
    exact ⟨.refl start, by simp⟩
  | append_singleton before last ih =>
    rw [append_assoc] at split
    rw [length_append, length_singleton, range_succ, map_append,
      map_singleton, runSteps_append_ok] at run
    obtain ⟨middle, early, late⟩ := run
    obtain ⟨changes, satisfied⟩ := ih split early
    have here : prog.instructions[before.length]? = some last := by simp [split]
    rw [runSteps_singleton_ok, runStep, here] at late
    have reads := formed.reads_earlier before last after split
    obtain ⟨own, apart⟩ := formed.outputs_separate split
    obtain ⟨written, new⟩ := runInstruction_ok late own
      (fun addr mem => by
        rw [changes.length_eq, length]
        exact formed.outputs_inside_buffers (mem_of_getElem? here) mem)
      (fun addr read mem => (apart addr mem).1 (reads addr read))
    rw [flatMap_append, flatMap_singleton]
    refine ⟨changes.trans written, fun instr mem => ?_⟩
    rcases mem_append.mp mem with earlier | isLast
    · -- The buffers of an earlier instruction are not those that are written now.
      obtain ⟨front, back, rfl⟩ := append_of_mem earlier
      have at_front : prog.instructions = front ++ instr :: (back ++ last :: after) := by
        rw [split]
        simp
      refine (satisfied instr earlier).of_changesOnly written ?_ ?_
      · intro addr read again
        refine (apart addr again).1 ?_
        have known := formed.reads_earlier _ _ _ at_front addr read
        simp only [mem_append, flatMap_append] at known ⊢
        tauto
      · intro addr wrote again
        refine (apart addr again).1 ?_
        simp only [mem_append, flatMap_append, flatMap_cons]
        tauto
    · rw [mem_singleton.mp isLast]
      exact new

/-- **Runs end settled.** After a full run the buffers that were given are unchanged and
every instruction is satisfied. -/
theorem runSteps_allSteps (formed : prog.WellFormed)
    (length : start.buffers.length = prog.bufferCount)
    (run : runSteps prog prog.allSteps start = (.ok (), full)) :
    start.ChangesOnly full (prog.instructions.flatMap (·.outputs)) ∧
      ∀ instr ∈ prog.instructions, full.Satisfies instr :=
  runSteps_executed formed length (append_nil _).symm run

theorem exists_runSteps (computable : ∀ instr ∈ prog.instructions, ∀ args : List α,
      args.length = instr.inputs.length → ∃ made, instr.apply args = .ok made)
    (mach : Machine α) : ∃ full, runSteps prog prog.allSteps mach = (.ok (), full) := by
  unfold Program.allSteps
  induction List.range prog.instructions.length generalizing mach with
  | nil => exact ⟨mach, rfl⟩
  | cons index rest ih =>
    obtain ⟨next, stepped⟩ : ∃ next, mach.runStep prog ⟨index, .execute⟩ = .ok next := by
      unfold runStep
      cases found : prog.instructions[index]? with
      | none => exact ⟨mach, rfl⟩
      | some instr =>
        have each : ∀ row ∈ rows (instr.inputs.map mach.buffer) mach.size,
            ∃ made, instr.apply row = .ok made := by
          intro row mem
          refine computable instr (mem_of_getElem? found) row ?_
          rw [length_of_mem_rows mem, length_map]
        obtain ⟨made, computed⟩ := exists_mapM_ok each
        exact ⟨_, bind_eq_ok_iff.mpr ⟨made, computed, rfl⟩⟩
    obtain ⟨full, run⟩ := ih next
    exact ⟨full, by rw [map_cons, runSteps, stepped]; exact run⟩

end Machine

end FieldGraph
