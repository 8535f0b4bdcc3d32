import FieldGraph.Proofs.Fallible
import FieldGraph.Proofs.Run.Machine

/-! # Loading machines

Before a run a machine is made ready for the program and gets its inputs. It keeps the
buffers that it has if they belong to the program, so the constants in them have to be
in place from an earlier run; a run writes neither constants nor inputs, and leaves them
so.
-/

namespace FieldGraph

open Arithmetic Fallible List Machine

variable {R α : Type} {samples : Coordinate → List α}

namespace Program

variable {prog : Program R} {axis : Coordinate} {addr : Nat}

theorem mem_inputs_of_inputAddress? (found : prog.inputAddress? axis = some addr) :
    (axis, addr) ∈ prog.inputs := by
  obtain ⟨before, after, split, -⟩ := lookup_eq_some_iff.mp found
  rw [split]
  simp

variable (formed : prog.WellFormed)

include formed

theorem WellFormed.inputAddress? (mem : (axis, addr) ∈ prog.inputs) :
    prog.inputAddress? axis = some addr := by
  obtain ⟨before, after, split⟩ := append_of_mem mem
  refine lookup_eq_some_iff.mpr ⟨before, after, split, fun entry earlier => ?_⟩
  have nodup := formed.inputs_nodup
  rw [split, map_append] at nodup
  have apart := (nodup_append'.mp nodup).2.2 (mem_map_of_mem earlier)
  rw [bne_iff_ne]
  rintro rfl
  exact apart mem_cons_self

theorem WellFormed.coordinate_unique {a b : Coordinate} (first : (a, addr) ∈ prog.inputs)
    (second : (b, addr) ∈ prog.inputs) : a = b := by
  have nodup := (nodup_append'.mp (nodup_append'.mp formed.addresses_nodup).1).1
  exact congrArg Prod.fst (inj_on_of_nodup_map nodup first second rfl)

theorem WellFormed.input_not_constant (mem : (axis, addr) ∈ prog.inputs) {value : R} :
    (addr, value) ∉ prog.constants := by
  intro constant
  have apart := (nodup_append'.mp (nodup_append'.mp formed.addresses_nodup).1).2.2
  exact apart (mem_map_of_mem mem) (mem_map_of_mem constant)

end Program

namespace Machine

/-- The buffers of a machine are those of a program, with its constants in place. -/
structure Ready [Precision R α] (mach : Machine α) (prog : Program R) (size : Nat) :
    Prop where
  /-- There is one number for every sample. -/
  size_eq : mach.size = size
  /-- There are as many buffers as the program has. -/
  length_eq : mach.buffers.length = prog.bufferCount
  /-- The constants are in place. -/
  constants : ∀ addr value, (addr, value) ∈ prog.constants →
    mach.buffer addr = List.replicate size (Precision.narrow value)

/-- The buffers of a machine hold samples for the inputs of a program, and its
constants. Other buffers hold anything. -/
structure Holds [Precision R α] (mach : Machine α) (prog : Program R) (size : Nat)
    (samples : Coordinate → List α) : Prop extends mach.Ready prog size where
  /-- The inputs hold the samples. -/
  inputs : ∀ axis addr, (axis, addr) ∈ prog.inputs → mach.buffer addr = samples axis

variable [Precision R α] {mach other : Machine α} {prog : Program R} {size : Nat}

theorem Holds.of_all (size_eq : mach.size = size)
    (length_eq : mach.buffers.length = prog.bufferCount) (constants : ∀ entry ∈ prog.constants,
      mach.buffer entry.1 = replicate size (Precision.narrow entry.2))
    (inputs : ∀ entry ∈ prog.inputs, mach.buffer entry.2 = samples entry.1) :
    mach.Holds prog size samples :=
  ⟨⟨size_eq, length_eq, fun addr value => constants (addr, value)⟩, fun axis addr =>
    inputs (axis, addr)⟩

theorem Holds.buffer_eq (holds : mach.Holds prog size samples)
    (others : other.Holds prog size samples) {addr : Nat} (given : addr ∈ prog.given) :
    mach.buffer addr = other.buffer addr := by
  rcases mem_append.mp given with isInput | isConstant
  · obtain ⟨⟨axis, _⟩, mem, rfl⟩ := mem_map.mp isInput
    rw [holds.inputs axis _ mem, others.inputs axis _ mem]
  · obtain ⟨⟨_, value⟩, mem, rfl⟩ := mem_map.mp isConstant
    rw [holds.constants _ value mem, others.constants _ value mem]

theorem Ready.of_changesOnly (ready : mach.Ready prog size) {written : List Nat}
    (changes : mach.ChangesOnly other written)
    (spared : ∀ addr value, (addr, value) ∈ prog.constants → addr ∉ written) :
    other.Ready prog size where
  size_eq := changes.size_eq.trans ready.size_eq
  length_eq := changes.length_eq.trans ready.length_eq
  constants addr value mem := by
    rw [changes.buffer_eq addr (spared addr value mem)]
    exact ready.constants addr value mem

theorem Ready.of_run (ready : mach.Ready prog size) (formed : prog.WellFormed)
    (changes : mach.ChangesOnly other (prog.instructions.flatMap (·.outputs))) :
    other.Ready prog size := by
  refine ready.of_changesOnly changes fun addr value mem => ?_
  refine (nodup_append'.mp formed.addresses_nodup).2.2 ?_
  exact mem_append_right _ (mem_map_of_mem mem)

theorem Holds.of_run (holds : mach.Holds prog size samples) (formed : prog.WellFormed)
    (changes : mach.ChangesOnly other (prog.instructions.flatMap (·.outputs))) :
    other.Holds prog size samples where
  toReady := holds.toReady.of_run formed changes
  inputs axis addr mem := by
    have given : addr ∈ prog.given := mem_append_left _ (mem_map_of_mem mem)
    rw [changes.buffer_eq addr ((nodup_append'.mp formed.addresses_nodup).2.2 given)]
    exact holds.inputs axis addr mem

/-- If the buffers are kept for the program, then they are ready for it. -/
def Serves (mach : Machine α) (serial : Nat) (prog : Program R) : Prop :=
  mach.serial = some serial → mach.Ready prog mach.size

theorem Ready.serves (ready : mach.Ready prog size) (serial : Nat) : mach.Serves serial prog := by
  intro _
  rw [ready.size_eq]
  exact ready

/-! ## Making ready -/

theorem foldl_fill (mach : Machine α) (entries : List (Nat × R)) :
    entries.foldl (fun mach (addr, value) =>
        mach.fill addr (Precision.narrow value)) mach =
      mach.writeAll (entries.map (·.1))
        (entries.map fun entry => List.replicate mach.size (Precision.narrow entry.2)) := by
  induction entries generalizing mach with
  | nil => rfl
  | cons entry rest ih =>
    rw [foldl_cons, ih]
    rfl

theorem ready_allocate [Arithmetic α] (formed : prog.WellFormed) (serial size : Nat) :
    (allocate serial prog size : Machine α).Ready prog size := by
  rw [allocate, foldl_fill]
  have nodup := (nodup_append'.mp (nodup_append'.mp formed.addresses_nodup).1).2.1
  refine ⟨(changesOnly_writeAll _ _ _).size_eq, ?_, fun addr value mem => ?_⟩
  · rw [(changesOnly_writeAll _ _ _).length_eq, length_replicate]
  · obtain ⟨place, inside, here⟩ := getElem_of_mem mem
    have found : prog.constants[place]? = some (addr, value) := by
      rw [getElem?_eq_getElem inside, here]
    have bounded : ∀ other ∈ prog.constants.map (·.1), other < prog.bufferCount := by
      intro other listed
      refine formed.mem_addresses.mp (mem_append_left _ (mem_append_right _ ?_))
      exact listed
    refine buffer_writeAll _ nodup (fun other listed => ?_) (by rw [getElem?_map, found]; rfl)
      (by rw [getElem?_map, found]; rfl)
    rw [length_replicate]
    exact bounded other listed

end Machine

namespace Running

variable [Arithmetic α] [Precision R α] {mach after : Machine α} {prog : Program R}
  {size serial : Nat}

theorem outcome_prepare (serial : Nat) (prog : Program R) (size : Nat) (mach : Machine α) :
    (prepare serial prog size).outcome mach =
      if size = 0 then (.error .noSamples, mach)
      else (.ok (), if mach.isReady serial prog size = true then mach
        else allocate serial prog size) := by
  rw [prepare]
  by_cases empty : size = 0
  · rw [if_pos empty, if_pos empty]
    rfl
  · rw [if_neg empty, if_neg empty, outcome_bind, outcome_get]
    dsimp only
    cases mach.isReady serial prog size <;> rfl

theorem pos_of_completes_prepare
    (prepared : (prepare serial prog size).Completes mach () after) : 0 < size := by
  by_contra empty
  rw [Completes, outcome_prepare, if_pos (by omega)] at prepared
  cases (Prod.mk.inj prepared).1

theorem exists_completes_prepare (formed : prog.WellFormed) (serves : mach.Serves serial prog)
    (pos : 0 < size) : ∃ ready : Machine α, ready.Ready prog size ∧
    (prepare serial prog size).Completes mach () ready := by
  unfold Completes
  rw [outcome_prepare, if_neg (Nat.ne_of_gt pos)]
  refine ⟨_, ?_, rfl⟩
  split
  · rename_i kept
    simp only [isReady, Bool.and_eq_true, beq_iff_eq] at kept
    obtain ⟨⟨same, -⟩, rfl⟩ := kept
    exact serves same
  · exact ready_allocate formed serial size

omit [Arithmetic α] [Precision R α] in
theorem outcome_setInput (prog : Program R) (axis : Coordinate) (values : List α)
    (mach : Machine α) :
    ((setInput prog axis values).outcome mach).2 = mach ∨
      ∃ addr samples, prog.inputAddress? axis = some addr ∧
        ((setInput prog axis values).outcome mach).2 = mach.write addr samples := by
  rw [setInput, outcome_bind, outcome_get]
  dsimp only
  cases prog.inputAddress? axis with
  | none => exact .inl rfl
  | some addr =>
    dsimp only
    split
    · exact .inr ⟨addr, values, rfl, rfl⟩
    · split
      · exact .inr ⟨addr, _, rfl, rfl⟩
      · exact .inl rfl

end Running

end FieldGraph
