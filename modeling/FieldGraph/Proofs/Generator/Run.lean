import FieldGraph.Generator.Sample
import FieldGraph.Proofs.Run.Load

/-! # Runs of generators

A generator runs all programs on one machine. Whatever the machine was used for before,
the inputs and the constants are in their buffers when the first step of a run starts.
-/

namespace FieldGraph

open Fallible List Machine Running

/-- A machine is ready, and the buffers of some coordinates hold their samples. -/
structure Machine.Loading (machine : Machine Float32) (prog : Program Float) (size : Nat)
    (samples : Coordinate → List Float32) (done : List Coordinate) : Prop
    extends machine.Ready prog size where
  inputs : ∀ axis ∈ done, ∀ addr, (axis, addr) ∈ prog.inputs →
    machine.buffer addr = samples axis

namespace Generating

variable {gen after : Generator} {prog : Program Float} {serial size : Nat}
  {samples : Coordinate → List Float32} {steps : List (Step Float32)} {done : List Coordinate}

/-- A run on the machine changes nothing else of the generator. -/
theorem completes_onMachine_iff {β : Type} {action : Running Float32 β} {value : β} :
    Completes (onMachine action) gen value after ↔
      ∃ machine, Completes action gen.machine value machine ∧
        { gen with machine } = after := by
  unfold Completes onMachine
  rw [outcome_ofOutcome]
  cases action.outcome gen.machine with
  | mk outcome machine =>
    cases outcome with
    | error cause => simp [Except.mapError]
    | ok result =>
      simp only [Except.mapError, Prod.mk.injEq, Except.ok.injEq]
      constructor
      · rintro ⟨rfl, rfl⟩
        exact ⟨machine, ⟨rfl, rfl⟩, rfl⟩
      · rintro ⟨_, ⟨rfl, rfl⟩, rfl⟩
        exact ⟨rfl, rfl⟩

/-- Loading one coordinate leaves the others loaded. -/
theorem exists_completes_setInput (formed : prog.WellFormed)
    (loading : gen.machine.Loading prog size samples done) {axis : Coordinate}
    {addr : Nat} (found : prog.inputAddress? axis = some addr)
    (length : (samples axis).length = size) :
    ∃ machine : Machine Float32, machine.Loading prog size samples (axis :: done) ∧
      Completes (onMachine (Running.setInput prog axis (samples axis))) gen ()
        { gen with machine } := by
  have mem := Program.mem_inputs_of_inputAddress? found
  have changes := gen.machine.changesOnly_write addr (samples axis)
  have inside : addr < gen.machine.buffers.length := by
    rw [loading.length_eq]
    refine formed.mem_addresses.mp (mem_append_left _ (mem_append_left _ ?_))
    exact mem_map_of_mem mem
  refine ⟨gen.machine.write addr (samples axis), ⟨?_, ?_⟩, ?_⟩
  · refine loading.toReady.of_changesOnly changes fun other value constant same => ?_
    obtain rfl := mem_singleton.mp same
    exact formed.input_not_constant mem constant
  · intro other listed place there
    by_cases same : place = addr
    · -- The buffer that is written belongs to one coordinate only.
      subst same
      obtain rfl := formed.coordinate_unique there mem
      exact gen.machine.buffer_write_self inside _
    · rcases mem_cons.mp listed with rfl | before
      · have again := formed.inputAddress? there
        rw [found] at again
        exact absurd (Option.some.inj again).symm same
      · rw [changes.buffer_eq place fun written => same (mem_singleton.mp written)]
        exact loading.inputs other before place there
  · refine completes_onMachine_iff.mpr ⟨_, ?_, rfl⟩
    rw [Running.setInput, completes_get_bind_iff, found]
    dsimp only
    rw [if_pos (length.trans loading.size_eq.symm)]
    rfl

/-- Loading coordinates one after the other ends with all of them loaded. -/
theorem exists_completes_inputs (formed : prog.WellFormed)
    (lengths : ∀ axis addr, (axis, addr) ∈ prog.inputs →
      (samples axis).length = size) (rest : List Coordinate) (gen : Generator)
    (loading : gen.machine.Loading prog size samples done) :
    ∃ machine : Machine Float32, machine.Loading prog size samples (rest.reverse ++ done) ∧
      Completes (rest.forM (loadInput prog fun c => .ok (samples c))) gen ()
        { gen with machine } := by
  induction rest generalizing gen done with
  | nil => exact ⟨gen.machine, loading, rfl⟩
  | cons axis rest ih =>
    rw [reverse_cons, append_assoc]
    -- The first coordinate is loaded, then the others are.
    suffices one : ∃ middle : Machine Float32,
        middle.Loading prog size samples (axis :: done) ∧
          Completes (loadInput prog (fun c => .ok (samples c)) axis) gen ()
            { gen with machine := middle } by
      obtain ⟨middle, further, written⟩ := one
      obtain ⟨machine, loaded, completes⟩ := ih { gen with machine := middle } further
      exact ⟨machine, loaded, completes_bind_iff.mpr ⟨(), _, written, completes⟩⟩
    cases found : prog.inputAddress? axis with
    | none =>
      refine ⟨gen.machine, ⟨loading.toReady, fun other listed addr there => ?_⟩, ?_⟩
      · rcases mem_cons.mp listed with rfl | before
        · have present := formed.inputAddress? there
          rw [found] at present
          cases present
        · exact loading.inputs other before addr there
      · rw [loadInput, found]
        rfl
    | some addr =>
      have length := lengths axis addr (Program.mem_inputs_of_inputAddress? found)
      obtain ⟨middle, further, written⟩ := exists_completes_setInput formed loading found length
      refine ⟨middle, further, ?_⟩
      rw [loadInput, found]
      exact completes_bind_iff.mpr ⟨samples axis, gen, rfl, written⟩

/-- Executing steps is running them. -/
theorem completes_execute_iff {machine reached : Machine Float32} :
    Completes (Running.execute prog steps) machine () reached ↔
      runSteps prog steps machine = (.ok (), reached) := by
  rw [Completes, Running.execute, outcome_ofOutcome]
  cases runSteps prog steps machine with
  | mk outcome after =>
    cases outcome with
    | error fault => simp
    | ok done => simp

/-- **Runs start loaded.** A run starts from buffers that hold the inputs and the
constants, whichever steps are to be run. -/
theorem exists_loaded (formed : prog.WellFormed)
    (serves : gen.machine.Serves serial prog) (pos : 0 < size)
    (lengths : ∀ axis addr, (axis, addr) ∈ prog.inputs →
      (samples axis).length = size) :
    ∃ start : Machine Float32, start.Holds prog size samples ∧
      ∀ steps after, Completes
          (runProgram serial prog size (fun c => .ok (samples c)) steps) gen () after ↔
        ∃ machine, runSteps prog steps start = (.ok (), machine) ∧
          { gen with machine } = after := by
  obtain ⟨ready, isReady, prepared⟩ := exists_completes_prepare formed serves pos
  have loading : ready.Loading prog size samples [] := ⟨isReady, by simp⟩
  obtain ⟨start, loaded, written⟩ := exists_completes_inputs formed lengths Coordinate.all
    { gen with machine := ready } loading
  refine ⟨start, ⟨loaded.toReady, fun axis addr there => ?_⟩, fun steps after => ?_⟩
  · refine loaded.inputs axis ?_ addr there
    cases axis <;> decide
  · rw [runProgram, Completes.bind_iff (completes_onMachine_iff.mpr ⟨ready, prepared, rfl⟩),
      Completes.bind_iff written, completes_onMachine_iff]
    simp only [completes_execute_iff]

/-- There is no run without samples. -/
theorem pos_of_completes_runProgram {inputs : Coordinate → Except ConversionError (List Float32)}
    (completes : Completes (runProgram serial prog size inputs steps) gen () after) : 0 < size := by
  obtain ⟨_, _, prepared, -⟩ := completes_bind_iff.mp completes
  obtain ⟨_, ready, -⟩ := completes_onMachine_iff.mp prepared
  exact pos_of_completes_prepare ready

end Generating

end FieldGraph
