import FieldGraph.Generator.Block
import FieldGraph.Proofs.Compile.Program
import FieldGraph.Proofs.Generator.Run

/-! # Reachable generators

The generators that uses lead to, whether the uses are refused or not. In all of them the
program in use is well formed, and if the machine has buffers for it, then its constants
are in place.
-/

namespace FieldGraph

open Fallible List Machine Option Voxel

namespace Machine

variable {R α : Type}

variable [Arithmetic α] [Kernels R α] {prog : Program R} {machine next : Machine α}

theorem changesOnly_runStep {step : Step α} (run : machine.runStep prog step = .ok next) :
    machine.ChangesOnly next (prog.instructions.flatMap (·.outputs)) ∧
      next.serial = machine.serial := by
  unfold runStep at run
  split at run
  · cases run
    exact ⟨(ChangesOnly.refl machine).mono (nil_subset _), rfl⟩
  · rename_i instr here
    have written : instr.outputs ⊆ prog.instructions.flatMap (·.outputs) :=
      fun addr output => mem_flatMap.mpr ⟨instr, mem_of_getElem? here, output⟩
    split at run
    · obtain ⟨results, -, same⟩ := bind_eq_ok_iff.mp run
      cases same
      exact ⟨(changesOnly_writeAll _ _ _).mono written, serial_writeAll _ _ _⟩
    · cases run
      refine ⟨(changesOnly_writeAll _ _ _).mono ?_, serial_writeAll _ _ _⟩
      exact List.Subset.trans (take_subset _ _) written
    · cases run
      exact ⟨(changesOnly_writeAll _ _ _).mono written, serial_writeAll _ _ _⟩

theorem changesOnly_runSteps (prog : Program R) (steps : List (Step α)) (machine : Machine α) :
    machine.ChangesOnly (runSteps prog steps machine).2 (prog.instructions.flatMap (·.outputs)) ∧
    (runSteps prog steps machine).2.serial = machine.serial := by
  induction steps generalizing machine with
  | nil => exact ⟨(ChangesOnly.refl machine).mono (nil_subset _), rfl⟩
  | cons step steps ih =>
    rw [runSteps]
    split
    · rename_i next run
      obtain ⟨first, same⟩ := changesOnly_runStep run
      obtain ⟨rest, kept⟩ := ih next
      refine ⟨(first.trans rest).mono ?_, kept.trans same⟩
      exact append_subset.mpr ⟨List.Subset.refl _, List.Subset.refl _⟩
    · exact ⟨(ChangesOnly.refl machine).mono (nil_subset _), rfl⟩

end Machine

namespace Generator

variable {machine : Machine Float32}

/-- The program in use is well formed, and the buffers for it, if there are any, hold its
constants. -/
structure Sound (gen : Generator) : Prop where
  current : ∀ serial prog, gen.program = some (serial, prog) →
    prog.WellFormed ∧ serial < gen.nextSerial ∧ gen.machine.Serves serial prog
  older : ∀ serial, gen.machine.serial = some serial → serial < gen.nextSerial

/-- A sound generator that uses a program. -/
def Uses (serial : Nat) (prog : Program Float) (gen : Generator) : Prop :=
  gen.Sound ∧ gen.program = some (serial, prog)

variable {gen : Generator} {serial : Nat} {prog : Program Float}

theorem sound_empty : ({} : Generator).Sound where
  current := by rintro _ _ ⟨⟩
  older := by rintro _ ⟨⟩

theorem Uses.withMachine (uses : gen.Uses serial prog) (serves : machine.Serves serial prog)
    (older : ∀ other, machine.serial = some other → other < gen.nextSerial) :
    Uses serial prog { gen with machine } := by
  obtain ⟨sound, installed⟩ := uses
  refine ⟨⟨fun other current same => ?_, older⟩, installed⟩
  cases installed.symm.trans same
  obtain ⟨formed, earlier, -⟩ := sound.current serial prog installed
  exact ⟨formed, earlier, serves⟩

theorem Uses.of_changesOnly (uses : gen.Uses serial prog) {written : List Nat}
    (changes : gen.machine.ChangesOnly machine written) (same : machine.serial = gen.machine.serial)
    (spared : ∀ addr value, (addr, value) ∈ prog.constants → addr ∉ written) :
    Uses serial prog { gen with machine } := by
  obtain ⟨-, -, serves⟩ := uses.1.current serial prog uses.2
  refine uses.withMachine (fun isSerial => ?_) fun other isOther => ?_
  · rw [changes.size_eq]
    exact (serves (same ▸ isSerial)).of_changesOnly changes spared
  · exact uses.1.older other (same ▸ isOther)

end Generator

namespace Generating

open Generator

variable {serial : Nat} {prog : Program Float} {β : Type} {property : Generator → Prop}

theorem preserves_onMachine {action : Running Float32 β} {inv : Generator → Prop}
    (stays : ∀ gen, inv gen →
      inv { gen with machine := (action.outcome gen.machine).2 }) :
    (onMachine action).Preserves inv := by
  intro gen holds
  exact stays gen holds

theorem preserves_prepare (size : Nat) :
    (onMachine (Running.prepare serial prog size)).Preserves (Uses serial prog) := by
  refine preserves_onMachine fun gen uses => ?_
  obtain ⟨formed, earlier, -⟩ := uses.1.current serial prog uses.2
  rw [Running.outcome_prepare]
  split
  · exact uses
  · split
    · exact uses
    · refine uses.withMachine ((ready_allocate formed serial size).serves serial) ?_
      intro other isOther
      rw [Machine.allocate, foldl_fill, serial_writeAll] at isOther
      exact some.inj isOther ▸ earlier

theorem preserves_setInput (axis : Coordinate) (values : List Float32) :
    (onMachine (Running.setInput prog axis values)).Preserves (Uses serial prog) := by
  refine preserves_onMachine fun gen uses => ?_
  obtain ⟨formed, -⟩ := uses.1.current serial prog uses.2
  rcases Running.outcome_setInput prog axis values gen.machine with
    same | ⟨addr, samples, found, written⟩
  · rw [same]
    exact uses
  · rw [written]
    refine uses.of_changesOnly (gen.machine.changesOnly_write addr samples) rfl ?_
    intro other value constant same
    rw [mem_singleton.mp same] at constant
    exact formed.input_not_constant (Program.mem_inputs_of_inputAddress? found) constant

theorem preserves_execute (steps : List (Step Float32)) :
    (onMachine (Running.execute prog steps)).Preserves (Uses serial prog) := by
  refine preserves_onMachine fun gen uses => ?_
  obtain ⟨formed, -⟩ := uses.1.current serial prog uses.2
  have after : ((Running.execute prog steps).outcome gen.machine).2 =
      (Machine.runSteps prog steps gen.machine).2 := by
    rw [Running.execute, outcome_ofOutcome]
    cases Machine.runSteps prog steps gen.machine with
    | mk outcome machine => cases outcome <;> rfl
  rw [after]
  obtain ⟨changes, same⟩ := changesOnly_runSteps prog steps gen.machine
  refine uses.of_changesOnly changes same fun addr value constant => ?_
  refine (nodup_append'.mp formed.addresses_nodup).2.2 ?_
  exact mem_append_right _ (mem_map_of_mem constant)

/-- **Runs keep generators sound.** -/
theorem preserves_runProgram (size : Nat)
    (inputs : Coordinate → Except ConversionError (List Float32)) (steps : List (Step Float32)) :
    (runProgram serial prog size inputs steps).Preserves (Uses serial prog) := by
  refine (preserves_prepare size).bind fun _ => Preserves.bind ?_ fun _ => preserves_execute steps
  refine preserves_forM _ fun axis _ => ?_
  unfold loadInput
  split
  · exact (preserves_ofExcept _).bind fun values => preserves_setInput axis values
  · exact preserves_pure _

variable {gen : Generator} {inv : Generator → Prop}

/-- Runs of a program keep a property of generators. -/
def KeptByRuns (serial : Nat) (prog : Program Float) (property : Generator → Prop) : Prop :=
  ∀ size inputs steps, (runProgram serial prog size inputs steps).Preserves property

/-- A generator has a property that runs of its program keep, as long as it has an
invariant, and the invariant follows from it. -/
def Invariant (inv : Generator → Prop) : Prop :=
  ∀ gen serial prog, inv gen → gen.program = some (serial, prog) →
    ∃ property, property gen ∧ KeptByRuns serial prog property ∧
      ∀ other, property other → inv other

theorem invariant_sound : Invariant Sound := fun _ serial prog sound installed =>
  ⟨Uses serial prog, ⟨sound, installed⟩, preserves_runProgram, fun _ uses => uses.1⟩

/-- What uses the program of a generator keeps an invariant if it keeps all that the runs of the
program keep. -/
theorem Invariant.preserves (isInvariant : Invariant inv) {absent : β}
    {action : Generator → Nat → Program Float → Generating β}
    (stays : ∀ gen serial prog property, KeptByRuns serial prog property →
      (action gen serial prog).Preserves property) :
    Preserves (do
      let gen ← get
      match gen.program with
      | none => return absent
      | some (serial, prog) => action gen serial prog) inv := by
  refine preserves_get_bind fun gen holds => ?_
  split
  · exact holds
  · rename_i serial prog installed
    obtain ⟨property, start, kept, implies⟩ := isInvariant gen serial prog holds installed
    exact implies _ (stays gen serial prog property kept gen start)

theorem preserves_channelKind (channel : Channel) : (channelKind channel).Preserves inv := by
  cases channel with
  | sdf | type => exact preserves_pure _
  | indices | weights => exact preserves_throw _

theorem preserves_outputSamples (output : Output) : (outputSamples output).Preserves inv :=
  fun _ holds => holds

section

variable (isInvariant : Invariant inv)

include isInvariant

theorem preserves_single (given : List (Number Float)) (channel : Channel) :
    (single given channel).Preserves inv := by
  refine isInvariant.preserves fun _ serial prog property kept => ?_
  refine (preserves_channelKind channel).bind fun kind => ?_
  refine Preserves.bind (preserves_ofExcept _) fun place => ?_
  refine (kept 1 _ _).bind fun _ => ?_
  split
  · exact preserves_pure _
  · exact (preserves_outputSamples _).bind fun _ => preserves_pure _

theorem preserves_singleOutputs (given : List (Number Float)) :
    (singleOutputs given).Preserves inv := by
  refine isInvariant.preserves fun _ serial prog property kept => ?_
  refine Preserves.bind (preserves_ofExcept _) fun place => ?_
  refine (kept 1 _ _).bind fun _ => preserves_mapM _ fun output _ => ?_
  exact (preserves_outputSamples _).bind fun _ => preserves_pure _

theorem preserves_series (xs ys zs : List (Number Float)) (channel : Channel) :
    (series xs ys zs channel).Preserves inv := by
  refine (preserves_mapM _ fun _ _ => preserves_ofExcept _).bind fun xs => ?_
  refine (preserves_mapM _ fun _ _ => preserves_ofExcept _).bind fun ys => ?_
  refine (preserves_mapM _ fun _ _ => preserves_ofExcept _).bind fun zs => ?_
  by_cases differ : xs.length ≠ ys.length ∨ ys.length ≠ zs.length
  · rw [if_pos differ]
    exact preserves_throw_bind
  · split
    · exact preserves_pure _
    · refine isInvariant.preserves fun _ serial prog property kept => ?_
      refine (preserves_channelKind channel).bind fun kind => ?_
      refine (kept _ _ _).bind fun _ => ?_
      split
      · exact preserves_pure _
      · exact preserves_outputSamples _

end

theorem preserves_measure (isInvariant : Invariant inv) (singular : Bool)
    (iterations : Int) : (measure singular iterations).Preserves inv := by
  refine isInvariant.preserves fun _ serial prog property kept => ?_
  have once : (measureOnce serial prog singular).Preserves property := by
    unfold measureOnce
    split
    · exact preserves_forM _ fun _ _ => kept 1 _ _
    · exact kept _ _ _
  refine (preserves_forM _ fun _ _ => once).bind fun _ => ?_
  by_cases none : iterations = 0
  · rw [if_pos none]
    exact preserves_throw_bind
  · split
    · exact preserves_pure _
    · exact preserves_pure _

theorem preserves_addPart {task : BlockTask} (kept : KeptByRuns task.serial task.program property)
    (values : BlockValues) (part : Part) : (addPart task values part).Preserves property := by
  refine Preserves.bind ?_ fun _ _ holds => holds
  refine (preserves_ofExcept _).bind fun samples => ?_
  refine Preserves.bind ?_ fun steps => kept _ _ steps
  refine preserves_get_bind fun gen holds => ?_
  split
  · exact ((preserves_ofExcept _).bind fun _ => preserves_ofExcept _) gen holds
  · exact holds

theorem preserves_block (isInvariant : Invariant inv) (buffer : Buffer)
    (origin : List (Number Float)) (detail : Number Float) :
    (block buffer origin detail).Preserves inv := by
  refine isInvariant.preserves fun gen serial prog property kept => ?_
  refine Preserves.bind (preserves_ofExcept _) fun place => ?_
  refine Preserves.bind (preserves_ofExcept _) fun level => ?_
  by_cases negative : level < 0
  · rw [if_pos negative]
    exact preserves_throw_bind
  · split
    · exact preserves_pure _
    · refine Preserves.bind ?_ fun _ => preserves_pure _
      refine preserves_foldlM _ fun values part _ => ?_
      apply preserves_addPart
      exact kept

theorem preserves_setPartSize (size : Number Float) : (setPartSize size).Preserves Sound := by
  refine Preserves.bind (preserves_ofExcept _) fun whole => ?_
  split
  · exact preserves_throw_bind
  · exact preserves_modify fun gen sound => ⟨sound.current, sound.older⟩

end Generating

namespace Generator

/-- What can be done with a generator. -/
inductive Use where
  | compile (lib : Library) (id : FunctionId) (debug : Bool)
  | optimize (on : Bool)
  | subdivide (on : Bool)
  | setPartSize (size : Number Float)
  | single (position : List (Number Float)) (channel : Channel)
  | singleOutputs (position : List (Number Float))
  | series (xs ys zs : List (Number Float)) (channel : Channel)
  | measure (singular : Bool) (iterations : Int)
  | block (buffer : Buffer) (origin : List (Number Float)) (detail : Number Float)

/-- The generator after a use, refused or not. -/
def afterUse (gen : Generator) : Use → Generator
  | .compile lib id debug =>
    match gen.compile lib id debug with
    | .ok (_, next) => next
    | .error _ => gen
  | .optimize on => { gen with optimized := on }
  | .subdivide on => { gen with subdivided := on }
  | .setPartSize size => ((Generating.setPartSize size).outcome gen).2
  | .single position channel => ((Generating.single position channel).outcome gen).2
  | .singleOutputs position => ((Generating.singleOutputs position).outcome gen).2
  | .series xs ys zs channel => ((Generating.series xs ys zs channel).outcome gen).2
  | .measure singular iterations => ((Generating.measure singular iterations).outcome gen).2
  | .block buffer origin detail => ((Generating.block buffer origin detail).outcome gen).2

/-- The generator after a history of uses. -/
def afterUses (uses : List Use) : Generator := uses.foldl afterUse {}

variable {gen : Generator}

theorem Sound.compile (sound : gen.Sound) {lib : Library} {id : FunctionId}
    {debug : Bool} {verdict : Verdict} {next : Generator}
    (compiled : gen.compile lib id debug = .ok (verdict, next)) : next.Sound := by
  obtain ⟨⟨judged, made⟩, judgement, rest⟩ := bind_eq_ok_iff.mp compiled
  cases made with
  | none =>
    obtain ⟨-, rfl⟩ := Prod.mk.inj (Except.ok.inj rest)
    exact ⟨sound.current, sound.older⟩
  | some prog =>
    obtain ⟨-, rfl⟩ := Prod.mk.inj (Except.ok.inj rest)
    refine ⟨fun serial other installed => ?_, fun serial isSerial => ?_⟩
    · cases installed
      have good : lib.compile id debug = .ok prog := by
        unfold Library.judge at judgement
        split at judgement
        · rename_i compiled
          rw [compiled, some.inj (Prod.mk.inj (Except.ok.inj judgement)).2]
        · cases (Prod.mk.inj (Except.ok.inj judgement)).2
        · cases judgement
      refine ⟨Library.wellFormed_of_compile good, Nat.lt_succ_self _, fun isSerial => ?_⟩
      exact absurd (sound.older _ isSerial) (Nat.lt_irrefl _)
    · exact Nat.lt_succ_of_lt (sound.older serial isSerial)

open Generating in
theorem Sound.use (sound : gen.Sound) (use : Use) : (gen.afterUse use).Sound := by
  cases use with
  | compile lib id debug =>
    rw [afterUse]
    split
    · rename_i compiled
      exact sound.compile compiled
    · exact sound
  | optimize on => exact ⟨sound.current, sound.older⟩
  | subdivide on => exact ⟨sound.current, sound.older⟩
  | setPartSize size => exact preserves_setPartSize size gen sound
  | single position channel => exact preserves_single invariant_sound position channel gen sound
  | singleOutputs position => exact preserves_singleOutputs invariant_sound position gen sound
  | series xs ys zs channel => exact preserves_series invariant_sound xs ys zs channel gen sound
  | measure singular iterations =>
    exact preserves_measure invariant_sound singular iterations gen sound
  | block buffer origin detail =>
    exact preserves_block invariant_sound buffer origin detail gen sound

/-- **Generators stay sound.** -/
theorem sound_afterUses (uses : List Use) : (afterUses uses).Sound :=
  foldlRecOn uses afterUse sound_empty fun _ sound use _ => sound.use use

end Generator

end FieldGraph
