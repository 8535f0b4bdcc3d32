import FieldGraph.Proofs.Generator.Block
import FieldGraph.Proofs.Generator.Parts
import FieldGraph.Proofs.Run.Elementwise

/-! # Values at points

A part of a block is run at many points at once, the points of its voxels. Since runs are
elementwise, what it leaves in the buffers are the values of the program at these points.
-/

namespace FieldGraph

open BlockTask Fallible List Part Voxel

/-! ## Values at points -/

namespace Program

/-- The value that a program leaves in a buffer when it is run at one point only, by a
generator that was never used. -/
def valueAt? (prog : Program Float) (point : Coordinate → Float32) (addr : Nat) : Option Float32 :=
  match (Generating.runProgram 0 prog 1 (fun axis => .ok [point axis])
      prog.allSteps).outcome {} with
  | (.ok (), after) => (after.machine.buffer addr).head?
  | (.error _, _) => none

variable {prog : Program Float} {point : Point} {addr : Nat} {value : Float32}

theorem valueAt?_eq_some_iff : prog.valueAt? point addr = some value ↔
    ∃ after, (Generating.runProgram 0 prog 1 (fun axis => .ok [point axis])
      prog.allSteps).Completes {} () after ∧ (after.machine.buffer addr).head? = some value := by
  unfold valueAt? Completes
  cases (Generating.runProgram 0 prog 1 (fun axis => .ok [point axis])
      prog.allSteps).outcome {} with
  | mk result after =>
    cases result with
    | error cause => simp
    | ok done => simp

end Program

namespace Machine

variable {prog : Program Float} {start full : Machine Float32} {point : Point}
  {addr : Nat} {value : Float32}

theorem exists_holds_point (formed : prog.WellFormed) (point : Point) :
    ∃ fresh : Machine Float32, fresh.Holds prog 1 (fun axis => [point axis]) ∧
      ∀ addr value, prog.valueAt? point addr = some value ↔
        ∃ full, runSteps prog prog.allSteps fresh = (.ok (), full) ∧
          (full.buffer addr).head? = some value := by
  have serves : ({} : Generator).machine.Serves 0 prog := by
    intro loaded
    cases loaded
  have lengths : ∀ axis addr, (axis, addr) ∈ prog.inputs →
      [point axis].length = 1 := fun _ _ _ => rfl
  obtain ⟨fresh, held, runs⟩ := Generating.exists_loaded formed serves Nat.one_pos lengths
  refine ⟨fresh, held, fun addr value => ?_⟩
  rw [Program.valueAt?_eq_some_iff]
  simp only [runs]
  constructor
  · rintro ⟨_, ⟨mach, ran, rfl⟩, left⟩
    exact ⟨mach, ran, left⟩
  · rintro ⟨mach, ran, left⟩
    exact ⟨_, ⟨mach, ran, rfl⟩, left⟩

theorem Holds.valueAt?_iff (held : start.Holds prog 1 fun axis => [point axis])
    (formed : prog.WellFormed) (inside : addr < prog.bufferCount) :
    prog.valueAt? point addr = some value ↔
      ∃ full, runSteps prog prog.allSteps start = (.ok (), full) ∧
        (full.buffer addr).head? = some value := by
  obtain ⟨fresh, unused, values⟩ := exists_holds_point formed point
  rw [values]
  constructor
  · rintro ⟨mach, ran, left⟩
    obtain ⟨same, again, equal⟩ := unused.run_eq held formed ran
    exact ⟨same, again, by rw [equal addr inside, left]⟩
  · rintro ⟨mach, ran, left⟩
    obtain ⟨same, again, equal⟩ := held.run_eq unused formed ran
    exact ⟨same, again, by rw [equal addr inside, left]⟩

/-- **Runs give the values of their points.** -/
theorem Holds.values {points : List (Coordinate → Float32)}
    (held : start.Holds prog points.length fun axis => points.map (· axis))
    (formed : prog.WellFormed) (run : runSteps prog prog.allSteps start = (.ok (), full))
    (inside : addr < prog.bufferCount) :
    Forall₂ (fun point value => prog.valueAt? point addr = some value) points
      (full.buffer addr) := by
  have length := held.length_buffer formed (fun _ _ _ => length_map _) run inside
  rw [forall₂_iff_get]
  refine ⟨length.symm, fun index first second => ?_⟩
  have alone := held.sample formed first
  have here (axis : Coordinate) :
      (points.map (· axis)).getD index Arithmetic.zero = points[index] axis := by
    simp [first]
  simp only [here] at alone
  apply (alone.valueAt?_iff formed inside).mpr
  refine ⟨full.sample index, runSteps_sample _ run (held.size_eq ▸ first), ?_⟩
  have there : addr < full.buffers.length := by
    rw [(runSteps_allSteps formed held.length_eq run).1.length_eq, held.length_eq]
    exact inside
  rw [full.buffer_sample index there]
  simp [second]

theorem exists_runSteps_of_valueAt? (formed : prog.WellFormed)
    (known : prog.valueAt? point addr = some value) (mach : Machine Float32) :
    ∃ full, runSteps prog prog.allSteps mach = (.ok (), full) := by
  obtain ⟨fresh, unused, values⟩ := exists_holds_point formed point
  obtain ⟨full, ran, -⟩ := (values _ _).mp known
  obtain ⟨changes, satisfied⟩ := runSteps_allSteps formed unused.length_eq ran
  apply exists_runSteps
  intro instr mem args length
  have pos : 0 < full.size := by
    rw [changes.size_eq, unused.size_eq]
    exact Nat.one_pos
  exact (satisfied instr mem).apply_ok pos length

end Machine

/-! ## Points of voxels -/

/-- The coordinate of a voxel along an axis. -/
def axisSample (origin : Int) (stride voxel : Nat) : Except ConversionError Float32 := do
  let step ← sampleOfNumber (.integer stride)
  let start ← sampleOfNumber (.integer origin)
  return start + Float32.ofNat voxel * step

/-- The point of a voxel: its coordinates in single precision, and the distance that a
buffer has in its cell. -/
def Voxel.Buffer.pointAt (buffer : Buffer) (origin : Position) (detail x y z : Nat) :
    Except ConversionError (Coordinate → Float32) := do
  let first ← axisSample origin.x (Nat.pow 2 detail) x
  let second ← axisSample origin.y (Nat.pow 2 detail) y
  let third ← axisSample origin.z (Nat.pow 2 detail) z
  return fun
    | .x => first
    | .y => second
    | .z => third
    | .sdf => (buffer.getDistances.map Float.toFloat32).getD (buffer.extent.place x y z) 0

section Sampling

variable {origin : Int} {stride : Nat} {voxels : List Nat} {samples : List Float32}

theorem exists_of_axisSamples (sampled : axisSamples origin stride voxels = .ok samples) :
    ∃ axis : Nat → Float32, voxels.map axis = samples ∧
      ∀ voxel, axisSample origin stride voxel = .ok (axis voxel) := by
  obtain ⟨step, stepped, rest⟩ := bind_eq_ok_iff.mp sampled
  obtain ⟨start, started, same⟩ := bind_eq_ok_iff.mp rest
  refine ⟨fun voxel => start + Float32.ofNat voxel * step, Except.ok.inj same, fun voxel => ?_⟩
  exact bind_eq_ok_iff.mpr ⟨step, stepped, bind_eq_ok_iff.mpr ⟨start, started, rfl⟩⟩

theorem exists_axisSamples {voxel : Nat} {sample : Float32}
    (sampled : axisSample origin stride voxel = .ok sample) (voxels : List Nat) :
    ∃ samples, axisSamples origin stride voxels = .ok samples := by
  obtain ⟨step, stepped, rest⟩ := bind_eq_ok_iff.mp sampled
  obtain ⟨start, started, -⟩ := bind_eq_ok_iff.mp rest
  exact ⟨_, bind_eq_ok_iff.mpr ⟨step, stepped, bind_eq_ok_iff.mpr ⟨start, started, rfl⟩⟩⟩

end Sampling

namespace BlockTask

variable {serial : Nat} {prog : Program Float} {buffer : Buffer} {origin : Position}
  {detail : Nat} {part : Part} {samples : PartSamples}

theorem exists_of_samples
    (sampled : (fill serial prog buffer origin detail).samples part = .ok samples) :
    ∃ point : Nat × Nat × Nat → Coordinate → Float32,
      (∀ x y z, buffer.pointAt origin detail x y z = .ok (point (x, y, z))) ∧
      samples.size = part.voxels.length ∧
      ∀ axis addr, (axis, addr) ∈ prog.inputs →
        samples.inputs axis = (part.voxels.map point).map (· axis) := by
  obtain ⟨xs, alongX, rest⟩ := bind_eq_ok_iff.mp sampled
  obtain ⟨ys, alongY, rest⟩ := bind_eq_ok_iff.mp rest
  obtain ⟨zs, alongZ, same⟩ := bind_eq_ok_iff.mp rest
  cases same
  obtain ⟨first, rfl, here⟩ := exists_of_axisSamples alongX
  obtain ⟨second, rfl, there⟩ := exists_of_axisSamples alongY
  obtain ⟨third, rfl, everywhere⟩ := exists_of_axisSamples alongZ
  refine ⟨fun voxel axis => match axis with
    | .x => first voxel.1
    | .y => second voxel.2.1
    | .z => third voxel.2.2
    | .sdf => (buffer.getDistances.map Float.toFloat32).getD
        (buffer.extent.place voxel.1 voxel.2.1 voxel.2.2) 0, fun x y z => ?_, ?_, ?_⟩
  · refine bind_eq_ok_iff.mpr ⟨_, here x, bind_eq_ok_iff.mpr ⟨_, there y, ?_⟩⟩
    exact bind_eq_ok_iff.mpr ⟨_, everywhere z, rfl⟩
  · simp [PartSamples.size, Part.voxels, length_grid]
  · intro axis addr mem
    rw [map_map]
    cases axis with
    | x | y | z =>
      simp only [PartSamples.inputs, grid_map, grid_eq_map]
      rfl
    | sdf =>
      have present : (prog.inputAddress? .sdf).isSome = true :=
        lookup_isSome_iff.mpr ⟨(.sdf, addr), mem, beq_self_eq_true _⟩
      have found : (fill serial prog buffer origin detail).distances =
          some (buffer.getDistances.map Float.toFloat32) := if_pos present
      simp only [found, Part.places,
        grid_eq_map, map_map]
      rfl

end BlockTask

namespace Generating

variable {gen after : Generator} {serial : Nat} {prog : Program Float} {buffer : Buffer}
  {origin : Position} {detail : Nat} {part : Part}

/-- A generator without plans can run a program. -/
structure Plain (serial : Nat) (prog : Program Float) (gen : Generator) : Prop where
  mode : gen.optimized = false
  serves : gen.machine.Serves serial prog

theorem values_of_runPart (formed : prog.WellFormed) (plain : Plain serial prog gen)
    (completes : Completes (runPart (.fill serial prog buffer origin detail) part) gen () after) :
    Plain serial prog after ∧ ∀ addr < prog.bufferCount, Forall₂ (fun voxel value => ∃ point,
          buffer.pointAt origin detail voxel.1 voxel.2.1 voxel.2.2 = .ok point ∧
          prog.valueAt? point addr = some value)
        part.voxels (after.machine.buffer addr) := by
  obtain ⟨samples, state, converted, rest⟩ := completes_bind_iff.mp completes
  obtain ⟨sampled, rfl⟩ := completes_ofConversion_iff.mp converted
  obtain ⟨steps, state, chosen, ran⟩ := completes_bind_iff.mp rest
  obtain ⟨rfl, rfl⟩ := (completes_partSteps_plain plain.mode).mp chosen
  have pos := pos_of_completes_runProgram ran
  have lengths := length_inputs
    (supplies_fill serial prog buffer origin detail) sampled
  obtain ⟨start, loaded, runs⟩ := exists_loaded formed plain.serves pos lengths
  obtain ⟨full, run, rfl⟩ := (runs _ _).mp ran
  have changes := (Machine.runSteps_allSteps formed loaded.length_eq run).1
  refine ⟨⟨plain.mode, (loaded.toReady.of_run formed changes).serves _⟩, ?_⟩
  intro addr inside
  obtain ⟨point, placed, size, inputs⟩ := exists_of_samples sampled
  have held : start.Holds prog (part.voxels.map point).length
      fun axis => (part.voxels.map point).map (· axis) := by
    rw [length_map, ← size]
    refine ⟨loaded.toReady, fun axis place mem => ?_⟩
    rw [← inputs axis place mem]
    exact loaded.inputs axis place mem
  have values := held.values formed run inside
  rw [forall₂_map_left_iff] at values
  exact values.imp fun voxel value valued => ⟨point voxel, placed _ _ _, valued⟩

theorem exists_completes_runPart (formed : prog.WellFormed)
    (plain : Plain serial prog gen) (nonempty : part.voxels ≠ []) {x y z : Nat}
    {point : Point} (placed : buffer.pointAt origin detail x y z = .ok point)
    {addr : Nat} {value : Float32} (known : prog.valueAt? point addr = some value) :
    ∃ after, Completes (runPart (.fill serial prog buffer origin detail) part) gen ()
      after := by
  obtain ⟨first, here, rest⟩ := bind_eq_ok_iff.mp placed
  obtain ⟨second, there, rest⟩ := bind_eq_ok_iff.mp rest
  obtain ⟨third, everywhere, -⟩ := bind_eq_ok_iff.mp rest
  obtain ⟨xs, alongX⟩ := exists_axisSamples here part.xs
  obtain ⟨ys, alongY⟩ := exists_axisSamples there part.ys
  obtain ⟨zs, alongZ⟩ := exists_axisSamples everywhere part.zs
  obtain ⟨samples, sampled⟩ : ∃ samples,
      (BlockTask.fill serial prog buffer origin detail).samples part = .ok samples :=
    ⟨_, bind_eq_ok_iff.mpr ⟨xs, alongX, bind_eq_ok_iff.mpr ⟨ys, alongY,
      bind_eq_ok_iff.mpr ⟨zs, alongZ, rfl⟩⟩⟩⟩
  have pos : 0 < samples.size := by
    obtain ⟨-, -, size, -⟩ := exists_of_samples sampled
    rw [size]
    exact length_pos_of_ne_nil nonempty
  have lengths := length_inputs
    (supplies_fill serial prog buffer origin detail) sampled
  obtain ⟨start, -, runs⟩ := exists_loaded formed plain.serves pos lengths
  obtain ⟨full, run⟩ := Machine.exists_runSteps_of_valueAt? formed known start
  refine ⟨{ gen with machine := full }, completes_bind_iff.mpr
    ⟨samples, gen, completes_ofConversion_iff.mpr ⟨sampled, rfl⟩, ?_⟩⟩
  refine completes_bind_iff.mpr ⟨_, gen, (completes_partSteps_plain plain.mode).mpr ⟨rfl, rfl⟩, ?_⟩
  exact (runs _ _).mpr ⟨full, run, rfl⟩

end Generating

end FieldGraph
