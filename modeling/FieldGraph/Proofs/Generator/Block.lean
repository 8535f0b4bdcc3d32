import FieldGraph.Proofs.Generator.Reachable
import FieldGraph.Proofs.Library.Declared

/-! # Plans do not show in blocks

A block is the same with plans and without, if for each of its parts there is a plan and
what it copies or takes for constant is right in single precision. The part is then run
on the same inputs either way, and the plan replays the full run.
-/

namespace FieldGraph

open Fallible List Option Voxel

theorem Part.length_grid {α β : Type} (xs ys zs : List α) (f : α → α → α → β) :
    (grid xs ys zs f).length = xs.length * ys.length * zs.length := by
  simp [grid, Nat.mul_assoc]

theorem length_of_axisSamples {origin : Int} {stride : Nat} {voxels : List Nat}
    {samples : List Float32} (sampled : axisSamples origin stride voxels = .ok samples) :
    samples.length = voxels.length := by
  obtain ⟨_, -, rest⟩ := bind_eq_ok_iff.mp sampled
  obtain ⟨_, -, same⟩ := bind_eq_ok_iff.mp rest
  cases same
  exact length_map _

theorem BlockValues.add_congr {values : BlockValues} {mach other : Machine Float32}
    {places : List Nat} (same : ∀ addr ∈ values.map (·.1), other.buffer addr = mach.buffer addr) :
    values.add other places = values.add mach places := by
  refine map_congr_left fun ⟨addr, samples⟩ mem => ?_
  dsimp only
  rw [same addr (mem_map_of_mem mem)]

namespace BlockTask

variable {task : BlockTask} {part : Part}

/-- The analysis of a part gives a plan, and its steps are right about the full run: what
it copies or takes for constant is what the program computes in single precision. -/
def Trusts (task : BlockTask) (part : Part) : Prop := ∀ samples, task.samples part = .ok samples →
    ∃ ranges steps, task.program.ranges samples.box = .ok ranges ∧
      task.program.plan ranges task.addresses = .ok steps ∧
      ∀ start full : Machine Float32, start.Holds task.program samples.size samples.inputs →
        Machine.runSteps task.program task.program.allSteps start = (.ok (), full) →
          ∀ step ∈ steps, step.Right task.program full

/-- If the program reads distances, then there are some. -/
def Supplies (task : BlockTask) : Prop :=
  ∀ addr, (.sdf, addr) ∈ task.program.inputs → task.distances.isSome = true

theorem length_inputs (supplies : task.Supplies) {samples : PartSamples}
    (sampled : task.samples part = .ok samples) (axis : Coordinate) (addr : Nat)
    (mem : (axis, addr) ∈ task.program.inputs) : (samples.inputs axis).length = samples.size := by
  obtain ⟨xs, alongX, rest⟩ := bind_eq_ok_iff.mp sampled
  obtain ⟨ys, alongY, rest⟩ := bind_eq_ok_iff.mp rest
  obtain ⟨zs, alongZ, same⟩ := bind_eq_ok_iff.mp rest
  cases same
  cases axis with
  | x | y | z => exact Part.length_grid xs ys zs _
  | sdf =>
    obtain ⟨distances, found⟩ := isSome_iff_exists.mp (supplies addr mem)
    simp only [PartSamples.inputs, PartSamples.size, found, map_some, getD_some,
      length_map, Part.places, Part.length_grid, length_of_axisSamples alongX,
      length_of_axisSamples alongY, length_of_axisSamples alongZ]

theorem supplies_fill (serial : Nat) (prog : Program Float) (buffer : Buffer)
    (origin : Position) (detail : Nat) : (fill serial prog buffer origin detail).Supplies := by
  intro addr mem
  have present : (prog.inputAddress? .sdf).isSome = true :=
    lookup_isSome_iff.mpr ⟨(.sdf, addr), mem, beq_self_eq_true _⟩
  rw [fill, if_pos present]
  rfl

end BlockTask

namespace Generating

variable {gen after : Generator} {task : BlockTask} {part : Part} {β : Type}
  {samples : PartSamples} {steps : List (Step Float32)}

theorem completes_ofConversion_iff {result : Except ConversionError β} {value : β} :
    Completes (ofConversion result) gen value after ↔ result = .ok value ∧ gen = after := by
  rw [ofConversion, completes_ofExcept_iff]
  cases result <;> simp [Except.mapError]

theorem completes_ofFault_iff {result : Except Fault β} {value : β} :
    Completes (ofFault result) gen value after ↔ result = .ok value ∧ gen = after := by
  rw [ofFault, completes_ofExcept_iff]
  cases result <;> simp [Except.mapError]

theorem completes_partSteps_plain (plain : gen.optimized = false) :
    Completes (partSteps task samples) gen steps after ↔
      task.program.allSteps = steps ∧ gen = after := by
  rw [partSteps, completes_get_bind_iff, plain]
  exact completes_pure_iff

/-- Two generators, one without plans and one with them, can run the program of a task. -/
structure Alongside (task : BlockTask) (plain planned : Generator) : Prop where
  plain_mode : plain.optimized = false
  planned_mode : planned.optimized = true
  plain_serves : plain.machine.Serves task.serial task.program
  planned_serves : planned.machine.Serves task.serial task.program

variable {plain planned : Generator}

theorem runPart_transparent (formed : task.program.WellFormed) (supplies : task.Supplies)
    (trusts : task.Trusts part) (alongside : Alongside task plain planned)
    (completes : Completes (runPart task part) plain () after) :
    ∃ other, Completes (runPart task part) planned () other ∧ Alongside task after other ∧
      ∀ addr ∈ task.addresses, other.machine.buffer addr = after.machine.buffer addr := by
  obtain ⟨samples, state, converted, rest⟩ := completes_bind_iff.mp completes
  obtain ⟨sampled, rfl⟩ := completes_ofConversion_iff.mp converted
  obtain ⟨steps, state, chosen, ran⟩ := completes_bind_iff.mp rest
  obtain ⟨rfl, rfl⟩ := (completes_partSteps_plain alongside.plain_mode).mp chosen
  have pos := pos_of_completes_runProgram ran
  have lengths := BlockTask.length_inputs supplies sampled
  obtain ⟨start, loaded, runs⟩ := exists_loaded formed alongside.plain_serves pos lengths
  obtain ⟨full, run, rfl⟩ := (runs _ _).mp ran
  obtain ⟨ranges, plan, analyzed, found, right⟩ := trusts samples sampled
  -- The plan starts from the other machine, which holds the same.
  obtain ⟨otherStart, reloaded, replays⟩ :=
    exists_loaded formed alongside.planned_serves pos lengths
  obtain ⟨reached, replayed, changes, same⟩ := Program.plan_replays formed loaded reloaded run
    found (right start full loaded run)
  refine ⟨{ planned with machine := reached }, ?_, ⟨?_, ?_, ?_, ?_⟩, same⟩
  · refine completes_bind_iff.mpr
      ⟨samples, planned, completes_ofConversion_iff.mpr ⟨sampled, rfl⟩, ?_⟩
    refine completes_bind_iff.mpr ⟨plan, planned, ?_, (replays _ _).mpr ⟨reached, replayed, rfl⟩⟩
    rw [partSteps, completes_get_bind_iff, alongside.planned_mode]
    exact completes_bind_iff.mpr ⟨ranges, planned, completes_ofFault_iff.mpr ⟨analyzed, rfl⟩,
      completes_ofFault_iff.mpr ⟨found, rfl⟩⟩
  · exact alongside.plain_mode
  · exact alongside.planned_mode
  · exact (loaded.toReady.of_run formed
      (Machine.runSteps_allSteps formed loaded.length_eq run).1).serves _
  · exact (reloaded.toReady.of_run formed changes).serves _

theorem foldlM_transparent (formed : task.program.WellFormed) (supplies : task.Supplies)
    {parts : List Part} (trusts : ∀ part ∈ parts, task.Trusts part) {values filled : BlockValues}
    (addresses : values.map (·.1) = task.addresses) (alongside : Alongside task plain planned)
    (completes : Completes (parts.foldlM (addPart task) values) plain filled after) :
    ∃ other, Completes (parts.foldlM (addPart task) values) planned filled other := by
  induction parts generalizing values plain planned with
  | nil =>
    obtain ⟨rfl, rfl⟩ := completes_pure_iff.mp completes
    exact ⟨planned, rfl⟩
  | cons part parts ih =>
    rw [foldlM_cons] at completes ⊢
    obtain ⟨next, middle, first, rest⟩ := completes_bind_iff.mp completes
    obtain ⟨_, reached, ran, taken⟩ := completes_bind_iff.mp first
    rw [completes_get_bind_iff] at taken
    obtain ⟨rfl, rfl⟩ := completes_pure_iff.mp taken
    obtain ⟨other, replayed, further, same⟩ :=
      runPart_transparent formed supplies (trusts part mem_cons_self) alongside ran
    have equal : values.add other.machine (part.places task.extent) =
        values.add reached.machine (part.places task.extent) :=
      BlockValues.add_congr (addresses ▸ same)
    have kept : (values.add reached.machine (part.places task.extent)).map (·.1) =
        task.addresses := by
      rw [← addresses, BlockValues.add, List.map_map]
      rfl
    obtain ⟨final, completed⟩ :=
      ih (fun part mem => trusts part (mem_cons_of_mem _ mem)) kept further rest
    refine ⟨final, completes_bind_iff.mpr ⟨_, other, ?_, completed⟩⟩
    refine completes_bind_iff.mpr ⟨(), other, replayed, ?_⟩
    exact completes_pure_iff.mpr ⟨equal, rfl⟩

variable {buffer filled : Buffer} {origin : List (Number Float)} {detail : Number Float}
  {serial : Nat} {prog : Program Float} {place : Position} {level : Int}

theorem completes_block_iff (installed : gen.program = some (serial, prog))
    (placed : Position.ofNumbers origin = .ok place) (scaled : detail.truncate = .ok level) :
    Completes (block buffer origin detail) gen filled after ↔ ¬ level < 0 ∧
        if prog.blockOutputs.isEmpty = true then buffer = filled ∧ gen = after
        else ∃ values, Completes (blockValues (BlockTask.fill serial prog buffer place level.toNat)
          (gen.partExtent buffer.extent)) gen values after ∧
          buffer.writeBlock prog.blockOutputs values = filled := by
  rw [block, completes_get_bind_iff, installed]
  have positioned : Completes (position origin) gen place gen :=
    completes_ofExcept_iff.mpr ⟨placed, rfl⟩
  have truncated : Completes (ofConversion detail.truncate) gen level gen :=
    completes_ofConversion_iff.mpr ⟨scaled, rfl⟩
  rw [positioned.bind_iff, truncated.bind_iff]
  by_cases negative : level < 0
  · rw [if_pos negative, completes_bind_iff]
    constructor
    · rintro ⟨_, _, thrown, -⟩
      cases (Prod.mk.inj thrown).1
    · exact fun both => absurd negative both.1
  · rw [if_neg negative, and_iff_right negative]
    split
    · exact completes_pure_iff
    · rw [completes_bind_iff]
      constructor
      · rintro ⟨values, state, generated, written⟩
        obtain ⟨same, rfl⟩ := completes_pure_iff.mp written
        exact ⟨values, generated, same⟩
      · rintro ⟨values, generated, same⟩
        exact ⟨values, after, generated, completes_pure_iff.mpr ⟨same, rfl⟩⟩

/-- **Plans do not show in blocks.** Take any generator, after any history of uses, with
a program. Where every part of a block has a plan, and what the plan copies or takes for
constant is right in single precision, the block is the same with plans and without. -/
theorem block_transparent {program : Program Float} (uses : List Generator.Use)
    (installed : (Generator.afterUses uses).program = some (serial, program))
    (placed : Position.ofNumbers origin = .ok place) (scaled : detail.truncate = .ok level)
    (trusts : ∀ part ∈ Part.cover buffer.extent
      ((Generator.afterUses uses).partExtent buffer.extent),
        (BlockTask.fill serial program buffer place level.toNat).Trusts part)
    (completes : (block buffer origin detail).Completes
      { Generator.afterUses uses with optimized := false } filled after) :
    ∃ other, (block buffer origin detail).Completes
      { Generator.afterUses uses with optimized := true } filled other := by
  obtain ⟨wellFormed, -, serves⟩ :=
    (Generator.sound_afterUses uses).current serial program installed
  generalize Generator.afterUses uses = generator at *
  have plainly : ({ generator with optimized := false } : Generator).program =
      some (serial, program) := installed
  have planned : ({ generator with optimized := true } : Generator).program =
      some (serial, program) := installed
  obtain ⟨nonnegative, rest⟩ := (completes_block_iff plainly placed scaled).mp completes
  simp only [completes_block_iff planned placed scaled]
  split at rest
  · rename_i none
    refine ⟨{ generator with optimized := true }, nonnegative, ?_⟩
    rw [if_pos none]
    exact ⟨rest.1, rfl⟩
  · rename_i some
    obtain ⟨values, generated, written⟩ := rest
    have alongside : Alongside (BlockTask.fill serial program buffer place level.toNat)
        { generator with optimized := false } { generator with optimized := true } :=
      ⟨rfl, rfl, serves, serves⟩
    obtain ⟨other, same⟩ := foldlM_transparent wellFormed
      (BlockTask.supplies_fill serial program buffer place level.toNat) trusts
      (by rw [BlockValues.zeros, List.map_map]; exact List.map_id _) alongside generated
    refine ⟨other, nonnegative, ?_⟩
    rw [if_neg some]
    exact ⟨values, same, written⟩

/-- A field that is a noise at a fixed point. -/
def hazeField : List Library.Edit := [.newFunction "haze", .createNode 0 .constant none,
  .createNode 0 (.operation .noise2) none, .createNode 0 .outputSdf none,
  .connect 0 ⟨⟨1, 0⟩, ⟨2, 0⟩⟩, .connect 0 ⟨⟨1, 0⟩, ⟨2, 1⟩⟩, .connect 0 ⟨⟨2, 0⟩, ⟨3, 0⟩⟩]

/-- The program of the field. -/
def hazeProgram : Program Float where
  instructions := [{ operation := .noise2, inputs := [0, 0], outputs := [1]
                     params := [.noise (some ⟨0, { period := 64 }⟩)] }]
  outputs := [{ kind := .outputSdf, name := "sdf", address := 1, node := 3 }]
  bufferCount := 2
  constants := [(0, 0)]
  inputs := []
  ports := [(⟨1, 0⟩, 0), (⟨2, 0⟩, 1), (⟨3, 0⟩, 1)]
  expandedNodes := 2

/-- A buffer of two voxels. -/
def hazeBuffer : Buffer where
  extent := ⟨2, 1, 1⟩
  typeDepth := .bits8
  sdfDepth := .bits32
  types := #[.integer 0, .integer 0]
  distances := #[.real 0, .real 0]
  indices := #[.integer 0, .integer 0]
  weights := #[.integer 0, .integer 0]

theorem compile_hazeField : (Library.afterEdits hazeField).compile 0 false = .ok hazeProgram := by
  have parts : ((Library.afterEdits hazeField).expand 0 false).toOption.map
      (fun expn => (expn.nodes, expn.outputs, expn.topLevel.entries)) =
        some ([⟨1, .compute .noise2 [.noise (some ⟨0, { period := 64 }⟩)],
            [.constant 0, .constant 0], some 2⟩,
          ⟨2, .sink .outputSdf "sdf" [], [.port 1 0], some 3⟩], [2],
          [(1, [.constant 0]), (2, [.port 1 0]), (3, [.port 1 0])]) := by cbv
  obtain ⟨expn, found, same⟩ := map_eq_some_iff.mp parts
  obtain ⟨nodes, rest⟩ := Prod.mk.inj same
  obtain ⟨outputs, topLevel⟩ := Prod.mk.inj rest
  have expanded : (Library.afterEdits hazeField).expand 0 false = .ok expn := by
    cases result : (Library.afterEdits hazeField).expand 0 false with
    | error cause =>
      rw [result] at found
      cases found
    | ok other =>
      rw [result] at found
      rw [some.inj found]
  refine Library.compile_of_expand expanded ?_
  rw [Expansion.schedule, nodes, outputs, topLevel]
  with_unfolding_all rfl

theorem honest_haze (full : Machine Float32) :
    hazeProgram.Honest [.single 0, .between ValueNoise.lowest ValueNoise.highest] full := by
  refine ⟨?_, ?_, ?_⟩
  · intro axis addr listed
    cases listed
  · intro instr listed place result copied
    obtain rfl := mem_singleton.mp listed
    cases copied
  · intro known found instr listed values single
    obtain rfl := mem_singleton.mp listed
    cases single

theorem trusts_haze :
    (BlockTask.fill 0 hazeProgram hazeBuffer ⟨0, 0, 0⟩ 1).Trusts ⟨[0, 1], [0], [0]⟩ := by
  intro samples sampled
  have ranged : hazeProgram.ranges samples.box =
      .ok [.single 0, .between ValueNoise.lowest ValueNoise.highest] := rfl
  have planned : ∃ steps : List (Step Float32), hazeProgram.plan
      [.single 0, .between ValueNoise.lowest ValueNoise.highest] [1] = .ok steps :=
    ⟨_, by with_unfolding_all rfl⟩
  obtain ⟨steps, planned⟩ := planned
  refine ⟨_, steps, ranged, planned, fun start full loaded run => ?_⟩
  have pos : 0 < samples.size := by
    rw [← Except.ok.inj sampled]
    decide
  have formed := Library.wellFormed_of_compile compile_hazeField
  obtain ⟨others, found, right⟩ := Program.plan_right formed pos loaded run (honest_haze full) [1]
  cases planned.symm.trans found
  exact right

/-- A plan takes the noise for constant. -/
theorem block_transparent_haze :
    let generator := Generator.afterUses [.compile (Library.afterEdits hazeField) 0 false]
    let haze := block hazeBuffer [.integer 0, .integer 0, .integer 0] (.integer 1)
    ∃ filled plain planned, haze.Completes { generator with optimized := false } filled plain ∧
      haze.Completes { generator with optimized := true } filled planned := by
  intro generator haze
  have reached : generator = { program := some (0, hazeProgram), nextSerial := 1
                               verdict := some (.compiled 2) } := by
    simp only [generator, Generator.afterUses, Generator.afterUse, Generator.compile,
      Library.judge, foldl_cons, foldl_nil, compile_hazeField]
    rfl
  have installed : generator.program = some (0, hazeProgram) := by rw [reached]
  have trusts : ∀ part ∈ Part.cover hazeBuffer.extent (generator.partExtent hazeBuffer.extent),
      (BlockTask.fill 0 hazeProgram hazeBuffer ⟨0, 0, 0⟩ (1 : Int).toNat).Trusts part := by
    intro part member
    rw [reached] at member
    rw [mem_singleton.mp member]
    exact trusts_haze
  have plainly : ∃ filled plain, haze.Completes { generator with optimized := false } filled
      plain := by
    rw [reached]
    exact ⟨_, _, by with_unfolding_all rfl⟩
  obtain ⟨filled, plain, completes⟩ := plainly
  obtain ⟨planned, same⟩ := block_transparent _ installed rfl rfl trusts completes
  exact ⟨filled, plain, planned, completes, same⟩

end Generating

end FieldGraph
