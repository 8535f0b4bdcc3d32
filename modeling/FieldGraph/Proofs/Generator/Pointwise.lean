import FieldGraph.Proofs.Generator.Points
import FieldGraph.Proofs.Single

/-! # Blocks are pointwise

Without plans a block has, for every voxel, the value of the program at the point of the
voxel, whether the block is generated in parts or not and however large the parts are.
-/

namespace FieldGraph

open Fallible List Part Single Voxel

/-! ## Part by part -/

namespace Generating

variable {gen after : Generator} {serial : Nat} {program : Program Float} {buffer : Buffer}
  {origin : Position} {detail : Nat} {addr : Nat} {output : Output} {point : Point}
  {parts : List Part} {channel : Channel}

/-- The value of a program in the cell of a voxel. -/
def CellValue (program : Program Float) (buffer : Buffer) (origin : Position) (detail : Nat)
    (addr cell : Nat) (value : Float32) : Prop :=
  ∃ x y z, buffer.extent.Contains x y z ∧ buffer.extent.place x y z = cell ∧
    ∃ point, buffer.pointAt origin detail x y z = .ok point ∧
      program.valueAt? point addr = some value

theorem completes_addPart_iff {task : BlockTask} {part : Part} {values next : BlockValues} :
    Completes (addPart task values part) gen next after ↔
      Completes (runPart task part) gen () after ∧
        values.add after.machine (part.places task.extent) = next := by
  rw [addPart, completes_bind_iff]
  simp only [completes_get_bind_iff, completes_pure_iff]
  constructor
  · rintro ⟨_, reached, ran, taken, rfl⟩
    exact ⟨ran, taken⟩
  · rintro ⟨ran, taken⟩
    exact ⟨(), after, ran, taken, rfl⟩

variable (formed : program.WellFormed)

include formed

theorem cellValues_of_runPart (plain : Plain serial program gen) {part : Part}
    (inside : ∀ x y z, (x, y, z) ∈ part.voxels → buffer.extent.Contains x y z)
    (completes : Completes (runPart (.fill serial program buffer origin detail) part) gen () after)
    (bounded : addr < program.bufferCount) :
    Forall₂ (CellValue program buffer origin detail addr) (part.places buffer.extent)
      (after.machine.buffer addr) := by
  have contained : ∀ voxel ∈ part.voxels,
      buffer.extent.Contains voxel.1 voxel.2.1 voxel.2.2 := fun voxel mem =>
    inside voxel.1 voxel.2.1 voxel.2.2 mem
  have values := (values_of_runPart formed plain completes).2 addr bounded
  rw [Part.places, grid_eq_map, forall₂_map_left_iff]
  have both := (forall₂_and_left _ _).mpr ⟨contained, values⟩
  exact both.imp fun voxel value valued => ⟨_, _, _, valued.1, rfl, valued.2⟩

theorem settled_of_foldlM
    (inside : ∀ part ∈ parts, ∀ x y z, (x, y, z) ∈ part.voxels → buffer.extent.Contains x y z)
    {values filled : BlockValues} {addresses : List Nat} {done : Nat → Prop}
    (bounded : ∀ addr ∈ addresses, addr < program.bufferCount)
    (settled : values.Settled addresses buffer.extent.volume
      (CellValue program buffer origin detail) done)
    (plain : Plain serial program gen)
    (completes : Completes
      (parts.foldlM (addPart (.fill serial program buffer origin detail)) values)
      gen filled after) :
    filled.Settled addresses buffer.extent.volume (CellValue program buffer origin detail)
      fun cell => (∃ part ∈ parts, cell ∈ part.places buffer.extent) ∨ done cell := by
  induction parts generalizing values gen done with
  | nil =>
    obtain ⟨rfl, -⟩ := completes_pure_iff.mp completes
    simpa using settled
  | cons part parts ih =>
    obtain ⟨next, reached, first, rest⟩ := completes_bind_iff.mp completes
    obtain ⟨ran, rfl⟩ := completes_addPart_iff.mp first
    have further := (values_of_runPart formed plain ran).1
    have added := settled.add fun addr asked =>
      cellValues_of_runPart formed plain (inside part mem_cons_self) ran (bounded addr asked)
    have all := ih (fun part mem => inside part (mem_cons_of_mem _ mem)) added further rest
    apply all.mono
    intro cell either
    rcases either with ⟨other, mem, here⟩ | before
    · rcases mem_cons.mp mem with rfl | later
      · exact .inr (.inl here)
      · exact .inl ⟨other, later, here⟩
    · exact .inr (.inr before)

theorem exists_completes_foldlM
    (inside : ∀ part ∈ parts, part.voxels ≠ [] ∧
      ∀ x y z, (x, y, z) ∈ part.voxels → buffer.extent.Contains x y z)
    (known : ∀ x y z, buffer.extent.Contains x y z → ∃ point value,
      buffer.pointAt origin detail x y z = .ok point ∧ program.valueAt? point addr = some value)
    (values : BlockValues) (plain : Plain serial program gen) :
    ∃ filled after, Completes
      (parts.foldlM (addPart (.fill serial program buffer origin detail)) values)
      gen filled after := by
  induction parts generalizing values gen with
  | nil => exact ⟨values, gen, rfl⟩
  | cons part parts ih =>
    obtain ⟨nonempty, contained⟩ := inside part mem_cons_self
    obtain ⟨⟨x, y, z⟩, here⟩ := exists_mem_of_ne_nil _ nonempty
    obtain ⟨point, value, placed, valued⟩ := known x y z (contained x y z here)
    obtain ⟨reached, ran⟩ := exists_completes_runPart formed plain nonempty placed valued
    obtain ⟨further, -⟩ := values_of_runPart formed plain ran
    obtain ⟨filled, after, completed⟩ := ih (fun part mem => inside part (mem_cons_of_mem _ mem))
        (values.add reached.machine (part.places buffer.extent)) further
    refine ⟨filled, after, ?_⟩
    apply completes_bind_iff.mpr
    exact ⟨_, reached, completes_addPart_iff.mpr ⟨ran, rfl⟩, completed⟩

end Generating

/-! ## Blocks -/

/-- The values of a block are those of the program at the points of the voxels. -/
structure BlockValues.Pointwise (values : BlockValues) (program : Program Float) (buffer : Buffer)
    (origin : Position) (detail : Nat) : Prop where
  addresses_eq : values.map (·.1) = distinct (program.blockOutputs.map (·.address))
  size_eq : ∀ entry ∈ values, entry.2.size = buffer.extent.volume
  value_eq : ∀ entry ∈ values, ∀ x y z, buffer.extent.Contains x y z →
    ∃ point, buffer.pointAt origin detail x y z = .ok point ∧
      program.valueAt? point entry.1 = some (entry.2.getD (buffer.extent.place x y z) 0)

namespace BlockValues.Pointwise

variable {values others : BlockValues} {program : Program Float} {buffer : Buffer}
  {origin : Position} {detail : Nat} {output : Output}

variable (pointwise : values.Pointwise program buffer origin detail)

include pointwise

theorem unique (alike : others.Pointwise program buffer origin detail) : values = others := by
  have lengths : values.length = others.length := by
    have same := congrArg List.length (pointwise.addresses_eq.trans alike.addresses_eq.symm)
    rwa [length_map, length_map] at same
  apply ext_getElem lengths
  intro index first second
  have addr : values[index].1 = others[index].1 := by
    have same := pointwise.addresses_eq.trans alike.addresses_eq.symm
    have here := congrArg (fun list => list[index]?) same
    simpa [first, second] using here
  have here := getElem_mem first
  have there := getElem_mem second
  refine Prod.ext addr (Array.ext ?_ fun cell small _ => ?_)
  · rw [pointwise.size_eq _ here, alike.size_eq _ there]
  · rw [pointwise.size_eq _ here] at small
    obtain ⟨x, y, z, inside, rfl⟩ := Extent.exists_place small
    obtain ⟨point, placed, valued⟩ := pointwise.value_eq _ here x y z inside
    obtain ⟨other, again, valuedToo⟩ := alike.value_eq _ there x y z inside
    cases placed.symm.trans again
    rw [addr, valuedToo] at valued
    simpa [Array.getD_eq_getD_getElem?, *] using (Option.some.inj valued).symm

theorem exists_samplesAt (listed : output ∈ program.blockOutputs) :
    ∃ entry ∈ values, entry.1 = output.address ∧ values.samplesAt output.address = entry.2 := by
  have asked : output.address ∈ values.map (·.1) := by
    rw [pointwise.addresses_eq, mem_distinct]
    exact mem_map_of_mem listed
  obtain ⟨entry, mem, same⟩ := mem_map.mp asked
  have present : (values.lookup output.address).isSome = true :=
    lookup_isSome_iff.mpr ⟨entry, mem, beq_iff_eq.mpr same.symm⟩
  obtain ⟨samples, found⟩ := Option.isSome_iff_exists.mp present
  obtain ⟨before, after, split, -⟩ := lookup_eq_some_iff.mp found
  refine ⟨(output.address, samples), by simp [split], rfl, ?_⟩
  rw [samplesAt, found]
  rfl

end BlockValues.Pointwise

namespace Generating

variable {gen after : Generator} {serial : Nat} {program : Program Float} {buffer : Buffer}
  {place : Position} {addr : Nat} {channel : Channel} {output : Output}

section

variable (formed : program.WellFormed)

include formed

theorem bounded_blockOutputs (asked : addr ∈ distinct (program.blockOutputs.map (·.address))) :
    addr < program.bufferCount := by
  rw [mem_distinct] at asked
  obtain ⟨output, listed, rfl⟩ := mem_map.mp asked
  exact formed.outputs_inside output (mem_of_mem_filter listed)

theorem pointwise_of_blockValues (plain : Plain serial program gen) {detail size : Nat}
    (pos : ∀ x y z, buffer.extent.Contains x y z → 0 < size) {values : BlockValues}
    (completes : Completes (blockValues (.fill serial program buffer place detail) size) gen
      values after) :
    values.Pointwise program buffer place detail := by
  have settled := settled_of_foldlM formed (fun part mem => (contains_of_mem_cover mem).2)
    (fun addr asked => bounded_blockOutputs formed asked)
    (BlockValues.settled_zeros _ _ _) plain completes
  refine ⟨settled.addresses_eq, settled.size_eq, fun entry mem x y z inside => ?_⟩
  obtain ⟨part, listed, here⟩ := exists_part (pos x y z inside) inside
  have cell : buffer.extent.place x y z ∈ part.places buffer.extent := by
    rw [Part.places, grid_eq_map]
    exact mem_map_of_mem here
  obtain ⟨u, v, w, contained, same, valued⟩ := settled.right entry mem _
    (Extent.place_lt inside) (.inl ⟨part, listed, cell⟩)
  obtain ⟨rfl, rfl, rfl⟩ := Extent.place_inj contained inside same
  exact valued

/-- **Values of blocks are pointwise.** The size of the parts does not show. -/
theorem completes_blockValues_iff (plain : Plain serial program gen) {detail size : Nat}
    (pos : ∀ x y z, buffer.extent.Contains x y z → 0 < size) (outputs : program.blockOutputs ≠ [])
    {values : BlockValues} :
    (∃ after, Completes (blockValues (.fill serial program buffer place detail) size) gen
      values after) ↔ values.Pointwise program buffer place detail := by
  constructor
  · rintro ⟨after, completes⟩
    exact pointwise_of_blockValues formed plain pos completes
  · intro pointwise
    obtain ⟨output, listed⟩ := exists_mem_of_ne_nil _ outputs
    obtain ⟨entry, mem, -⟩ := pointwise.exists_samplesAt listed
    have known : ∀ x y z, buffer.extent.Contains x y z → ∃ point value,
        buffer.pointAt place detail x y z = .ok point ∧
          program.valueAt? point entry.1 = some value := by
      intro x y z inside
      obtain ⟨point, placed, valued⟩ := pointwise.value_eq entry mem x y z inside
      exact ⟨point, _, placed, valued⟩
    obtain ⟨filled, after, completes⟩ := exists_completes_foldlM formed
      (fun part mem => contains_of_mem_cover mem) known
      (BlockValues.zeros (distinct (program.blockOutputs.map (·.address))) buffer.extent.volume)
      plain
    have same := pointwise.unique (pointwise_of_blockValues formed plain pos completes)
    exact ⟨after, same ▸ completes⟩

end

/-! ## Single values -/

/-- The output that a channel is generated from. -/
def channelOutput? (program : Program Float) : Channel → Option Output
  | .sdf => program.output? .outputSdf
  | .type => program.output? .outputType
  | .indices | .weights => none

theorem mem_blockOutputs (found : channelOutput? program channel = some output) :
    output ∈ program.blockOutputs := by
  cases channel with
  | sdf | type =>
    have listed := mem_of_find?_eq_some found
    have fits := find?_some found
    rw [Bool.and_eq_true, beq_iff_eq] at fits
    refine mem_filter.mpr ⟨listed, ?_⟩
    rw [fits.1]
    decide
  | indices | weights => cases found

theorem samplesOf_integer {n : Int} (bounded : n.natAbs ≤ 2 ^ 24) :
    samplesOf [.integer n] = .ok [Float32.ofInt n] := by
  have words : fitWords [n] = true := by
    simp [fitWords]
    omega
  change (if fitWords [n] = true then Except.ok ([n].map Float32.ofInt) else _) = _
  rw [if_pos words]
  rfl

/-- A position that single precision can tell from all others. -/
structure Small (position : Position) : Prop where
  first : position.x.natAbs ≤ 2 ^ 24
  second : position.y.natAbs ≤ 2 ^ 24
  third : position.z.natAbs ≤ 2 ^ 24

/-- A point has the coordinates of a position, and any distance. -/
structure Locates (position : Position) (point : Coordinate → Float32) : Prop where
  alongX : point .x = Float32.ofInt position.x
  alongY : point .y = Float32.ofInt position.y
  alongZ : point .z = Float32.ofInt position.z

variable {position : Position} {point : Coordinate → Float32}

theorem exists_inputsAt (small : Small position) (locates : Locates position point) :
    ∃ given : Coordinate → Float32, inputsAt position = (fun axis => .ok [given axis]) ∧
      ∀ axis, axis ≠ .sdf → given axis = point axis := by
  refine ⟨fun axis => if axis = .sdf then 0 else point axis, ?_, ?_⟩
  · funext axis
    cases axis with
    | x => simp [inputsAt, samplesOf_integer small.first, locates.alongX]
    | y => simp [inputsAt, samplesOf_integer small.second, locates.alongY]
    | z => simp [inputsAt, samplesOf_integer small.third, locates.alongZ]
    | sdf => rfl
  · intro axis other
    exact if_neg other

theorem exists_completes_runProgram (formed : program.WellFormed)
    (serves : gen.machine.Serves serial program) (unread : program.inputAddress? .sdf = none)
    (small : Small position) (locates : Locates position point)
    (inside : addr < program.bufferCount) {value : Float32}
    (known : program.valueAt? point addr = some value) : ∃ after,
    Completes (runProgram serial program 1 (inputsAt position) program.allSteps) gen () after ∧
    (after.machine.buffer addr).head? = some value := by
  obtain ⟨given, same, equal⟩ := exists_inputsAt small locates
  have lengths : ∀ axis addr, (axis, addr) ∈ program.inputs →
      [given axis].length = 1 := fun _ _ _ => rfl
  obtain ⟨start, held, runs⟩ := exists_loaded formed serves Nat.one_pos lengths
  have alike : start.Holds program 1 fun axis => [point axis] := by
    refine ⟨held.toReady, fun axis addr mem => ?_⟩
    have read : axis ≠ .sdf := by
      rintro rfl
      rw [formed.inputAddress? mem] at unread
      cases unread
    rw [held.inputs axis addr mem, equal axis read]
  obtain ⟨full, ran, left⟩ := (alike.valueAt?_iff formed inside).mp known
  rw [same]
  exact ⟨_, (runs _ _).mpr ⟨full, ran, rfl⟩, left⟩

theorem exists_completes_single (formed : program.WellFormed)
    (installed : gen.program = some (serial, program)) (serves : gen.machine.Serves serial program)
    (unread : program.inputAddress? .sdf = none)
    (found : channelOutput? program channel = some output)
    (small : Small position) (locates : Locates position point) {value : Float32}
    (known : program.valueAt? point output.address = some value) :
    ∃ after, Completes
      (single [.integer position.x, .integer position.y, .integer position.z] channel) gen
      value after := by
  have inside := formed.outputs_inside output (mem_of_mem_filter (mem_blockOutputs found))
  obtain ⟨after, completed, stored⟩ :=
    exists_completes_runProgram formed serves unread small locates inside known
  obtain ⟨kind, chosen, listed⟩ : ∃ kind, Completes (channelKind channel) gen kind gen ∧
      program.output? kind = some output := by
    cases channel with
    | sdf | type => exact ⟨_, rfl, found⟩
    | indices | weights => cases found
  have positioned : Completes
      (Generating.position [.integer position.x, .integer position.y, .integer position.z])
      gen position gen := rfl
  refine ⟨after, ?_⟩
  rw [single, completes_get_bind_iff, installed]
  rw [chosen.bind_iff, positioned.bind_iff, completed.bind_iff, listed]
  refine completes_pure_iff.mpr ⟨?_, rfl⟩
  rw [headD_eq_head?_getD, stored]
  rfl

/-! ## Blocks and single values -/

/-- A coordinate is an integer of single precision, and so is all it is computed from. -/
structure Exact (origin : Int) (offset : Nat) : Prop where
  near : origin.natAbs ≤ 2 ^ 24
  short : offset ≤ 2 ^ 24
  inside : (origin + offset).natAbs ≤ 2 ^ 24

theorem Exact.axisSample_eq {origin : Int} {voxel detail : Nat} (moderate : detail < 128)
    (exact : Exact origin (voxel * 2 ^ detail)) :
    axisSample origin (Nat.pow 2 detail) voxel =
      .ok (Float32.ofInt (origin + (voxel * 2 ^ detail : Nat))) := by
  refine bind_eq_ok_iff.mpr ⟨_, sampleOfNumber_stride moderate, ?_⟩
  refine bind_eq_ok_iff.mpr ⟨_, sampleOfNumber_integer exact.near, ?_⟩
  exact congrArg Except.ok (origin_add_offset moderate exact.near exact.short exact.inside)

theorem exists_pointAt (buffer : Buffer) {detail x y z : Nat} (moderate : detail < 128)
    (first : Exact place.x (x * 2 ^ detail)) (second : Exact place.y (y * 2 ^ detail))
    (third : Exact place.z (z * 2 ^ detail)) :
    ∃ point, buffer.pointAt place detail x y z = .ok point ∧
      Locates ⟨place.x + (x * 2 ^ detail : Nat), place.y + (y * 2 ^ detail : Nat),
        place.z + (z * 2 ^ detail : Nat)⟩ point := by
  have placed : buffer.pointAt place detail x y z = .ok _ :=
    bind_eq_ok_iff.mpr ⟨_, first.axisSample_eq moderate, bind_eq_ok_iff.mpr
      ⟨_, second.axisSample_eq moderate, bind_eq_ok_iff.mpr ⟨_, third.axisSample_eq moderate, rfl⟩⟩⟩
  exact ⟨_, placed, ⟨rfl, rfl, rfl⟩⟩

variable {origin : List (Number Float)} {detail : Number Float} {level : Int}

theorem pos_partExtent (pos : 1 ≤ gen.partSize) {x y z : Nat}
    (inside : buffer.extent.Contains x y z) : 0 < gen.partExtent buffer.extent := by
  unfold Generator.partExtent Extent.longest
  obtain ⟨first, -⟩ := inside
  split
  · omega
  · have bound : buffer.extent.x ≤ Nat.max buffer.extent.x (Nat.max buffer.extent.y
        buffer.extent.z) := Nat.le_max_left _ _
    omega

theorem writeBlock_nil (buffer : Buffer) (values : BlockValues) :
    buffer.writeBlock [] values = buffer := by
  simp [Buffer.writeBlock, weightLayers]

theorem completes_block_iff_pointwise (formed : program.WellFormed)
    (installed : gen.program = some (serial, program)) (plain : Plain serial program gen)
    (pos : 1 ≤ gen.partSize) (placed : Position.ofNumbers origin = .ok place)
    (scaled : detail.truncate = .ok level) (nonnegative : 0 ≤ level) {filled : Buffer} :
    (∃ after, Completes (block buffer origin detail) gen filled after) ↔ ∃ values : BlockValues,
    values.Pointwise program buffer place level.toNat ∧
    buffer.writeBlock program.blockOutputs values = filled := by
  simp only [completes_block_iff installed placed scaled, not_lt.mpr nonnegative, not_false_eq_true,
    true_and]
  by_cases outputs : program.blockOutputs = []
  · have empty : program.blockOutputs.isEmpty = true := by rw [outputs]; rfl
    simp only [if_pos empty]
    constructor
    · rintro ⟨_, rfl, rfl⟩
      refine ⟨[], ⟨?_, by simp, by simp⟩, ?_⟩
      · rw [outputs]
        rfl
      · rw [outputs, writeBlock_nil]
    · rintro ⟨values, -, rfl⟩
      exact ⟨gen, by rw [outputs, writeBlock_nil], rfl⟩
  · have some : ¬ program.blockOutputs.isEmpty = true := by simpa using outputs
    have parts : ∀ x y z, buffer.extent.Contains x y z →
        0 < gen.partExtent buffer.extent := fun x y z => pos_partExtent pos
    simp only [if_neg some, ← completes_blockValues_iff formed plain parts outputs]
    constructor
    · rintro ⟨after, values, generated, written⟩
      exact ⟨values, ⟨after, generated⟩, written⟩
    · rintro ⟨values, ⟨after, generated⟩, written⟩
      exact ⟨after, values, generated, written⟩

/-- **Blocks are pointwise.** Take any generator, after any history of uses, with a
program, and let it make no plans. It fills a buffer exactly with the values of the
program at the points of the voxels, whether or not it generates the block in parts and
however large the parts are. If the program does not read distances, then a value is what
is generated for the position of its voxel alone, provided that the position, the origin
and the way from one to the other are integers of single precision and the stride is a
finite number of single precision. -/
theorem block_pointwise (uses : List Generator.Use)
    (installed : (Generator.afterUses uses).program = some (serial, program))
    (placed : Position.ofNumbers origin = .ok place) (scaled : detail.truncate = .ok level)
    (nonnegative : 0 ≤ level) (subdivided : Bool) {partSize : Nat} (positive : 1 ≤ partSize) :
    let generator : Generator :=
      { Generator.afterUses uses with optimized := false, subdivided, partSize }
    (∀ filled, (∃ after, (block buffer origin detail).Completes generator filled after) ↔
      ∃ values : BlockValues, values.Pointwise program buffer place level.toNat ∧
        buffer.writeBlock program.blockOutputs values = filled) ∧
    (level < 128 → program.inputAddress? .sdf = none →
      ∀ values : BlockValues, values.Pointwise program buffer place level.toNat →
      ∀ x y z, buffer.extent.Contains x y z → Exact place.x (x * 2 ^ level.toNat) →
        Exact place.y (y * 2 ^ level.toNat) → Exact place.z (z * 2 ^ level.toNat) →
      ∀ channel output, channelOutput? program channel = some output →
        ∃ after, (single [.integer (place.x + (x * 2 ^ level.toNat : Nat)),
          .integer (place.y + (y * 2 ^ level.toNat : Nat)),
          .integer (place.z + (z * 2 ^ level.toNat : Nat))] channel).Completes generator
            ((values.samplesAt output.address).getD (buffer.extent.place x y z) 0) after) := by
  intro generator
  obtain ⟨wellFormed, -, serves⟩ :=
    (Generator.sound_afterUses uses).current serial program installed
  have current : generator.program = some (serial, program) := installed
  have plain : Plain serial program generator := ⟨rfl, serves⟩
  constructor
  · intro filled
    exact completes_block_iff_pointwise wellFormed current plain positive placed scaled nonnegative
  · intro moderate unread values pointwise x y z inside first second third channel output found
    obtain ⟨entry, member, address, samples⟩ := pointwise.exists_samplesAt (mem_blockOutputs found)
    obtain ⟨point, here, locates⟩ := exists_pointAt buffer (by omega) first second third
    obtain ⟨other, again, valued⟩ := pointwise.value_eq entry member x y z inside
    obtain rfl := Except.ok.inj (here.symm.trans again)
    rw [samples]
    rw [address] at valued
    exact exists_completes_single wellFormed current plain.serves unread found
      ⟨first.inside, second.inside, third.inside⟩ locates valued

/-- A buffer of three voxels. -/
def rampBuffer : Buffer where
  extent := ⟨3, 1, 1⟩
  typeDepth := .bits8
  sdfDepth := .bits32
  types := #[.integer 0, .integer 0, .integer 0]
  distances := #[.real 0, .real 0, .real 0]
  indices := #[.integer 0, .integer 0, .integer 0]
  weights := #[.integer 0, .integer 0, .integer 0]

/-- The ramp from the fifth position on, every other position, as a whole and in parts of
two voxels. The last voxel is at the ninth position. -/
theorem block_pointwise_ramp :
    let generator := Generator.afterUses [.compile (Library.afterEdits Library.rampField) 0 false]
    let ramp := block rampBuffer [.integer 5, .integer 0, .integer 0] (.integer 1)
    let parted : Generator :=
      { generator with optimized := false, subdivided := true, partSize := 2 }
    ∃ (values : BlockValues) (filled : Buffer) (whole other alone : Generator),
      values.Pointwise Library.rampProgram rampBuffer ⟨5, 0, 0⟩ 1 ∧
      ramp.Completes { generator with optimized := false, subdivided := false, partSize := 16 }
        filled whole ∧
      ramp.Completes parted filled other ∧
      (single [.integer 9, .integer 0, .integer 0] .sdf).Completes parted
        ((values.samplesAt 3).getD 2 0) alone := by
  intro generator ramp parted
  have reached : generator = { program := some (0, Library.rampProgram), nextSerial := 1
                               verdict := some (.compiled 4) } := by
    simp only [generator, Generator.afterUses, Generator.afterUse, Generator.compile,
      Library.judge, foldl_cons, foldl_nil, Library.compile_rampField]
    rfl
  have installed : generator.program = some (0, Library.rampProgram) := by rw [reached]
  have plainly : ∃ filled whole, ramp.Completes
      { generator with optimized := false, subdivided := false, partSize := 16 } filled whole := by
    rw [reached]
    exact ⟨_, _, by with_unfolding_all rfl⟩
  obtain ⟨filled, whole, completes⟩ := plainly
  have pointwise (subdivided : Bool) {partSize : Nat} (positive : 1 ≤ partSize) :=
    @block_pointwise 0 Library.rampProgram rampBuffer ⟨5, 0, 0⟩
      [.integer 5, .integer 0, .integer 0] (.integer 1) 1 _ installed rfl rfl (by decide) subdivided
      partSize positive
  obtain ⟨values, valued, written⟩ :=
    ((pointwise false (show 1 ≤ 16 by decide)).1 filled).mp ⟨whole, completes⟩
  obtain ⟨inParts, atPosition⟩ := pointwise true (show 1 ≤ 2 by decide)
  obtain ⟨other, completesToo⟩ := (inParts filled).mpr ⟨values, valued, written⟩
  obtain ⟨alone, single⟩ := atPosition (by decide) (by decide) values valued 2 0 0
    ⟨by decide, by decide, by decide⟩ ⟨by decide, by decide, by decide⟩
    ⟨by decide, by decide, by decide⟩ ⟨by decide, by decide, by decide⟩ .sdf _ rfl
  exact ⟨values, filled, whole, other, alone, valued, completes, completesToo, single⟩

end Generating

end FieldGraph
