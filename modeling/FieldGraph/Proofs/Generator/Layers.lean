import FieldGraph.Proofs.Extended
import FieldGraph.Proofs.Generator.Pointwise
import Mathlib.Data.List.Sort

/-! # Kept layers

Of all its layers a voxel keeps the four strongest. They stand in the slots by falling
weight, and equal weights by layer; if there are no more than four layers, then all of
them stand in ascending order, with the smallest of the other layers behind them. What
is read back from the packed words is the slots themselves, up to the low bits of the
weights. The order of the outputs of a program has no influence.
-/

namespace FieldGraph

open List

namespace Voxel

variable {weighted kept other : List (Nat × Nat)} {entry : Nat × Nat}

/-- A layer goes before another if it is stronger, or as strong and smaller. -/
def Before (a b : Nat × Nat) : Prop := b.2 < a.2 ∨ a.2 = b.2 ∧ a.1 < b.1

instance : DecidableRel Before := fun a b =>
  inferInstanceAs (Decidable (b.2 < a.2 ∨ a.2 = b.2 ∧ a.1 < b.1))

/-- The slots of a voxel, out of the layers that it has a weight for. -/
structure Keeps (weighted kept : List (Nat × Nat)) : Prop where
  full : kept.length = slotCount
  distinct : (kept.map (·.1)).Nodup
  /-- With more layers than slots, the strongest are kept. -/
  strongest : slotCount < weighted.length → kept ⊆ weighted ∧ kept.Pairwise Before ∧
    ∀ left ∈ weighted, left ∉ kept → ∀ entry ∈ kept, Before entry left
  /-- Otherwise the slots hold all layers, and then the smallest that are not in use. -/
  padded : weighted.length ≤ slotCount → ∃ declared, ∃ unused : List Nat,
    kept = declared ++ unused.map (·, 0) ∧ declared ~ weighted ∧
    declared.Pairwise (·.1 < ·.1) ∧ unused.Pairwise (· < ·) ∧
    (∀ layer ∈ unused, layer < layerLimit ∧ layer ∉ weighted.map (·.1)) ∧
    ∀ layer < layerLimit, layer ∉ weighted.map (·.1) → layer ∉ unused →
      ∀ entry ∈ unused, entry < layer

theorem Keeps.perm (keeps : Keeps weighted kept) (same : weighted ~ other) : Keeps other kept where
  full := keeps.full
  distinct := keeps.distinct
  strongest more := by
    obtain ⟨inside, ordered, weaker⟩ := keeps.strongest (same.length_eq ▸ more)
    exact ⟨fun entry mem => same.subset (inside mem), ordered,
      fun left mem => weaker left (same.mem_iff.mpr mem)⟩
  padded fewer := by
    obtain ⟨declared, unused, eq, perm, ascending, sorted, free, smallest⟩ :=
      keeps.padded (same.length_eq ▸ fewer)
    have layers : ∀ layer, layer ∈ weighted.map (·.1) ↔ layer ∈ other.map (·.1) :=
      fun layer => (same.map _).mem_iff
    refine ⟨declared, unused, eq, perm.trans same, ascending, sorted, ?_, ?_⟩
    · exact fun layer mem => ⟨(free layer mem).1, mt (layers layer).mpr (free layer mem).2⟩
    · exact fun layer small absent => smallest layer small (mt (layers layer).mp absent)

/-- What is taken from the front of an ordered list stands before everything else. -/
theorem rel_of_mem_take {α : Type} {R : α → α → Prop} {items : List α} (ordered : items.Pairwise R)
    {count : Nat} {first last : α} (mem : last ∈ items) (left : last ∉ items.take count)
    (taken : first ∈ items.take count) : R first last := by
  rw [← take_append_drop count items] at mem
  exact ordered.rel_of_mem_take_of_mem_drop taken ((mem_append.mp mem).resolve_left left)

/-! ## The choice of the slots -/

/-- Sorting by weight is stable, so equally strong layers stay in their order. -/
theorem pairwise_before_mergeSort (ascending : weighted.Pairwise (·.1 < ·.1)) :
    (weighted.mergeSort fun a b => decide (b.2 ≤ a.2)).Pairwise Before := by
  have weakly : (weighted.mergeSort fun a b => decide (b.2 ≤ a.2)).Pairwise fun a b =>
      b.2 < a.2 ∨ a.2 = b.2 ∧ a.1 ≤ b.1 := by
    rw [← mergeSort_zipIdx, pairwise_map]
    refine (pairwise_mergeSort (zipIdxLE_trans ?_) (zipIdxLE_total ?_) _).imp_of_mem ?_
    · simp only [decide_eq_true_eq]
      omega
    · simp only [Bool.or_eq_true, decide_eq_true_eq]
      omega
    · rintro ⟨a, i⟩ ⟨b, j⟩ first second le
      rw [mem_mergeSort, mk_mem_zipIdx_iff_getElem?] at first second
      obtain ⟨inside, rfl⟩ := List.getElem?_eq_some_iff.mp first
      obtain ⟨within, rfl⟩ := List.getElem?_eq_some_iff.mp second
      have layers : i ≤ j → weighted[i].1 ≤ weighted[j].1 := by
        intro le
        obtain rfl | less := Nat.eq_or_lt_of_le le
        · exact Nat.le_refl _
        · exact Nat.le_of_lt (pairwise_iff_getElem.mp ascending i j inside within less)
      simp only [zipIdxLE] at le
      grind
  have distinct : (weighted.mergeSort fun a b => decide (b.2 ≤ a.2)).Pairwise (·.1 ≠ ·.1) :=
    ((mergeSort_perm _ _).pairwise_iff fun ne => ne.symm).mpr (ascending.imp Nat.ne_of_lt)
  refine (weakly.and distinct).imp fun both => ?_
  unfold Before
  omega

theorem mem_keptLayers (mem : entry ∈ keptLayers weighted) :
    entry ∈ weighted ∨ entry.1 < layerLimit ∧ entry.2 = 0 := by
  unfold keptLayers at mem
  split at mem
  · exact .inl (mem_mergeSort.mp (mem_of_mem_take mem))
  · obtain declared | padding := mem_append.mp mem
    · exact .inl declared
    · obtain ⟨layer, taken, rfl⟩ := mem_map.mp padding
      exact .inr ⟨mem_range.mp (mem_filter.mp (mem_of_mem_take taken)).1, rfl⟩

theorem keeps_keptLayers (ascending : weighted.Pairwise (·.1 < ·.1)) :
    Keeps weighted (keptLayers weighted) := by
  have layers : (weighted.map (·.1)).Nodup := pairwise_map.mpr (ascending.imp Nat.ne_of_lt)
  by_cases more : slotCount < weighted.length
  · have eq : keptLayers weighted =
        (weighted.mergeSort fun a b => decide (b.2 ≤ a.2)).take slotCount := if_pos more
    have ordered := pairwise_before_mergeSort ascending
    have perm := mergeSort_perm weighted fun a b => decide (b.2 ≤ a.2)
    rw [eq]
    refine ⟨?_, ?_, fun _ => ⟨?_, ordered.sublist (take_sublist _ _), ?_⟩, fun fewer => ?_⟩
    · rw [length_take, length_mergeSort]
      omega
    · exact ((perm.map _).nodup_iff.mpr layers).sublist ((take_sublist _ _).map _)
    · exact fun entry mem => perm.subset (mem_of_mem_take mem)
    · exact fun left mem out entry taken => rel_of_mem_take ordered (perm.mem_iff.mpr mem) out taken
    · omega
  · set unused := (range layerLimit).filter fun layer => !(weighted.map (·.1)).contains layer
      with free
    have eq : keptLayers weighted =
        weighted ++ (unused.take (slotCount - weighted.length)).map (·, 0) := if_neg more
    have mem_unused {layer : Nat} :
        layer ∈ unused ↔ layer < layerLimit ∧ layer ∉ weighted.map (·.1) := by
      simp [free]
    have sorted : unused.Pairwise (· < ·) := pairwise_lt_range.filter _
    -- Every layer is in use or not, so there are enough layers to fill the slots.
    have enough : layerLimit ≤ weighted.length + unused.length := by
      have all : range layerLimit ⊆ weighted.map (·.1) ++ unused := by
        intro layer mem
        rw [mem_append, mem_unused]
        have := mem_range.mp mem
        tauto
      simpa using (nodup_range.subperm all).length_le
    have small : slotCount ≤ layerLimit := by decide
    rw [eq]
    refine ⟨?_, ?_, fun less => absurd less more, fun _ => ⟨weighted, _, rfl, .refl _, ascending,
      sorted.sublist (take_sublist _ _), ?_, ?_⟩⟩
    · rw [length_append, length_map, length_take]
      omega
    · rw [map_append, map_map, nodup_append]
      refine ⟨layers, ?_, ?_⟩
      · exact (map_id _).symm ▸ (sorted.sublist (take_sublist _ _)).imp Nat.ne_of_lt
      · rintro layer used _ padding rfl
        rw [Function.comp_def, map_id'] at padding
        exact (mem_unused.mp (mem_of_mem_take padding)).2 used
    · exact fun layer mem => mem_unused.mp (mem_of_mem_take mem)
    · exact fun layer small absent left entry taken =>
        rel_of_mem_take sorted (mem_unused.mpr ⟨small, absent⟩) left taken

/-! ## Packing -/

namespace Packing

theorem unpackIndices_packIndices (quad : Quad Nat) :
    unpackIndices (packIndices quad) = quad.map (· % 16) := by
  unfold unpackIndices packIndices Quad.map
  congr 1 <;> dsimp only <;> omega

theorem unpackWeights_packWeights (quad : Quad Nat) :
    unpackWeights (packWeights quad) = quad.map (· / 16 % 16 * 16) := by
  rw [unpackWeights, packWeights, unpackIndices_packIndices]
  rfl

end Packing

theorem toList_slots {values : List Nat} (full : values.length = slotCount) :
    (slots values).toList = values := by
  match values, full with
  | [_, _, _, _], _ => rfl

theorem weightByte_lt {α : Type} [Arithmetic α] (weight : α) : weightByte weight < 256 := by
  unfold weightByte
  dsimp only
  split
  · exact Nat.mod_lt _ (by decide)
  · decide

section

open Arithmetic Extended

theorem weightByte_rational (q : ℚ) : weightByte (rational q) = ⌊255 * (0 ⊔ q ⊓ 1)⌋₊ := by
  have clipped : clip (rational q) zero one = rational (0 ⊔ q ⊓ 1) := by
    simp only [clip]
    split_ifs <;> simp_all <;> grind
  have nonneg : (0 : ℚ) ≤ 255 * (0 ⊔ q ⊓ 1) := by positivity
  have small : ⌊255 * (0 ⊔ q ⊓ 1)⌋₊ < 256 := by
    rw [Nat.floor_lt nonneg]
    have : 0 ⊔ q ⊓ 1 ≤ 1 := by simp
    norm_num
    linarith
  generalize 0 ⊔ q ⊓ 1 = c at *
  have cut : truncate? (rational (255 * c)) = some ((⌊255 * c⌋₊ : ℕ) : ℤ) := by
    have integral : (255 * c).num.tdiv (255 * c).den = ⌊255 * c⌋ := by
      rw [Rat.floor_def', Int.tdiv_eq_ediv_of_nonneg (Rat.num_nonneg.mpr nonneg)]
    rw [Int.natCast_floor_eq_floor nonneg, ← integral]
    rfl
  have product : rational c * ofNat 255 = rational (255 * c) := by
    rw [mul_comm 255]
    exact congrArg rational (congrArg (c * ·) Nat.cast_ofNat)
  simp only [weightByte, isNaN_eq_false bottom_le_rational, Bool.false_eq_true, if_false, clipped,
    product, cut]
  exact Nat.mod_eq_of_lt small

/-- The weight of a number of single precision. -/
theorem weightByte_single (weight : Float32) : weightByte weight =
    if weight.isNaN ∨ weight < 0 then 0 else if 1 < weight then 255
    else ((truncate? (weight * 255)).getD 0).toNat % 256 := by
  have clipped : clip (if isNaN weight then zero else weight) zero one =
      if weight.isNaN ∨ weight < 0 then zero else if 1 < weight then one else weight := by
    have ordered : lt (one : Float32) zero = false := by decide +kernel
    have above : lt (zero : Float32) zero = false := by decide +kernel
    have negative : lt weight zero = decide (weight < 0) := rfl
    have large : lt one weight = decide (1 < weight) := rfl
    by_cases nan : isNaN weight = true
    · rw [if_pos nan, if_pos (.inl nan)]
      simp [clip, ordered, above]
    · have defined : ¬weight.isNaN = true := nan
      rw [if_neg nan]
      simp only [clip, negative, defined]
      by_cases less : weight < 0 <;> simp [less, large, ordered]
  have scaled : weight * ofNat 255 = weight * 255 := rfl
  rw [weightByte, clipped]
  split_ifs
  · decide +kernel
  · decide +kernel
  · rw [scaled]
    cases truncate? (weight * 255) <;> rfl

end

/-- What is read back from the packed words of a voxel. -/
theorem unpack_packLayers (ascending : weighted.Pairwise (·.1 < ·.1))
    (bounded : ∀ entry ∈ weighted, entry.1 < layerLimit ∧ entry.2 < 256) :
    (Packing.unpackIndices (packLayers weighted).1).toList = (keptLayers weighted).map (·.1) ∧
      (Packing.unpackWeights (packLayers weighted).2).toList =
        (keptLayers weighted).map (·.2 / 16 * 16) := by
  have full := (keeps_keptLayers ascending).full
  have fit : ∀ entry ∈ keptLayers weighted, entry.1 < layerLimit ∧ entry.2 < 256 := by
    intro entry mem
    obtain declared | ⟨small, weightless⟩ := mem_keptLayers mem
    · exact bounded entry declared
    · exact ⟨small, by omega⟩
  constructor
  · rw [packLayers, Packing.unpackIndices_packIndices]
    change (slots _).toList.map (· % 16) = _
    rw [toList_slots (by rwa [length_map]), map_map]
    exact map_congr_left fun entry mem => Nat.mod_eq_of_lt (fit entry mem).1
  · rw [packLayers, Packing.unpackWeights_packWeights]
    change (slots _).toList.map (· / 16 % 16 * 16) = _
    rw [toList_slots (by rwa [length_map]), map_map]
    refine map_congr_left fun entry mem => ?_
    have := (fit entry mem).2
    dsimp only [Function.comp]
    omega

end Voxel

/-! ## Layers in a buffer -/

open Voxel

variable {outputs others : List Output} {values otherValues : BlockValues}

/-- The samples of the weight outputs, with their layers. -/
def layerSamples (outputs : List Output) (values : BlockValues) : List (Nat × Array Float32) :=
  (outputs.filter (·.kind == .outputWeight)).map fun output =>
    (output.layer.toNat, values.samplesAt output.address)

/-- The layers of a cell with their weights in eight bits. -/
def weightsAt (layers : List (Nat × Array Float32)) (cell : Nat) : List (Nat × Nat) :=
  layers.map fun (layer, weights) => (layer, weightByte (weights.getD cell 0))

/-- There are weight outputs, and they have distinct layers within the limit. -/
structure Layered (outputs : List Output) : Prop where
  inhabited : outputs.filter (·.kind == .outputWeight) ≠ []
  distinct : (outputs.filter (·.kind == .outputWeight)).Pairwise (·.layer ≠ ·.layer)
  bounded : ∀ output ∈ outputs.filter (·.kind == .outputWeight),
    0 ≤ output.layer ∧ output.layer < layerLimit

theorem weightLayers_perm (outputs : List Output) (values : BlockValues) :
    weightLayers outputs values ~ layerSamples outputs values := mergeSort_perm _ _

theorem ascending_of_distinct (distinct : (layerSamples outputs values).Pairwise (·.1 ≠ ·.1)) :
    (weightLayers outputs values).Pairwise (·.1 < ·.1) := by
  have sorted : (weightLayers outputs values).Pairwise (·.1 ≤ ·.1) := by
    refine (pairwise_mergeSort ?_ ?_ _).imp fun le => decide_eq_true_eq.mp le
    · simp only [decide_eq_true_eq]
      omega
    · simp only [Bool.or_eq_true, decide_eq_true_eq]
      omega
  have different : (weightLayers outputs values).Pairwise (·.1 ≠ ·.1) :=
    ((weightLayers_perm outputs values).pairwise_iff fun ne => ne.symm).mpr distinct
  exact (sorted.and different).imp fun both => Nat.lt_of_le_of_ne both.1 both.2

/-- Sorted by their distinct layers, the samples have one order. -/
theorem weightLayers_congr (distinct : (layerSamples outputs values).Pairwise (·.1 ≠ ·.1))
    (same : layerSamples others otherValues ~ layerSamples outputs values) :
    weightLayers others otherValues = weightLayers outputs values := by
  have perm : weightLayers others otherValues ~ weightLayers outputs values :=
    (weightLayers_perm _ _).trans (same.trans (weightLayers_perm _ _).symm)
  exact perm.eq_of_pairwise'
    (ascending_of_distinct ((same.pairwise_iff fun ne => ne.symm).mpr distinct))
    (ascending_of_distinct distinct)

theorem Layered.distinct_layerSamples (layered : Layered outputs) :
    (layerSamples outputs values).Pairwise (·.1 ≠ ·.1) := by
  refine pairwise_map.mpr (layered.distinct.imp_of_mem fun first second different => ?_)
  have := (layered.bounded _ first).1
  have := (layered.bounded _ second).1
  omega

namespace Voxel.Buffer

variable {buffer : Buffer} {x y z : Nat}

theorem placeOf_eq_ok (inside : buffer.extent.Contains x y z) :
    buffer.placeOf x y z = .ok (buffer.extent.place x y z) := by
  obtain ⟨first, second, third⟩ := inside
  exact if_pos ⟨by omega, by omega, by omega, by omega, by omega, by omega⟩

/-- What is read from a voxel after layers are written. -/
theorem read_writeLayers (layers : List (Nat × Array Float32))
    (inside : buffer.extent.Contains x y z) :
    let packed := packLayers (weightsAt layers (buffer.extent.place x y z))
    (buffer.writeLayers layers).layerIndices x y z = .ok (Packing.unpackIndices packed.1) ∧
      (buffer.writeLayers layers).layerWeights x y z = .ok (Packing.unpackWeights packed.2) := by
  have place : (buffer.writeLayers layers).placeOf x y z = .ok (buffer.extent.place x y z) :=
    placeOf_eq_ok inside
  rw [layerIndices, layerWeights, get, get, place]
  simp [writeLayers, cells, word, weightsAt, Extent.place_lt inside, bind, Except.bind, pure,
    Except.pure]

/-- A block with weight outputs ends with its layers. -/
theorem exists_writeBlock_eq (inhabited : outputs.filter (·.kind == .outputWeight) ≠ [])
    (buffer : Buffer) (values : BlockValues) :
    ∃ base : Buffer, base.extent = buffer.extent ∧
      buffer.writeBlock outputs values = base.writeLayers (weightLayers outputs values) := by
  have some : (weightLayers outputs values).isEmpty = false := by
    rw [(weightLayers_perm outputs values).isEmpty_eq]
    simpa [layerSamples] using inhabited
  refine ⟨_, ?_, if_neg (by rw [some]; exact Bool.false_ne_true)⟩
  refine foldlRecOn outputs _ (motive := fun filled : Buffer => filled.extent = buffer.extent)
    rfl ?_
  intro filled same output _
  split <;> exact same

end Voxel.Buffer

namespace Generating

variable {gen after : Generator} {serial : Nat} {prog : Program Float} {buffer filled : Buffer}
  {origin : List (Number Float)} {detail : Number Float} {place : Position} {level : Int}

/-- **The strongest layers are kept.** A weight in eight bits is 255 times the weight, clipped
between zero and one, down to an integer. The product is one of single precision, and exact for
exact numbers.

Take any generator with a program whose weight outputs have distinct layers within the limit, and a
block that it completes. Every voxel of the block reads back the four layers that it keeps out of
the weights computed for it, and their weights down to multiples of sixteen. Without plans the
weights are the values of the program at the points of the voxels. Whatever the outputs of another
program are and wherever it has its samples, the same samples for the same layers, in any order, are
packed in the same way. -/
theorem block_keeps_layers (installed : gen.program = some (serial, prog))
    (placed : Position.ofNumbers origin = .ok place) (scaled : detail.truncate = .ok level)
    (layered : Layered prog.blockOutputs)
    (completes : (block buffer origin detail).Completes gen filled after) :
    (∀ weight : Float32, weightByte weight = if weight.isNaN ∨ weight < 0 then 0
      else if 1 < weight then 255
      else ((Arithmetic.truncate? (weight * 255)).getD 0).toNat % 256) ∧
    (∀ q : ℚ, weightByte (Extended.rational q) = ⌊255 * (0 ⊔ q ⊓ 1)⌋₊) ∧
    ∃ values : BlockValues,
      (blockValues (.fill serial prog buffer place level.toNat)
        (gen.partExtent buffer.extent)).Completes gen values after ∧
      (prog.WellFormed → Plain serial prog gen → 1 ≤ gen.partSize →
        values.Pointwise prog buffer place level.toNat) ∧
      (∀ x y z : Nat, buffer.extent.Contains x y z → ∃ kept,
        Keeps (weightsAt (layerSamples prog.blockOutputs values) (buffer.extent.place x y z))
          kept ∧
        (filled.layerIndices x y z).map (·.toList) = .ok (kept.map (·.1)) ∧
        (filled.layerWeights x y z).map (·.toList) = .ok (kept.map (·.2 / 16 * 16))) ∧
      ∀ (outputs : List Output) (samples : BlockValues),
        layerSamples outputs samples ~ layerSamples prog.blockOutputs values →
          (buffer.writeBlock outputs samples).indices = filled.indices ∧
          (buffer.writeBlock outputs samples).weights = filled.weights := by
  have some : ¬ prog.blockOutputs.isEmpty = true := by
    intro empty
    exact layered.inhabited (by rw [isEmpty_iff.mp empty]; rfl)
  obtain ⟨-, rest⟩ := (completes_block_iff installed placed scaled).mp completes
  rw [if_neg some] at rest
  obtain ⟨values, generated, rfl⟩ := rest
  obtain ⟨base, extent, written⟩ := Buffer.exists_writeBlock_eq layered.inhabited buffer values
  refine ⟨weightByte_single, weightByte_rational, values, generated, ?_, ?_, ?_⟩
  · intro formed plain pos
    exact pointwise_of_blockValues formed plain (fun x y z => pos_partExtent pos) generated
  · intro x y z inside
    have within : base.extent.Contains x y z := extent ▸ inside
    have perm : weightsAt (weightLayers prog.blockOutputs values) (buffer.extent.place x y z) ~
        weightsAt (layerSamples prog.blockOutputs values) (buffer.extent.place x y z) :=
      (weightLayers_perm _ _).map _
    have ascending : (weightsAt (weightLayers prog.blockOutputs values)
        (buffer.extent.place x y z)).Pairwise (·.1 < ·.1) :=
      pairwise_map.mpr (ascending_of_distinct layered.distinct_layerSamples)
    have bounded : ∀ entry ∈ weightsAt (weightLayers prog.blockOutputs values)
        (buffer.extent.place x y z), entry.1 < layerLimit ∧ entry.2 < 256 := by
      intro entry mem
      obtain ⟨samples, listed, rfl⟩ := mem_map.mp (perm.mem_iff.mp mem)
      obtain ⟨output, present, rfl⟩ := mem_map.mp listed
      have := layered.bounded output present
      exact ⟨by dsimp only; omega, weightByte_lt _⟩
    obtain ⟨indices, weights⟩ := unpack_packLayers ascending bounded
    obtain ⟨readIndices, readWeights⟩ :=
      Buffer.read_writeLayers (weightLayers prog.blockOutputs values) within
    refine ⟨_, (keeps_keptLayers ascending).perm perm, ?_, ?_⟩
    · rw [written, readIndices, extent, ← indices]
      rfl
    · rw [written, readWeights, extent, ← weights]
      rfl
  · intro outputs samples same
    have inhabited : outputs.filter (·.kind == .outputWeight) ≠ [] := by
      intro none
      rw [layerSamples, none] at same
      exact layered.inhabited (map_eq_nil_iff.mp same.symm.eq_nil)
    obtain ⟨other, alike, packed⟩ := Buffer.exists_writeBlock_eq inhabited buffer samples
    rw [packed, written, weightLayers_congr layered.distinct_layerSamples same]
    simp only [Buffer.writeLayers, alike, extent, and_self]

/-- A program with five layers, of which three are as strong as can be. -/
def strataProgram : Program Float where
  instructions := []
  outputs := [(9, 0), (15, 1), (2, 1), (0, 2), (4, 1)].map fun (layer, address) =>
    { kind := .outputWeight, name := "", address, node := layer, layer }
  bufferCount := 3
  constants := [(0, 0.5), (1, 1), (2, 0.25)]
  inputs := []
  ports := []

def strata : Generator := { program := some (0, strataProgram), nextSerial := 1 }

/-- The weights of the five layers. -/
def strataWeights : List (Nat × Nat) := [(9, 127), (15, 255), (2, 255), (0, 63), (4, 255)]

theorem eq_of_keeps_strataWeights {kept : List (Nat × Nat)} (keeps : Keeps strataWeights kept) :
    kept = [(2, 255), (4, 255), (15, 255), (9, 127)] := by
  have only : ∀ a ∈ strataWeights, ∀ b ∈ strataWeights, ∀ c ∈ strataWeights, ∀ d ∈ strataWeights,
      [a, b, c, d].Pairwise Before → (∀ left ∈ strataWeights, left ∉ [a, b, c, d] →
        ∀ entry ∈ [a, b, c, d], Before entry left) →
      [a, b, c, d] = [(2, 255), (4, 255), (15, 255), (9, 127)] := by
    decide +kernel
  obtain ⟨inside, ordered, weaker⟩ := keeps.strongest (by decide)
  obtain ⟨a, b, c, d, rfl⟩ := length_eq_four.mp keeps.full
  exact only a (inside (by simp)) b (inside (by simp)) c (inside (by simp)) d (inside (by simp))
    ordered weaker

/-- Of five layers the weakest, layer zero, is left out. -/
theorem block_keeps_layers_strata : ∃ (filled : Buffer) (after : Generator) (values : BlockValues),
    (block hazeBuffer [.integer 0, .integer 0, .integer 0] (.integer 1)).Completes strata filled
      after ∧
    weightsAt (layerSamples strataProgram.blockOutputs values) 1 = strataWeights ∧
    (filled.layerIndices 1 0 0).map (·.toList) = .ok [2, 4, 15, 9] ∧
    (filled.layerWeights 1 0 0).map (·.toList) = .ok [240, 240, 240, 112] := by
  have plainly : ∃ filled after, (block hazeBuffer [.integer 0, .integer 0, .integer 0]
      (.integer 1)).Completes strata filled after := ⟨_, _, by with_unfolding_all rfl⟩
  obtain ⟨filled, after, completes⟩ := plainly
  obtain ⟨-, -, values, generated, -, voxels, -⟩ := block_keeps_layers rfl rfl rfl
    ⟨by decide, by decide, by decide⟩ completes
  have weights : weightsAt (layerSamples strataProgram.blockOutputs values) 1 = strataWeights := by
    have computed : ((blockValues (.fill 0 strataProgram hazeBuffer ⟨0, 0, 0⟩ (Int.toNat 1))
        (strata.partExtent hazeBuffer.extent)).outcome strata).1.toOption.map
          (fun values => weightsAt (layerSamples strataProgram.blockOutputs values) 1) =
        some strataWeights := by
      decide +kernel
    rw [generated] at computed
    exact Option.some.inj computed
  obtain ⟨kept, keeps, indices, bytes⟩ := voxels 1 0 0 ⟨by decide, by decide, by decide⟩
  rw [show hazeBuffer.extent.place 1 0 0 = 1 by decide, weights] at keeps
  cases eq_of_keeps_strataWeights keeps
  exact ⟨filled, after, values, completes, weights, indices, bytes⟩

end Generating

end FieldGraph
