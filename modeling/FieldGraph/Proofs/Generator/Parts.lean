import FieldGraph.Generator.Block
import Mathlib.Data.List.Forall2
import Mathlib.Tactic.Ring

/-! # Parts of blocks

The parts of a block cover its voxels, whether or not their size divides the extents of
the block. Every cell belongs to one voxel, so it does not matter in which order the
parts are taken over, or how large they are.
-/

namespace FieldGraph

open List Voxel

/-! ## Cells -/

namespace Voxel.Extent

variable {extent : Extent} {x y z u v w : Nat} {places : List Nat}

/-- The voxels of a block. -/
def Contains (extent : Extent) (x y z : Nat) : Prop := x < extent.x ∧ y < extent.y ∧ z < extent.z

theorem place_lt (inside : extent.Contains x y z) : extent.place x y z < extent.volume := by
  obtain ⟨first, second, third⟩ := inside
  have row : x * extent.y + y + 1 ≤ extent.x * extent.y := by
    calc x * extent.y + y + 1 ≤ (x + 1) * extent.y := by
          rw [Nat.add_mul]
          omega
      _ ≤ extent.x * extent.y := Nat.mul_le_mul_right _ first
  have cells := Nat.mul_le_mul_right extent.z row
  rw [Nat.add_mul] at cells
  unfold place volume
  omega

theorem place_inj (inside : extent.Contains x y z) (other : extent.Contains u v w)
    (same : extent.place x y z = extent.place u v w) : x = u ∧ y = v ∧ z = w := by
  unfold place at same
  have columns : z = w := by
    have rests := congrArg (· % extent.z) same
    simpa [Nat.mod_eq_of_lt inside.2.2, Nat.mod_eq_of_lt other.2.2] using rests
  have rows : x * extent.y + y = u * extent.y + v := by
    rw [columns] at same
    exact Nat.eq_of_mul_eq_mul_right (Nat.zero_lt_of_lt inside.2.2) (Nat.add_right_cancel same)
  have second : y = v := by
    have rests := congrArg (· % extent.y) rows
    simpa [Nat.mod_eq_of_lt inside.2.1, Nat.mod_eq_of_lt other.2.1] using rests
  rw [second] at rows
  exact ⟨Nat.eq_of_mul_eq_mul_right (Nat.zero_lt_of_lt inside.2.1) (Nat.add_right_cancel rows),
    second, columns⟩

theorem exists_place {cell : Nat} (inside : cell < extent.volume) :
    ∃ x y z, extent.Contains x y z ∧ extent.place x y z = cell := by
  have deep : 0 < extent.z := Nat.pos_of_mul_pos_left (Nat.zero_lt_of_lt inside)
  have plane : cell / extent.z < extent.x * extent.y := (Nat.div_lt_iff_lt_mul deep).mpr inside
  have high : 0 < extent.y := Nat.pos_of_mul_pos_left (Nat.zero_lt_of_lt plane)
  refine ⟨cell / extent.z / extent.y, cell / extent.z % extent.y, cell % extent.z,
    ⟨(Nat.div_lt_iff_lt_mul high).mpr plane, Nat.mod_lt _ high, Nat.mod_lt _ deep⟩, ?_⟩
  unfold place
  rw [Nat.mul_comm _ extent.y, Nat.div_add_mod, Nat.mul_comm, Nat.div_add_mod]

end Voxel.Extent

/-! ## Voxels of parts -/

namespace Part

variable {α β γ : Type} {part : Part} {extent size x y z : Nat}

/-- The voxels of a part, in the order of its samples. -/
def voxels (part : Part) : List (Nat × Nat × Nat) :=
  grid part.xs part.ys part.zs fun x y z => (x, y, z)

theorem grid_map (xs ys zs : List γ) (first second third : γ → α) (f : α → α → α → β) :
    grid (xs.map first) (ys.map second) (zs.map third) f =
      grid xs ys zs fun x y z => f (first x) (second y) (third z) := by
  simp only [grid, flatMap_map, map_map]
  rfl

theorem grid_eq_map (part : Part) (f : Nat → Nat → Nat → β) : grid part.xs part.ys part.zs f =
      part.voxels.map fun voxel => f voxel.1 voxel.2.1 voxel.2.2 := by
  simp only [voxels, grid, map_flatMap, map_map]
  rfl

theorem mem_voxels : (x, y, z) ∈ part.voxels ↔ x ∈ part.xs ∧ y ∈ part.ys ∧ z ∈ part.zs := by
  simp [voxels, grid]

theorem inside_of_mem_ranges {range : List Nat} (mem : range ∈ ranges extent size) :
    range ≠ [] ∧ ∀ voxel ∈ range, voxel < extent := by
  obtain ⟨index, listed, rfl⟩ := mem_map.mp mem
  rw [mem_range] at listed
  have pos : 0 < size := by
    by_contra empty
    rw [Nat.eq_zero_of_not_pos empty] at listed
    omega
  have starts : (index + 1) * size ≤ extent + size - 1 := (Nat.le_div_iff_mul_le pos).mp listed
  rw [Nat.add_mul] at starts
  constructor
  · simp only [ne_eq, range'_eq_nil_iff]
    change ¬ min size (extent - index * size) = 0
    omega
  · intro voxel inside
    rw [mem_range'_1] at inside
    change _ ∧ voxel < index * size + min size (extent - index * size) at inside
    omega

theorem exists_range (pos : 0 < size) {voxel : Nat} (inside : voxel < extent) :
    ∃ range ∈ ranges extent size, voxel ∈ range := by
  have start : voxel / size * size ≤ voxel := Nat.div_mul_le_self voxel size
  have stop : voxel < voxel / size * size + size := Nat.lt_div_mul_add pos
  refine ⟨_, mem_map_of_mem (mem_range.mpr ?_), mem_range'_1.mpr ⟨start, ?_⟩⟩
  · rw [Nat.lt_iff_add_one_le, Nat.le_div_iff_mul_le pos, Nat.add_mul]
    omega
  · change voxel < voxel / size * size + min size (extent - voxel / size * size)
    omega

variable {extent : Extent}

theorem mem_cover : part ∈ cover extent size ↔ part.xs ∈ ranges extent.x size ∧
      part.ys ∈ ranges extent.y size ∧ part.zs ∈ ranges extent.z size := by
  obtain ⟨xs, ys, zs⟩ := part
  simp [cover]

theorem contains_of_mem_cover (mem : part ∈ cover extent size) :
    part.voxels ≠ [] ∧ ∀ x y z, (x, y, z) ∈ part.voxels → extent.Contains x y z := by
  obtain ⟨along, across, down⟩ := mem_cover.mp mem
  obtain ⟨nonempty, first⟩ := inside_of_mem_ranges along
  obtain ⟨nonempty', second⟩ := inside_of_mem_ranges across
  obtain ⟨nonempty'', third⟩ := inside_of_mem_ranges down
  obtain ⟨x, here⟩ := exists_mem_of_ne_nil _ nonempty
  obtain ⟨y, there⟩ := exists_mem_of_ne_nil _ nonempty'
  obtain ⟨z, everywhere⟩ := exists_mem_of_ne_nil _ nonempty''
  constructor
  · exact ne_nil_of_mem (mem_voxels.mpr ⟨here, there, everywhere⟩)
  · intro x y z listed
    obtain ⟨a, b, c⟩ := mem_voxels.mp listed
    exact ⟨first x a, second y b, third z c⟩

/-- **The parts cover the block.** -/
theorem exists_part (pos : 0 < size) (inside : extent.Contains x y z) :
    ∃ part ∈ cover extent size, (x, y, z) ∈ part.voxels := by
  obtain ⟨xs, along, here⟩ := exists_range pos inside.1
  obtain ⟨ys, across, there⟩ := exists_range pos inside.2.1
  obtain ⟨zs, down, everywhere⟩ := exists_range pos inside.2.2
  exact ⟨⟨xs, ys, zs⟩, mem_cover.mpr ⟨along, across, down⟩,
    mem_voxels.mpr ⟨here, there, everywhere⟩⟩

end Part

/-! ## Taking over samples -/

theorem foldl_setIfInBounds {right : Nat → Float32 → Prop} {places : List Nat}
    {samples : List Float32}
    (pairs : Forall₂ right places samples) (cells : Array Float32) :
    ((places.zip samples).foldl (fun cells pair => cells.setIfInBounds pair.1 pair.2) cells).size =
        cells.size ∧
      ∀ place < cells.size, place ∈ places ∨ right place (cells.getD place 0) →
        right place (((places.zip samples).foldl
          (fun cells pair => cells.setIfInBounds pair.1 pair.2) cells).getD place 0) := by
  induction pairs generalizing cells with
  | nil => exact ⟨rfl, fun place _ either => by simpa using either⟩
  | @cons first sample rest others holds _ ih =>
    obtain ⟨size, filled⟩ := ih (cells.setIfInBounds first sample)
    rw [Array.size_setIfInBounds] at size filled
    refine ⟨size, fun place inside either => filled place inside ?_⟩
    by_cases here : place = first
    · right
      subst here
      simpa [inside] using holds
    · rcases either with listed | before
      · exact .inl ((mem_cons.mp listed).resolve_left here)
      · right
        simpa [Ne.symm here] using before

namespace BlockValues

/-- Values for some addresses are right in the cells that are done. -/
structure Settled (values : BlockValues) (addresses : List Nat) (volume : Nat)
    (right : Nat → Nat → Float32 → Prop) (done : Nat → Prop) : Prop where
  addresses_eq : values.map (·.1) = addresses
  size_eq : ∀ entry ∈ values, entry.2.size = volume
  right : ∀ entry ∈ values, ∀ place < volume, done place →
    right entry.1 place (entry.2.getD place 0)

variable {values : BlockValues} {addresses places : List Nat} {volume : Nat}
  {right : Nat → Nat → Float32 → Prop} {done : Nat → Prop}

theorem settled_zeros (addresses : List Nat) (volume : Nat) (right : Nat → Nat → Float32 → Prop) :
    (zeros addresses volume).Settled addresses volume right fun _ => False where
  addresses_eq := by
    rw [zeros, map_map]
    exact map_id _
  size_eq entry mem := by
    obtain ⟨addr, -, rfl⟩ := mem_map.mp mem
    exact Array.size_replicate
  right _ _ _ _ impossible := impossible.elim

variable (settled : values.Settled addresses volume right done)

include settled

theorem Settled.mem_addresses {entry : Nat × Array Float32} (mem : entry ∈ values) :
    entry.1 ∈ addresses := by
  rw [← settled.addresses_eq]
  exact mem_map_of_mem mem

theorem Settled.mono {fewer : Nat → Prop} (less : ∀ cell, fewer cell → done cell) :
    values.Settled addresses volume right fewer :=
  { settled with
    right := fun entry mem place inside among =>
      settled.right entry mem place inside (less place among) }

theorem Settled.add {mach : Machine Float32}
    (computed : ∀ addr ∈ addresses, Forall₂ (right addr) places (mach.buffer addr)) :
    (values.add mach places).Settled addresses volume right
      fun place => place ∈ places ∨ done place where
  addresses_eq := by
    rw [← settled.addresses_eq, BlockValues.add, map_map]
    rfl
  size_eq entry mem := by
    obtain ⟨⟨addr, cells⟩, listed, rfl⟩ := mem_map.mp mem
    rw [← settled.size_eq _ listed]
    exact (foldl_setIfInBounds (computed addr (settled.mem_addresses listed)) cells).1
  right entry mem place inside either := by
    obtain ⟨⟨addr, cells⟩, listed, rfl⟩ := mem_map.mp mem
    have size : cells.size = volume := settled.size_eq _ listed
    apply (foldl_setIfInBounds (computed addr (settled.mem_addresses listed)) cells).2 place
    · exact size ▸ inside
    · exact either.imp_right (settled.right _ listed place inside)

end BlockValues

end FieldGraph
