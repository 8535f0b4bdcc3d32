import FieldGraph.Proofs.Extended

/-! # The range of value noise

A hash is a word whose high half is clear: it is cleared after the seed and after every
coordinate, so the products of hashes with their factors fit a word. A lattice value is one of
65536 numbers between minus one and one. Between the lattice points they are blended with weights
between zero and one, so no sample of a noise leaves this range.
-/

namespace FieldGraph.ValueNoise

open Arithmetic Extended

/-! ## Words -/

/-- The high half of a word is clear. -/
def Short (word : UInt64) : Prop := word.toNat < 2 ^ 32

instance (word : UInt64) : Decidable (Short word) := inferInstanceAs (Decidable (_ < _))

/-- The product of two words fits a word. -/
def Fits (a b : UInt64) : Prop := (a * b).toNat = a.toNat * b.toNat

variable {word factor : UInt64}

theorem short_low32 (word : UInt64) : Short (low32 word) := by
  exact Nat.lt_of_le_of_lt Nat.and_le_right (by decide)

theorem Short.xor_shiftRight (short : Short word) (places : UInt64) :
    Short (word ^^^ (word >>> places)) := by
  refine Nat.xor_lt_two_pow short (Nat.lt_of_le_of_lt ?_ short)
  exact Nat.shiftRight_le _ _

theorem Short.fits (short : Short word) (other : Short factor) : Fits word factor := by
  have bounded : word.toNat * factor.toNat < 2 ^ 32 * 2 ^ 32 := Nat.mul_lt_mul'' short other
  exact Nat.mod_eq_of_lt bounded

/-- The hash that the coordinates of a point leave, each with the factor of its axis. -/
def hashOf (seed : Int) (coordinates : List (UInt64 × UInt64)) : UInt64 :=
  coordinates.foldl (fun hash (coordinate, factor) => absorb hash coordinate factor) (seedWord seed)

/-- All words that are made of a hash, with a further coordinate or as the last one, are short,
and products are not cut off. Only the product of a coordinate with its factor may be. -/
structure Contained (hash : UInt64) : Prop where
  short : Short hash
  mixed : ∀ coordinate factor, Short (low32 (hash ^^^ coordinate * factor))
  spread : ∀ coordinate factor, let mixed := low32 (hash ^^^ coordinate * factor)
    Short (mixed ^^^ (mixed >>> 15)) ∧ Fits (mixed ^^^ (mixed >>> 15)) 0x2C1B3C6D
  absorbed : ∀ coordinate factor, Short (absorb hash coordinate factor)
  last : Short (hash ^^^ (hash >>> 13)) ∧ Fits (hash ^^^ (hash >>> 13)) 0x297A2D39 ∧
    Short (low32 ((hash ^^^ (hash >>> 13)) * 0x297A2D39))
  finished : Short (finish hash)

theorem Short.contained (short : Short word) : Contained word where
  short := short
  mixed _ _ := short_low32 _
  spread _ _ :=
    have spread := (short_low32 _).xor_shiftRight 15
    ⟨spread, spread.fits (by decide)⟩
  absorbed _ _ := short_low32 _
  last :=
    have spread := short.xor_shiftRight 13
    ⟨spread, spread.fits (by decide), short_low32 _⟩
  finished := (short_low32 _).xor_shiftRight 16

theorem contained_hashOf (seed : Int) (coordinates : List (UInt64 × UInt64)) :
    Contained (hashOf seed coordinates) := by
  have short (hash : UInt64) (start : Short hash) :
      Short (coordinates.foldl (fun hash (coordinate, factor) => absorb hash coordinate factor)
        hash) := by
    induction coordinates generalizing hash with
    | nil => exact start
    | cons first rest ih => exact ih _ (start.contained.absorbed first.1 first.2)
  exact (short _ (short_low32 _)).contained

/-! ## Values -/

/-- A number between minus one and one. -/
def InRange (x : Extended) : Prop := ∃ v : ℚ, x = rational v ∧ -1 ≤ v ∧ v ≤ 1

/-- A number between zero and one. -/
def IsWeight (x : Extended) : Prop := ∃ t : ℚ, x = rational t ∧ 0 ≤ t ∧ t ≤ 1

theorem inRange_latticeValue (seed : Int) (point : List Extended) :
    InRange (latticeValue seed point) := by
  have bounded : (latticeHash seed (point.map toWord) &&& 0xFFFF).toNat ≤ 65535 := by
    exact Nat.and_le_right
  unfold latticeValue
  dsimp only
  generalize (latticeHash seed (point.map toWord) &&& 0xFFFF).toNat = n at bounded
  have small : (n : ℚ) ≤ 65535 := by exact_mod_cast bounded
  have scale : (ofNat 65535 / two) = rational (65535 / 2) := by
    exact rational_div two_ne_zero
  have scaled : (ofNat n / rational (65535 / 2)) = rational (n / (65535 / 2)) :=
    rational_div (by norm_num)
  refine ⟨n / (65535 / 2) - 1, ?_, ?_, ?_⟩
  · simp only [scale, scaled, one_eq, rational_sub]
  · linarith
  · linarith

theorem isWeight_fade {t : ℚ} (nonneg : 0 ≤ t) (small : t ≤ 1) : IsWeight (fade (rational t)) := by
  refine ⟨t * t * (3 - 2 * t), by simp [fade], by nlinarith [mul_nonneg nonneg nonneg], ?_⟩
  -- The rest to one is a square times a positive number.
  have := mul_nonneg (sq_nonneg (1 - t)) (by linarith : 0 ≤ 1 + 2 * t)
  linarith

theorem inRange_blend {t a b : Extended} (weight : IsWeight t) (first : InRange a)
    (second : InRange b) : InRange (blend t a b) := by
  obtain ⟨t, rfl, nonneg, small⟩ := weight
  obtain ⟨a, rfl, _⟩ := first
  obtain ⟨b, rfl, _⟩ := second
  refine ⟨a + t * (b - a), by simp [blend], ?_, ?_⟩ <;> nlinarith

section Samples

variable {noise : ValueNoise Extended} {period : ℚ} (isPeriod : noise.period = rational period)
  (pos : 0 < period)

include isPeriod pos

theorem isWeight_locate (x : ℚ) : IsWeight (noise.locate (rational x)).2 := by
  have scaled : rational x / noise.period = rational (x / period) := by
    rw [isPeriod, rational_div pos.ne']
  have rest : rational (x / period) - floor (rational (x / period)) =
      rational (Int.fract (x / period)) := rational_sub
  simp only [locate, scaled, rest]
  exact isWeight_fade (Int.fract_nonneg _) (Int.fract_lt_one _).le

theorem inRange_plane (x y : ℚ) (rest : List Extended) :
    InRange (noise.plane (noise.locate (rational x)) (noise.locate (rational y)) rest) := by
  have along := isWeight_locate isPeriod pos x
  exact inRange_blend (isWeight_locate isPeriod pos y)
    (inRange_blend along (inRange_latticeValue _ _) (inRange_latticeValue _ _))
    (inRange_blend along (inRange_latticeValue _ _) (inRange_latticeValue _ _))

end Samples

/-- **Noise stays in its range.** In exact arithmetic, a noise of any seed and any positive period
gives every point of the plane and of space a number between minus one and one. The hash behind
it is short from the seed on, whatever coordinates it takes in, and no product of it is cut off. -/
theorem noise_in_range (seed : Int) (period : ℚ) (pos : 0 < period) :
    (∀ x y : ℚ, InRange (sample2 ⟨seed, rational period⟩ (rational x) (rational y))) ∧
    (∀ x y z : ℚ,
      InRange (sample3 ⟨seed, rational period⟩ (rational x) (rational y) (rational z))) ∧
    (∀ point : List UInt64, latticeHash seed point = finish (hashOf seed (point.zip axisFactors))) ∧
    Short (low32 (.ofInt (seed % Int.pow 2 32))) ∧
    Fits (low32 (.ofInt (seed % Int.pow 2 32))) 0x85EBCA77 ∧
    ∀ coordinates, Contained (hashOf seed coordinates) := by
  have plane := @inRange_plane ⟨seed, rational period⟩ period rfl pos
  refine ⟨fun x y => plane x y [], fun x y z => ?_, fun _ => rfl, short_low32 _,
    (short_low32 _).fits (by decide), contained_hashOf seed⟩
  exact inRange_blend (isWeight_locate rfl pos z) (plane x y _) (plane x y _)

/-- A negative seed and a short period, at a point between lattice points on both sides of zero. -/
theorem noise_in_range_negative : (0 : ℚ) < 1 / 3 ∧
    InRange (sample3 ⟨-2 ^ 40 - 7, rational (1 / 3)⟩ (rational (-1 / 2)) (rational 0)
      (rational 7)) :=
  ⟨by norm_num, (noise_in_range (-2 ^ 40 - 7) (1 / 3) (by norm_num)).2.1 (-1 / 2) 0 7⟩

end FieldGraph.ValueNoise
