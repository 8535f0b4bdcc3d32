import FieldGraph.Proofs.Double
import FieldGraph.Proofs.Extended
import FieldGraph.Voxel.Buffer

/-! # Distances stored as integers

Channels of 8 and 16 bits store a distance as an integer. Without rounding errors on the way,
storing is a monotone rounding to the grid of the stored integers, cut off at the ends of the band
that the channel covers. What is read back is a point of the grid, so storing it again changes
nothing.
-/

namespace FieldGraph

open Arithmetic Extended

/-! ## Rounding -/

namespace Extended

variable {x y : ℚ}

theorem roundEven_rational (x : ℚ) : roundEven (rational x) =
    if Int.fract x < 1 / 2 ∨ Int.fract x = 1 / 2 ∧ ⌊x⌋ % 2 = 0 then ⌊x⌋ else ⌊x⌋ + 1 := rfl

theorem roundEven_bounds (x : ℚ) :
    ⌊x⌋ ≤ roundEven (rational x) ∧ roundEven (rational x) ≤ ⌊x⌋ + 1 := by
  rw [roundEven_rational]
  split <;> omega

theorem abs_roundEven_sub_le (x : ℚ) : |(roundEven (rational x) : ℚ) - x| ≤ 1 / 2 := by
  have parts := Int.floor_add_fract x
  have nonneg := Int.fract_nonneg x
  have small := Int.fract_lt_one x
  rw [roundEven_rational, abs_le]
  split
  · rename_i below
    have half : Int.fract x ≤ 1 / 2 := below.elim le_of_lt fun tie => tie.1.le
    constructor <;> linarith
  · rename_i above
    have half : 1 / 2 ≤ Int.fract x := not_lt.mp fun below => above (.inl below)
    push_cast
    constructor <;> linarith

theorem roundEven_mono (le : x ≤ y) : roundEven (rational x) ≤ roundEven (rational y) := by
  rcases (Int.floor_mono le).lt_or_eq with lower | same
  · exact (roundEven_bounds x).2.trans (lower.trans_le (roundEven_bounds y).1)
  · -- In one unit, what is rounded up is so for all larger numbers.
    have fractions : Int.fract x ≤ Int.fract y := by
      rw [Int.fract, same]
      exact sub_le_sub_right le _
    rw [roundEven_rational, roundEven_rational, same]
    split_ifs with first second second
    · exact le_rfl
    · omega
    · refine (first ?_).elim
      rcases second with below | ⟨tie, even⟩
      · exact .inl (fractions.trans_lt below)
      · rcases (fractions.trans_eq tie).lt_or_eq with below | also
        · exact .inl below
        · exact .inr ⟨also, even⟩
    · exact le_rfl

theorem roundEven_intCast (n : ℤ) : roundEven (rational n) = n := by
  rw [roundEven_rational, Int.floor_intCast, if_pos (.inl (by norm_num))]

theorem clip_rational (x : ℚ) : clip (rational x) (-one) one = rational (max (-1) (min x 1)) := by
  rw [clip]
  rcases lt_or_ge x (-1) with low | low
  · simp [low, (min_le_left x 1).trans low.le]
  · rcases lt_or_ge 1 x with high | high
    · simp [low.not_gt, high, high.le]
    · simp [low.not_gt, high, low]

end Extended

/-! ## Storing and reading -/

namespace Voxel

variable {R : Type} [Arithmetic R] {depth : Depth} {levels : Nat} {scale : ℚ}

/-- The integer that is stored for a distance. -/
def storedDistance (depth : Depth) (levels : Nat) (distance : R) : Int :=
  quantize levels (distance * depth.scale)

/-- The distance that a stored integer stands for. -/
def readDistance (depth : Depth) (levels : Nat) (stored : Int) : R :=
  dequantize levels stored / depth.scale

theorem levels_pos (isInteger : depth.levels? = some levels) : 0 < levels ∧ levels < 2 ^ 15 := by
  cases depth <;> cases isInteger <;> decide

theorem exists_scale (depth : Depth) : ∃ scale : ℚ, 0 < scale ∧ depth.scale = rational scale := by
  cases depth
  · exact ⟨1 / 10, by norm_num, (congrArg (· / _) one_eq).trans (rational_div (by norm_num))⟩
  · exact ⟨1 / 500, by norm_num, (congrArg (· / _) one_eq).trans (rational_div (by norm_num))⟩
  all_goals exact ⟨1, one_pos, one_eq⟩

section Exact

variable (scaled : depth.scale = rational scale) (unit : 0 < scale) (pos : 0 < levels)

include scaled

theorem storedDistance_rational (d : ℚ) : storedDistance depth levels (rational d) =
    roundEven (rational (max (-1) (min (d * scale) 1) * levels)) := by
  rw [storedDistance, scaled]
  exact congrArg roundEven (congrArg (· * rational _) (clip_rational _))

include pos in
theorem storedDistance_bounds (d : ℚ) : -(levels : ℤ) ≤ storedDistance depth levels (rational d) ∧
      storedDistance depth levels (rational d) ≤ levels := by
  have wide : (0 : ℚ) < levels := by exact_mod_cast pos
  have low : (-1 : ℚ) ≤ max (-1) (min (d * scale) 1) := le_max_left _ _
  have high : max (-1) (min (d * scale) 1) ≤ 1 := max_le (by norm_num) (min_le_right _ _)
  rw [storedDistance_rational scaled]
  constructor
  · rw [← roundEven_intCast (-levels)]
    apply roundEven_mono
    push_cast
    nlinarith
  · rw [← roundEven_intCast levels]
    apply roundEven_mono
    push_cast
    nlinarith

include unit

include pos

theorem readDistance_eq (n : ℤ) :
    readDistance depth levels n = rational (max ((n : ℚ) / levels) (-1) / scale) := by
  have whole : (ofInteger n) = rational n := by
    cases n with
    | ofNat n => rfl
    | negSucc n => exact congrArg rational (Int.cast_negSucc n).symm
  have divided : rational n / ofNat levels = rational (n / levels) := rational_div (by positivity)
  rw [readDistance, dequantize, scaled, whole, divided, one_eq, neg_rational, maximum]
  simp only [isNaN_eq_false, Bool.or_false, lt_eq_true, bottom_le_rational,
    rational_lt_rational, true_and]
  split
  · rename_i above
    rw [rational_div unit.ne', max_eq_left above.le]
  · rename_i below
    rw [rational_div unit.ne', max_eq_right (not_lt.mp below)]

variable {n : ℤ} (lower : -(levels : ℤ) ≤ n)

include lower

theorem readDistance_of_le : readDistance depth levels n = rational ((n : ℚ) / levels / scale) := by
  have wide : (0 : ℚ) < levels := by exact_mod_cast pos
  rw [readDistance_eq scaled unit pos, max_eq_left]
  rw [le_div_iff₀ wide]
  exact_mod_cast (by omega : -1 * levels ≤ n)

theorem storedDistance_grid (upper : n ≤ levels) :
    storedDistance depth levels (rational ((n : ℚ) / levels / scale)) = n := by
  have wide : (0 : ℚ) < levels := by exact_mod_cast pos
  have low : (-1 : ℚ) ≤ n / levels := by
    rw [le_div_iff₀ wide]
    exact_mod_cast (by omega)
  have high : (n : ℚ) / levels ≤ 1 := by
    rw [div_le_one wide]
    exact_mod_cast upper
  rw [storedDistance_rational scaled, div_mul_cancel₀ _ unit.ne', min_eq_left high,
    max_eq_right low, div_mul_cancel₀ _ wide.ne', roundEven_intCast]

omit lower

theorem exists_readDistance_stored (d : ℚ) : ∃ r : ℚ,
    readDistance depth levels (storedDistance depth levels (rational d)) = rational r ∧
      |r - max (-(1 / scale)) (min d (1 / scale))| ≤ 1 / (levels * scale) / 2 := by
  have wide : (0 : ℚ) < levels := by exact_mod_cast pos
  have error := abs_roundEven_sub_le (max (-1) (min (d * scale) 1) * levels)
  have band : max (-(1 / scale)) (min d (1 / scale)) = max (-1) (min (d * scale) 1) / scale := by
    rw [← max_div_div_right unit.le, ← min_div_div_right unit.le, neg_div,
      mul_div_cancel_right₀ _ unit.ne']
  refine ⟨_, readDistance_of_le scaled unit pos (storedDistance_bounds scaled pos d).1, ?_⟩
  rw [band, storedDistance_rational scaled]
  generalize max (-1) (min (d * scale) 1) = c at error ⊢
  have moved : (roundEven (rational (c * levels))) / levels / scale - c / scale =
      (roundEven (rational (c * levels)) - c * levels) / (levels * scale) := by
    field_simp
  rw [moved, abs_div, abs_of_pos (mul_pos wide unit), div_right_comm]
  gcongr

theorem storedDistance_lowest :
    storedDistance depth levels (readDistance depth levels (-(levels + 1 : ℤ)) : Extended) =
      -levels := by
  have wide : (0 : ℚ) < levels := by exact_mod_cast pos
  have lowest : ((-(levels + 1) : ℤ) : ℚ) / levels ≤ -1 := by
    rw [div_le_iff₀ wide]
    push_cast
    linarith
  have last := @storedDistance_grid _ _ _ scaled unit pos (-levels) le_rfl (by omega)
  rw [readDistance_eq scaled unit pos, max_eq_right lowest]
  rwa [Int.cast_neg, Int.cast_natCast, neg_div, div_self wide.ne'] at last

end Exact

/-! ## Buffers -/

theorem distanceOf_integer {buffer : Buffer} {n : Int}
    (isInteger : buffer.sdfDepth.levels? = some levels) (small : n.natAbs ≤ 2 ^ 15) :
    buffer.distanceOf (.integer n) = readDistance buffer.sdfDepth levels n := by
  have admitted : Double.admits n = true :=
    Double.admits_of_le (show 2 ^ 15 < Nat.pow 2 53 by decide) (Nat.zero_le 971) (by simpa)
  have real : (Number.integer n).toReal = .ok (Float.ofInt n) := by
    simp only [Number.toReal, Number.toReal?, ofInt?, Double.ofInt?, if_pos admitted]
  simp only [Buffer.distanceOf, decodeDistance, isInteger, real, readDistance]

/-- **Storing distances is a monotone rounding with a stable image.** What a channel of 8 or 16
bits stores is `storedDistance` of each distance, and what is read from it is `readDistance` of
each integer. In exact arithmetic, a distance is read back to within half a step of itself, cut
off at the ends of the band; larger distances are not stored as smaller integers; no sign is
turned; and what is read is stored as the same integer again, with the exception of the lowest
integer of the channel, which no distance is stored as. -/
theorem distances_quantized (depth : Depth) (levels : Nat)
    (isInteger : depth.levels? = some levels) :
    (∀ (buffer : Buffer) (distances : Array Float), buffer.sdfDepth = depth →
      (buffer.setDistances distances none).distances =
        distances.map fun distance => .integer (storedDistance depth levels distance)) ∧
    (∀ (buffer : Buffer) (stored : Array Int), buffer.sdfDepth = depth →
      buffer.distances = stored.map .integer →
      (∀ n ∈ stored, -(levels + 1 : Int) ≤ n ∧ n ≤ levels) →
        buffer.getDistances = stored.map (readDistance depth levels)) ∧
    ∃ scale : ℚ, 0 < scale ∧ depth.scale = rational scale ∧ (∀ d : ℚ, ∃ r : ℚ,
        readDistance depth levels (storedDistance depth levels (rational d)) = rational r ∧
          |r - max (-(1 / scale)) (min d (1 / scale))| ≤ 1 / (levels * scale) / 2) ∧
      (∀ d e : ℚ, d ≤ e →
        storedDistance depth levels (rational d) ≤ storedDistance depth levels (rational e)) ∧
      (∀ d : ℚ, (0 ≤ d → 0 ≤ storedDistance depth levels (rational d)) ∧
        (d ≤ 0 → storedDistance depth levels (rational d) ≤ 0)) ∧
      (∀ d : ℚ, -(levels : Int) ≤ storedDistance depth levels (rational d) ∧
        storedDistance depth levels (rational d) ≤ levels) ∧
      (∀ n : Int, -(levels : Int) ≤ n → n ≤ levels →
        storedDistance depth levels (readDistance depth levels n : Extended) = n) ∧
      storedDistance depth levels (readDistance depth levels (-(levels + 1 : Int)) : Extended) =
        -levels := by
  obtain ⟨pos, few⟩ := levels_pos isInteger
  obtain ⟨scale, unit, scaled⟩ := exists_scale depth
  have mono {d e : ℚ} (le : d ≤ e) : storedDistance depth levels (rational d) ≤
      storedDistance depth levels (rational e) := by
    rw [storedDistance_rational scaled, storedDistance_rational scaled]
    apply roundEven_mono
    gcongr
  have zero : storedDistance depth levels (rational 0) = 0 := by
    simpa using @storedDistance_grid _ _ _ scaled unit pos 0 (by omega) (by omega)
  refine ⟨fun buffer distances same => ?_, fun buffer stored same cells small => ?_, scale, unit,
    scaled, exists_readDistance_stored scaled unit pos, fun d e => mono, fun d => ⟨fun above => ?_,
    fun below => ?_⟩, storedDistance_bounds scaled pos, fun n lower upper => ?_,
    storedDistance_lowest scaled unit pos⟩
  · subst same
    simp only [Buffer.setDistances, encodeDistance, isInteger]
    rfl
  · subst same
    rw [Buffer.getDistances, cells, Array.map_map]
    refine Array.map_congr_left fun n mem => distanceOf_integer isInteger ?_
    obtain ⟨lower, upper⟩ := small n mem
    omega
  · exact zero ▸ mono above
  · exact zero ▸ mono below
  · rw [readDistance_of_le scaled unit pos lower, storedDistance_grid scaled unit pos lower upper]

/-- What the lowest integer of eight bits is read as is stored as the next one. -/
theorem distances_quantized_bits8 : Depth.levels? .bits8 = some 127 ∧
      storedDistance .bits8 127 (readDistance .bits8 127 (-128) : Extended) = -127 ∧
      storedDistance .bits8 127 (readDistance .bits8 127 (-127) : Extended) = -127 := by
  obtain ⟨-, -, scale, -, -, -, -, -, -, stable, lowest⟩ := distances_quantized .bits8 127 rfl
  exact ⟨rfl, lowest, stable (-127) (by decide) (by decide)⟩

end Voxel

end FieldGraph
