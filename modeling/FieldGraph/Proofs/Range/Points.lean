import FieldGraph.Proofs.Range.Isotone

/-! # Rules at points

The kernels of operations on rational numbers, and what their rules give for intervals of one
number each. Most rules then give the kernel's value alone. Those of `stepify`, `wrap` and the
smooth unions give an interval around it.
-/

namespace FieldGraph

open Arithmetic Extended FieldGraph.Interval List

variable {p q : ℚ}

namespace Interval

/-- The interval of one rational number. -/
def point (q : ℚ) : Interval Extended := ⟨rational q, rational q⟩

@[simp] theorem point_lower (q : ℚ) : (point q).lower = rational q := rfl
@[simp] theorem point_upper (q : ℚ) : (point q).upper = rational q := rfl

theorem proper_point (q : ℚ) : (point q).Proper := ⟨bottom_le_rational, le_rfl, le_rfl, le_rfl⟩

theorem isSingle_point (q : ℚ) : (point q).isSingle = true := by simp [isSingle, isFinite]

theorem toInt?_intCast (n : ℤ) : toInt? (rational n) = some n := by
  simp [toInt?, truncate?]

theorem between_point (q : ℚ) : between (rational q) (rational q) = point q :=
  between_eq bottom_le_rational le_rfl

theorem mem_point (q : ℚ) : rational q ∈ point q := proper_point q

theorem mem_of_eq_point {i : Interval Extended} (same : i = point q) : rational q ∈ i :=
  same ▸ mem_point q

theorem mem_between {r : ℚ} (first : p ≤ r) (last : r ≤ q) :
    rational r ∈ between (rational p) (rational q) := by
  rw [between_eq bottom_le_rational (rational_le_rational.mpr (first.trans last))]
  exact mem_iff.mpr
    ⟨bottom_le_rational, rational_le_rational.mpr first, rational_le_rational.mpr last⟩

@[simp] theorem point_add (p q : ℚ) : point p + point q = point (p + q) := between_point (p + q)

@[simp] theorem point_sub (p q : ℚ) : point p - point q = point (p - q) := by
  rw [sub_eq_add_neg]
  exact between_point _

@[simp] theorem point_neg (q : ℚ) : -point q = point (-q) := between_point (-q)

@[simp] theorem point_mul (p q : ℚ) : point p * point q = point (p * q) := by
  rw [mul_eq (proper_point p) (proper_point q)]
  simp [point, hull, product, least, greatest, isNaN_eq_false, between_eq]

@[simp] theorem point_div (p q : ℚ) : point p / point q = point (p / q) := by
  rcases eq_or_ne q 0 with rfl | nonzero
  · rw [div_zero]
    exact div_of_zero _
  · have apart : Apart (rational q) (rational q) := by
      simpa [Apart, or_comm] using nonzero.lt_or_gt
    rw [div_of_apart (proper_point q) apart]
    exact point_mul p q⁻¹

@[simp] theorem point_min (p q : ℚ) : (point p).min (point q) = point (p ⊓ q) := by
  rw [min_eq (proper_point p) (proper_point q)]
  simp only [point, rational_inf]

@[simp] theorem point_max (p q : ℚ) : (point p).max (point q) = point (p ⊔ q) := by
  rw [max_eq (proper_point p) (proper_point q)]
  simp only [point, rational_sup]

@[simp] theorem point_floor (q : ℚ) : (point q).floor = point ⌊q⌋ := floor_eq (proper_point q)

@[simp] theorem point_fract (q : ℚ) : (point q).fract = point (Int.fract q) :=
  fract_of_oneFloor le_rfl rfl

@[simp] theorem point_abs (q : ℚ) : (point q).abs = point |q| := by
  rw [abs_eq (proper_point q)]
  have nonneg : 0 ≤ q ⊔ -q := abs_eq_max_neg (a := q) ▸ abs_nonneg q
  simp only [point, neg_rational, rational_sup, sup_eq_left.mpr nonneg, sup_comm, abs_eq_max_neg]

@[simp] theorem point_clamp (x low high : ℚ) :
    (point x).clamp (point low) (point high) = point ((x ⊔ low) ⊓ high) := by
  simp [clamp]

@[simp] theorem point_lerp (a b t : ℚ) :
    lerp (point a) (point b) (point t) = point (a + t * (b - a)) := by
  simp [lerp]

theorem point_raised (q : ℚ) (n : ℕ) : (point q).raised n = point (q ^ n) := by
  rcases Nat.mod_two_eq_zero_or_one n with even | odd
  · rw [raised, powBase, if_pos even, point_abs]
    simp [point, power_rational, (Nat.even_iff.mpr even).pow_abs]
  · simp [raised, powBase, odd, point, power_rational]

theorem point_powers (q : ℚ) (n : ℤ) : (point q).powers n = point (q ^ n) := by
  have unit_eq : single one = point 1 := between_point 1
  unfold powers
  split_ifs with zero negative
  · rw [zero, zpow_zero, unit_eq]
  · rw [point_raised, unit_eq, point_div, one_div, ← zpow_natCast, ← zpow_neg]
    congr 2
    omega
  · rw [point_raised, ← zpow_natCast]
    congr 2
    omega

end Interval

namespace Operation

@[simp] theorem minimum_rational (p q : ℚ) :
    minimum (rational p) (rational q) = rational (p ⊓ q) := by
  rcases lt_or_ge p q with less | le
  · simp [Arithmetic.minimum, less, less.le]
  · simp [Arithmetic.minimum, le, isNaN_eq_false]

@[simp] theorem maximum_rational (p q : ℚ) :
    maximum (rational p) (rational q) = rational (p ⊔ q) := by
  rcases lt_or_ge q p with less | le
  · simp [Arithmetic.maximum, less, less.le]
  · simp [Arithmetic.maximum, le, isNaN_eq_false]

@[simp] theorem abs_rational (q : ℚ) : Arithmetic.abs (rational q) = rational |q| :=
  rational_sup q (-q)

@[simp] theorem divOr_rational (p q : ℚ) :
    divOr (rational p) (rational q) (rational 0) = rational (p / q) := by
  rcases eq_or_ne q 0 with rfl | nonzero
  · simp [divOr]
  · simp [divOr, nonzero, rational_div]

@[simp] theorem literal_eq (x : Extended) : (literal x : Extended) = x := rfl

@[simp] theorem clip_rational (q : ℚ) :
    clip (rational q) (rational 0) (rational 1) = rational (unit (rational q)) := by
  simp only [clip, unit]
  split_ifs <;> simp_all <;> grind

theorem powShared_rational (q : ℚ) (n : ℤ) :
    powShared (rational q) (rational n) = (rational q).power n := by
  have integral : (n : ℚ) ≠ 1 / 2 := by
    intro same
    have : n * 2 = 1 := by exact_mod_cast (eq_div_iff two_ne_zero).mp same
    omega
  simp only [powShared, eq_eq_true, bottom_le_rational, true_and, one_eq, zero_eq, half_eq, two_eq,
    neg_rational, rational.injEq]
  split_ifs with first second third fourth
  · obtain rfl : n = -1 := by exact_mod_cast first
    simp [div_def, power, timesTop]
  · obtain rfl : n = 0 := by exact_mod_cast second
    simp [power]
  · obtain rfl : n = 1 := by exact_mod_cast third
    simp [power]
  · obtain rfl : n = 2 := by exact_mod_cast fourth
    simp [power, sq]
  · simp [Arithmetic.pow]

theorem stepifyOf_mem (x s : ℚ) : ∃ v : ℚ, stepifyOf (rational x) (rational s) = rational v ∧
    rational v ∈ stepifyRange (point x) (point s) := by
  refine ⟨if s = 0 then x else ⌊x * s⌋ / s, ?_, ?_⟩
  · simp only [stepifyOf, divOr, eq_eq_true, bottom_le_rational, true_and,
      zero_eq, rational.injEq]
    split_ifs with zero
    · rfl
    · exact rational_div zero
  have below := Int.floor_le (x * s)
  have above := (Int.lt_floor_add_one (x * s)).le
  rcases lt_trichotomy s 0 with negative | rfl | pos
  · have first : x ≤ ⌊x * s⌋ / s := by
      rwa [le_div_iff_of_neg negative]
    have last : ⌊x * s⌋ / s ≤ x - s⁻¹ := by
      rw [div_le_iff_of_neg negative, sub_mul, inv_mul_cancel₀ negative.ne]
      linarith
    simpa [stepifyRange, negative, negative.not_gt, negative.ne, rational_div]
      using mem_between first last
  · exact mem_whole x
  · have first : x - s⁻¹ ≤ ⌊x * s⌋ / s := by
      rw [le_div_iff₀ pos, sub_mul, inv_mul_cancel₀ pos.ne']
      linarith
    have last : ⌊x * s⌋ / s ≤ x := by
      rwa [div_le_iff₀ pos]
    simpa [stepifyRange, pos, pos.ne', rational_div] using mem_between first last

theorem wrapOf_mem (x l : ℚ) : ∃ v : ℚ, wrapOf (rational x) (rational l) = rational v ∧
    rational v ∈ wrapRange (point x) (point l) := by
  refine ⟨x - l * ⌊x / l⌋, by simp [wrapOf], ?_⟩
  have below := Int.floor_le (x / l)
  have above := (Int.lt_floor_add_one (x / l)).le
  rcases lt_trichotomy l 0 with negative | rfl | pos
  · rw [div_le_iff_of_neg negative] at above
    rw [le_div_iff_of_neg negative] at below
    have first : l ≤ x - l * ⌊x / l⌋ := by linarith
    have last : x - l * ⌊x / l⌋ ≤ 0 := by linarith
    simpa [wrapRange, negative, negative.not_gt] using mem_between first last
  · have inside : rational x ∈ (point x).union (between (least zero zero) (greatest zero zero)) :=
      within_union_left (mem_point x) (proper_between _ _)
    simpa [wrapRange] using inside
  · rw [div_le_iff₀ pos] at above
    rw [le_div_iff₀ pos] at below
    have first : 0 ≤ x - l * ⌊x / l⌋ := by linarith
    have last : x - l * ⌊x / l⌋ ≤ l := by linarith
    by_cases fits : 0 ≤ x ∧ x < l
    · have floor_zero : ⌊x / l⌋ = 0 :=
        Int.floor_eq_zero_iff.mpr ⟨div_nonneg fits.1 pos.le, (div_lt_one pos).mpr fits.2⟩
      simpa [wrapRange, pos, fits, floor_zero] using mem_point x
    · simpa [wrapRange, pos, fits] using mem_between first last

theorem smoothstepOf_mem (edge0 edge1 x : ℚ) :
    ∃ v : ℚ, smoothstepOf (rational edge0) (rational edge1) (rational x) = rational v ∧
      rational v ∈ Interval.smoothstep (rational edge0) (rational edge1) (point x) := by
  obtain ⟨v, same, value⟩ :
      ∃ v, smoothstepOf (rational edge0) (rational edge1) (rational x) = rational v ∧
        smoothstepEnd (rational edge0) (rational edge1) (rational x) = rational v := by
    rcases eq_or_ne edge0 edge1 with rfl | different
    · refine ⟨if x < edge0 then 0 else 1, ?_, ?_⟩
      · by_cases below : x < edge0 <;> simp [smoothstepOf, stepOf, below]
      · by_cases below : x < edge0 <;> simp [smoothstepEnd, below]
    · have width := sub_ne_zero.mpr different.symm
      let t := unit (rational ((x - edge0) / (edge1 - edge0)))
      refine ⟨t * t * (3 - 2 * t), ?_, ?_⟩
      · simp [smoothstepOf, rampOf, different, rational_div width, t]
      · simp [smoothstepEnd, different, rational_div width, ramp_eq, t]
  refine ⟨v, same, ?_⟩
  rw [Interval.smoothstep, point, value, hull_pair bottom_le_rational bottom_le_rational, inf_idem,
    sup_idem]
  exact mem_point v

theorem remapRange_point (min0 max0 min1 max1 x : ℚ) :
    remapRange (rational min0) (rational max0) (rational min1) (rational max1) (point x) =
      point (if max0 = min0 then min1
        else (x - min0) * ((max1 - min1) / (max0 - min0)) + min1) := by
  unfold remapRange
  simp only [eq_eq_true, bottom_le_rational, true_and, rational.injEq]
  split_ifs with degenerate
  · exact between_point min1
  · rw [rational_sub, rational_sub, rational_div (sub_ne_zero.mpr degenerate), ← point_add,
      ← point_mul, ← point_sub, ← between_point ((max1 - min1) / (max0 - min0))]
    rfl

/-- The smooth union of two rational numbers. -/
def blend (k a b : ℚ) : ℚ :=
  let h := unit (rational (1 / 2 + 1 / 2 * (b - a) / k))
  b * (1 - h) + a * h - k * h * (1 - h)

theorem blend_mem {k : ℚ} (pos : 0 < k) (a b : ℚ) :
    (a ⊓ b) - k * (1 / 4) ≤ blend k a b ∧ blend k a b ≤ a ⊓ b := by
  unfold blend
  generalize weight : 1 / 2 + 1 / 2 * (b - a) / k = z
  -- The second number in terms of the first and the weight.
  obtain rfl : b = a + k * (2 * z - 1) := by
    rw [← weight]
    field_simp
    ring
  rcases le_total z 0 with low | low
  · have h_eq : unit (rational z) = 0 := by simp [unit, low]
    rw [h_eq, inf_eq_right.mpr (by nlinarith)]
    constructor <;> linarith
  rcases le_total 1 z with high | high
  · have h_eq : unit (rational z) = 1 := by simp [unit, high]
    rw [h_eq, inf_eq_left.mpr (by nlinarith)]
    constructor <;> linarith
  · have h_eq : unit (rational z) = z := by simp [unit, low, high]
    rw [h_eq]
    constructor
    · rcases le_total z (1 / 2) with small | large
      · refine (sub_le_sub_right inf_le_right _).trans ?_
        nlinarith [mul_nonneg pos.le
          (mul_nonneg (by linarith : 0 ≤ 1 / 2 - z) (by linarith : 0 ≤ 1 / 2 + z))]
      · refine (sub_le_sub_right inf_le_left _).trans ?_
        nlinarith [mul_nonneg pos.le (mul_nonneg (by linarith : 0 ≤ z - 1 / 2) (by linarith))]
    · refine le_inf ?_ ?_
      · nlinarith [mul_nonneg pos.le (sq_nonneg (1 - z))]
      · nlinarith [mul_nonneg pos.le (sq_nonneg z)]

theorem smoothUnionOf_rational (k a b : ℚ) : smoothUnionOf (rational k) (rational a) (rational b) =
      rational (if k ≤ 0 then a ⊓ b else blend k a b) := by
  simp only [smoothUnionOf, le_eq_true, bottom_le_rational, true_and, zero_eq, rational_le_rational]
  split_ifs with nonpos
  · exact minimum_rational a b
  · have nonzero : k ≠ 0 := fun zero => nonpos zero.le
    simp only [half_eq, literal_eq, rational_sub, rational_mul, rational_div nonzero, rational_add,
      one_eq, clip_rational, blend]

theorem smoothSubtractOf_rational (k a b : ℚ) :
    smoothSubtractOf (rational k) (rational a) (rational b) =
      rational (if k ≤ 0 then a ⊔ -b else -blend k b (-a)) := by
  simp only [smoothSubtractOf, le_eq_true, bottom_le_rational, true_and, zero_eq,
    rational_le_rational, neg_rational]
  split_ifs with nonpos
  · exact maximum_rational a (-b)
  · have nonzero : k ≠ 0 := fun zero => nonpos zero.le
    have weight : 1 / 2 - 1 / 2 * (b + a) / k = 1 / 2 + 1 / 2 * (-a - b) / k := by ring
    simp only [half_eq, literal_eq, rational_sub, rational_mul, rational_div nonzero, rational_add,
      one_eq, clip_rational, blend, weight]
    ring_nf

theorem ok_congr {a b : Extended} (same : a = b) :
    (.ok [a] : Except Fault (List Extended)) = .ok [b] := by
  rw [same]

/-- The value of an operation on rational numbers lies in the interval that its rule gives for
intervals of these numbers alone. -/
theorem kernel_mem_point {op : Operation} {params : List (Literal Extended)} {count : Nat}
    {args : List ℚ} (exact : op.Exact params count) (length : args.length = count)
    (powers : ∀ n, .integer n ∈ params → 0 ≤ n) :
    ∃ (v : ℚ) (i : Interval Extended), op.kernel params (args.map rational) = .ok [rational v] ∧
      op.range params (args.map point) = .ok [i] ∧ rational v ∈ i := by
  cases exact
  case' floor | abs | fract | clampConst | remap | smoothstep | powInt =>
    obtain ⟨x, rfl⟩ := length_eq_one_iff.mp length
  case' add | subtract | sdfPlane | multiply | divide | stepify | wrap | min | max |
      sdfSmoothUnion | sdfSmoothSubtract =>
    obtain ⟨x, y, rfl⟩ := length_eq_two.mp length
  case' clamp | mix | select =>
    obtain ⟨x, y, z, rfl⟩ := length_eq_three.mp length
  case add => exact ⟨x + y, _, rfl, rfl, mem_of_eq_point (point_add x y)⟩
  case subtract | sdfPlane =>
    exact ⟨x - y, _, by simp [kernel, binary], rfl, mem_of_eq_point (point_sub x y)⟩
  case multiply => exact ⟨x * y, _, rfl, rfl, mem_of_eq_point (point_mul x y)⟩
  case divide => exact ⟨x / y, _, by simp [kernel, binary], rfl, mem_of_eq_point (point_div x y)⟩
  case floor => exact ⟨⌊x⌋, _, rfl, rfl, mem_of_eq_point (point_floor x)⟩
  case abs => exact ⟨|x|, _, by simp [kernel, unary], rfl, mem_of_eq_point (point_abs x)⟩
  case fract =>
    exact ⟨Int.fract x, _, by simp [kernel, unary], rfl, mem_of_eq_point (point_fract x)⟩
  case stepify =>
    obtain ⟨v, value, inside⟩ := stepifyOf_mem x y
    exact ⟨v, _, ok_congr value, rfl, inside⟩
  case wrap =>
    obtain ⟨v, value, inside⟩ := wrapOf_mem x y
    exact ⟨v, _, ok_congr value, rfl, inside⟩
  case min => exact ⟨x ⊓ y, _, by simp [kernel, binary], rfl, mem_of_eq_point (point_min x y)⟩
  case max => exact ⟨x ⊔ y, _, by simp [kernel, binary], rfl, mem_of_eq_point (point_max x y)⟩
  case clamp =>
    exact ⟨(x ⊔ y) ⊓ z, _, by simp [kernel, ternary], rfl, mem_of_eq_point (point_clamp x y z)⟩
  case clampConst low high =>
    refine ⟨(x ⊔ low) ⊓ high, _, by simp [kernel, unary], rfl, ?_⟩
    exact mem_of_eq_point (by rw [← point_clamp, ← between_point low, ← between_point high]; rfl)
  case mix =>
    exact ⟨x + z * (y - x), _, by simp [kernel, ternary], rfl, mem_of_eq_point (point_lerp x y z)⟩
  case remap min0 max0 min1 max1 =>
    refine ⟨_, _, ?_, rfl, mem_of_eq_point (remapRange_point min0 max0 min1 max1 x)⟩
    rcases eq_or_ne max0 min0 with rfl | different
    · simp [kernel, unary, remapOf]
    · simp [kernel, unary, remapOf, linearOf, different, rational_div (sub_ne_zero.mpr different)]
  case smoothstep edge0 edge1 =>
    obtain ⟨v, value, inside⟩ := smoothstepOf_mem edge0 edge1 x
    exact ⟨v, _, ok_congr value, rfl, inside⟩
  case select threshold =>
    refine ⟨if z < threshold then x else y, _, ?_, rfl, mem_of_eq_point ?_⟩
    all_goals by_cases below : z < threshold <;> simp [kernel, ternary, selectRange, below]
  case powInt n =>
    have regular : ¬(x = 0 ∧ n < 0) := fun singular => (powers n (by simp)).not_gt singular.2
    refine ⟨x ^ n, point (x ^ n), ?_, ?_, mem_point _⟩
    · exact ok_congr ((powShared_rational x n).trans (if_neg regular))
    · exact congrArg one? ((powInt?_eq (proper_point x) n).trans (by rw [point_powers]))
  case sdfSmoothUnion k =>
    refine ⟨_, _, ok_congr (smoothUnionOf_rational k x y), rfl, ?_⟩
    rcases le_or_gt k 0 with nonpos | pos
    · simpa [Interval.smoothUnion, nonpos] using mem_point (x ⊓ y)
    · obtain ⟨first, last⟩ := blend_mem pos x y
      simpa [Interval.smoothUnion, pos.not_ge] using mem_between first last
  case sdfSmoothSubtract k =>
    refine ⟨_, _, ok_congr (smoothSubtractOf_rational k x y), rfl, ?_⟩
    rcases le_or_gt k 0 with nonpos | pos
    · simpa [Interval.smoothSubtract, nonpos] using mem_point (x ⊔ -y)
    · obtain ⟨first, last⟩ := blend_mem pos y (-x)
      have turned : x ⊔ -y = -(y ⊓ -x) := by rw [neg_inf, neg_neg, sup_comm]
      have low : x ⊔ -y ≤ -blend k y (-x) := by linarith
      have high : -blend k y (-x) ≤ (x ⊔ -y) + k * (1 / 4) := by linarith
      simpa [Interval.smoothSubtract, pos.not_ge] using mem_between low high

end Operation

end FieldGraph
