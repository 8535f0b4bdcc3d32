import FieldGraph.Proofs.Range.Points

/-! # Powers in rounded arithmetic

Ranges are computed in one precision and samples in another. Whatever the two are, the rule for an
integer power holds of all members of an interval if it holds of its ends, since rounding keeps the
order. The cases in which no end is extreme, even powers around zero and reciprocals around it, have
bounds that are never rounded: zero, or the whole line.
-/

namespace FieldGraph

open Arithmetic Extended FieldGraph.Interval

/-- How a precision rounds: never against the order, and infinite and small numbers not at all.
Large numbers may become infinite, and those near zero vanish. -/
structure Rounding where
  round : Extended → Extended
  mono : Monotone round
  kept : ∀ x ∈ [undefined, bottom, rational (-1), rational 0, rational (1 / 2), rational 1, top],
    round x = x

namespace Rounding

/-- Exact arithmetic with rounded results. -/
@[reducible] def arithmetic (rounding : Rounding) : Arithmetic Extended :=
  { (inferInstance : Arithmetic Extended) with
    add := fun a b => rounding.round (a + b)
    sub := fun a b => rounding.round (a - b)
    mul := fun a b => rounding.round (a * b)
    div := fun a b => rounding.round (a / b)
    ofInt? := fun n => some (rounding.round (rational n))
    pow := fun a b => rounding.round (pow a b) }

/-- What an operation makes of samples, its literals being of another precision. -/
def kernel (bounds samples : Rounding) :
    Operation → List (Literal Extended) → List Extended → Except Fault (List Extended) :=
  @Operation.kernel Extended Extended bounds.arithmetic samples.arithmetic ⟨samples.round, id⟩

/-- The rounded ends of an interval raised to a positive power. -/
def raised (rounding : Rounding) (i : Interval Extended) (n : ℕ) : Interval Extended :=
  ⟨rounding.round (i.raised n).lower, rounding.round (i.raised n).upper⟩

variable {bounds samples : Rounding} {a : Extended} {i : Interval Extended} {q : ℚ} {n : ℕ}

section

variable (rounding : Rounding)

theorem round_zero : rounding.round (rational 0) = rational 0 := rounding.kept _ (by simp)

theorem round_nonneg (nonneg : rational 0 ≤ a) : rational 0 ≤ rounding.round a :=
  rounding.round_zero.symm.trans_le (rounding.mono nonneg)

theorem round_nonpos (nonpos : a ≤ rational 0) : rounding.round a ≤ rational 0 :=
  (rounding.mono nonpos).trans_eq rounding.round_zero

theorem bottom_le_round (defined : bottom ≤ a) : bottom ≤ rounding.round a :=
  (rounding.kept _ (by simp)).symm.trans_le (rounding.mono defined)

theorem round_ne_zero (large : 1 ≤ |q|) : rounding.round (rational q) ≠ rational 0 := by
  intro vanishes
  rcases le_abs.mp large with above | below
  · have le := rounding.mono (rational_le_rational.mpr above)
    rw [vanishes, rounding.kept (rational 1) (by simp), rational_le_rational] at le
    linarith
  · have le := rounding.mono (rational_le_rational.mpr (le_neg.mp below))
    rw [vanishes, rounding.kept (rational (-1)) (by simp), rational_le_rational] at le
    linarith

end

/-- The reciprocal of a number that one precision takes for zero is not zero in any other. -/
theorem round_one_div_ne_zero (vanishes : bounds.round a = rational 0) :
    samples.round (one / a) ≠ rational 0 := by
  cases a with
  | undefined | bottom | top => simp [bounds.kept] at vanishes
  | rational q =>
    rcases eq_or_ne q 0 with rfl | nonzero
    · simp [div_def, timesTop, samples.kept]
    · have small : |q| < 1 := not_le.mp fun large => bounds.round_ne_zero large vanishes
      rw [one_eq, rational_div nonzero, one_div]
      refine samples.round_ne_zero ?_
      rw [abs_inv]
      exact (one_le_inv₀ (abs_pos.mpr nonzero)).mpr small.le

/-! ## Powers of ends -/

theorem powIntEnd?_eq (kept : bounds.round (rational (n : ℤ)) = rational (n : ℤ)) (a : Extended) :
    @powIntEnd? Extended bounds.arithmetic a n = some (bounds.round (a.power n)) := by
  have exponent : @ofInt? Extended bounds.arithmetic n = some (rational (n : ℤ)) :=
    congrArg some kept
  have power_eq : @powEnd Extended bounds.arithmetic a (rational (n : ℤ)) =
      bounds.round (a.power n) := by
    have same : pow a (rational (n : ℤ)) = a.power n := by simp [pow]
    refine (if_neg ?_).trans (congrArg bounds.round same)
    change ¬(Arithmetic.eq a zero && Arithmetic.lt (rational (n : ℤ)) zero && _) = true
    simp
  simp only [powIntEnd?, exponent, power_eq]
  split_ifs with beyond
  · -- An infinite power of a negative number has the sign that the exponent gives it.
    change (Arithmetic.lt a zero && isFinite a && isInfinite (bounds.round (a.power n))) = true
      at beyond
    cases a with
    | undefined | bottom | top => simp [isFinite] at beyond
    | rational q =>
      simp only [lt_eq_true, zero_eq, Bool.and_eq_true, rational_lt_rational] at beyond
      rw [power_rational] at beyond ⊢
      refine congrArg some ?_
      rcases Nat.mod_two_eq_zero_or_one n with even | odd
      · have sign := bounds.round_nonneg
          (rational_le_rational.mpr ((Nat.even_iff.mpr even).pow_nonneg q))
        refine (if_pos (by omega)).trans ?_
        cases value : bounds.round (rational (q ^ n)) <;>
          simp_all [isInfinite, isFinite, le_iff, infinity]
      · have sign := bounds.round_nonpos
          (rational_le_rational.mpr ((Nat.odd_iff.mpr odd).pow_nonpos beyond.1.1.2.le))
        refine (if_neg (by omega)).trans ?_
        cases value : bounds.round (rational (q ^ n)) <;>
          simp_all [isInfinite, isFinite, isNaN, le_iff]
        rfl
  · rfl

theorem powPositive?_eq (pos : 0 < n) (proper : i.Proper)
    (kept : bounds.round (rational (n : ℤ)) = rational (n : ℤ)) :
    @powPositive? Extended bounds.arithmetic i n = some (bounds.raised i n) := by
  have base : (if (n : ℤ) % 2 = 0 then @Interval.abs Extended bounds.arithmetic i else i) =
      i.powBase n := by
    congr 1
    exact propext (by omega)
  obtain ⟨defined, -, ordered, -⟩ := Within.raised pos proper
  simp only [powPositive?, base, powIntEnd?_eq kept, Option.some.injEq]
  exact between_eq (bounds.bottom_le_round defined) (bounds.mono ordered)

theorem powShared_eq (own : samples.round a = a) (b : Extended) :
    @powShared Extended samples.arithmetic a b = samples.round (powShared a b) := by
  have half_kept : @half Extended samples.arithmetic = half := by
    change samples.round half = half
    exact samples.kept _ (by simp)
  have one_kept : samples.round one = one := samples.kept _ (by simp)
  have sqrt_kept : samples.round (Arithmetic.sqrt a) = Arithmetic.sqrt a :=
    samples.kept undefined (by simp)
  simp only [powShared, apply_ite samples.round, half_kept, one_kept, sqrt_kept, own]
  rfl

theorem power_of_neg (even : n % 2 = 0) (a : Extended) : (-a).power n = a.power n := by
  have even' : (n : ℤ) % 2 = 0 := by omega
  cases a with
  | rational q => rw [neg_rational, power_rational, power_rational, (Nat.even_iff.mpr even).neg_pow]
  | bottom | top => simp [power, even']
  | undefined => rfl

theorem one_div_power (pos : 0 < n) (a : Extended) : one / a.power n = a.power (-n) := by
  cases a with
  | undefined => simp [power, pos.ne', div_def]
  | bottom =>
    simp only [power]
    split_ifs <;> simp_all [div_def]
    omega
  | rational q =>
    rw [power_rational, one_eq, div_def]
    by_cases zero : q = 0 <;> simp [power, zero, pos, pos.ne', timesTop]
  | top =>
    rw [power_top pos]
    simp [power, pos, pos.ne', div_def]

/-- The larger end of an interval of powers is the power of an end, and so is the smaller one unless
it is zero. -/
theorem raised_ends (pos : 0 < n) (proper : i.Proper) :
    (∃ x ∈ [i.lower, i.upper], (i.raised n).upper = x.power n) ∧
      ((i.raised n).lower = rational 0 ∨
        ∃ x ∈ [i.lower, i.upper], (i.raised n).lower = x.power n) := by
  rcases Nat.mod_two_eq_zero_or_one n with even | odd
  · rw [Interval.raised, powBase, if_pos even, abs_eq proper]
    constructor
    · rcases le_total (-i.lower) i.upper with le | le
      · exact ⟨i.upper, by simp, by rw [sup_eq_right.mpr le]⟩
      · exact ⟨i.lower, by simp, by rw [sup_eq_left.mpr le, power_of_neg even]⟩
    rcases le_total (i.lower ⊔ -i.upper) (rational 0) with le | le
    · exact .inl (by rw [sup_eq_right.mpr le, power_rational, zero_pow pos.ne'])
    · rw [sup_eq_left.mpr le]
      rcases le_total i.lower (-i.upper) with le' | le'
      · exact .inr ⟨i.upper, by simp, by rw [sup_eq_right.mpr le', power_of_neg even]⟩
      · exact .inr ⟨i.lower, by simp, by rw [sup_eq_left.mpr le']⟩
  · simp [Interval.raised, powBase, odd]

/-! ## Powers of members -/

section

variable (pos : 0 < n) (member : rational q ∈ i)

include pos member

/-- Positive powers of members lie between those of the ends. -/
theorem mem_raised
    (ends : ∀ x ∈ [i.lower, i.upper], samples.round (x.power n) ∈ bounds.raised i n) :
    samples.round (rational (q ^ n)) ∈ bounds.raised i n := by
  obtain ⟨⟨x, mem, same⟩, last⟩ := raised_ends pos (Within.outer member)
  obtain ⟨defined, lower, -, upper⟩ := point_raised q n ▸ Within.raised pos member
  refine mem_iff.mpr ⟨bounds.bottom_le_round defined, ?_, ?_⟩
  · rcases last with zero | ⟨y, mem', same'⟩
    · rw [zero] at lower
      rw [raised, zero]
      exact (bounds.round_nonpos le_rfl).trans (samples.round_nonneg lower)
    · exact (mem_iff.mp (ends y mem')).2.1.trans (samples.mono (same' ▸ lower))
  · exact (samples.mono (upper.trans_eq same)).trans (mem_iff.mp (ends x mem)).2.2

/-- So do negative powers, if the positive powers are apart from zero. -/
theorem mem_of_apart {j : Interval Extended}
    (ends : ∀ x ∈ [i.lower, i.upper], samples.round (x.power (-n)) ∈ j)
    (apart : Apart (i.raised n).lower (i.raised n).upper) :
    samples.round ((rational q).power (-n)) ∈ j := by
  have within := point_raised q n ▸ Within.raised pos member
  have value {x y : Extended} (same : y = x.power n) (above : (i.raised n).lower ≤ y)
      (below : y ≤ (i.raised n).upper) : x.power (-n) = rational (reciprocal y) := by
    have nonzero : y ≠ rational 0 := by
      rintro rfl
      exact apart.elim above.not_gt below.not_gt
    rw [← one_div_power pos, ← same, one_div_eq (within.defined.trans above) nonzero]
  obtain ⟨-, lower, -, upper⟩ := within.reciprocals apart
  obtain ⟨⟨x, mem, same⟩, zero | ⟨y, mem', same'⟩⟩ := raised_ends pos (Within.outer member)
  · exact absurd apart (by simp [Apart, zero, (zero ▸ within.outer_ordered).not_gt])
  · have low := mem_iff.mp (value same within.outer_ordered le_rfl ▸ ends x mem)
    have high := mem_iff.mp (value same' le_rfl within.outer_ordered ▸ ends y mem')
    rw [value (power_rational q n).symm within.lower within.upper]
    exact mem_iff.mpr ⟨low.1, low.2.1.trans (samples.mono lower),
      (samples.mono upper).trans high.2.2⟩

/-- So do negative powers, whatever is taken for zero. -/
theorem mem_quotient (bounds : Rounding) (ends : ∀ x ∈ [i.lower, i.upper], samples.round
      (x.power (-n)) ∈ @div Extended bounds.arithmetic (point 1) (bounds.raised i n)) :
    samples.round ((rational q).power (-n)) ∈
      @div Extended bounds.arithmetic (point 1) (bounds.raised i n) := by
  by_cases apart : Apart (i.raised n).lower (i.raised n).upper
  · exact mem_of_apart pos member ends apart
  simp only [Apart, not_or, not_lt] at apart
  have mixed : ¬(Arithmetic.lt zero (bounds.raised i n).lower ||
      Arithmetic.lt (bounds.raised i n).upper zero) = true := by
    simp [raised, (bounds.round_nonpos apart.1).not_gt, (bounds.round_nonneg apart.2).not_gt]
  have quotient_eq : @div Extended bounds.arithmetic (point 1) (bounds.raised i n) =
      if (Arithmetic.eq (bounds.raised i n).lower zero &&
        Arithmetic.eq (bounds.raised i n).upper zero) = true then point 0 else whole := by
    rw [← between_point]
    exact if_neg mixed
  rw [quotient_eq] at ends ⊢
  split_ifs at ends ⊢ with vanishes
  · -- The power of an end is taken for zero, so its reciprocal is not.
    obtain ⟨⟨x, mem, same⟩, -⟩ := raised_ends pos (Within.outer member)
    have inside := mem_iff.mp (ends x mem)
    rw [← one_div_power pos, ← same] at inside
    simp only [Bool.and_eq_true, eq_eq_true, zero_eq] at vanishes
    exact absurd (inside.2.2.antisymm inside.2.1) (round_one_div_ne_zero vanishes.2.2)
  · exact mem_iff.mpr
      ⟨le_rfl, samples.bottom_le_round (bottom_le_power _ bottom_le_rational), le_top _⟩

end

/-- In rounded arithmetic the rule for an integer power gives an interval. It holds the rounded
powers of all members if it holds those of the ends. -/
theorem exists_powInt? (bounds samples : Rounding) {n : ℤ} (member : rational q ∈ i)
    (kept : ∀ m ∈ [n, -n], bounds.round (rational m) = rational m) :
    ∃ j, @powInt? Extended bounds.arithmetic i n = some j ∧
      ((∀ x ∈ [i.lower, i.upper], samples.round (x.power n) ∈ j) →
        samples.round ((rational q).power n) ∈ j) := by
  have proper : i.Proper := Within.outer member
  rcases eq_or_ne n 0 with rfl | nonzero
  · refine ⟨_, rfl, fun ends => ?_⟩
    have same : (rational q).power 0 = i.lower.power 0 := by
      cases i.lower <;> simp [power]
    rw [same]
    exact ends i.lower (by simp)
  obtain ⟨m, rfl | rfl⟩ := n.eq_nat_or_neg
  all_goals
    have pos : 0 < m := by omega
    have found := powPositive?_eq pos proper (kept m (by simp))
  · refine ⟨_, (if_neg nonzero).trans ((if_neg (by omega)).trans found), fun ends => ?_⟩
    rw [power_rational]
    exact mem_raised pos member ends
  · refine ⟨_, (if_neg nonzero).trans ((if_pos (by omega)).trans ?_),
      mem_quotient pos member bounds⟩
    rw [neg_neg, found, ← between_point]
    rfl

section

variable {n : ℤ}

/-- Raising a sample to an integer rounds its power once. -/
theorem kernel_powInt (kept : bounds.round (rational n) = rational n)
    (kept' : samples.round (rational n) = rational n)
    (own : samples.round (rational q) = rational q) :
    bounds.kernel samples .powInt [.integer n] [rational q] =
      .ok [samples.round ((rational q).power n)] := by
  have exponent : @ofInt? Extended bounds.arithmetic n = some (rational n) := congrArg some kept
  simp only [kernel, Operation.kernel, exponent]
  change Except.ok [@powShared Extended samples.arithmetic _ (samples.round _)] = _
  rw [kept', powShared_eq own, Operation.powShared_rational]

/-- An exponent that is a single integer is taken as one. -/
theorem pow?_point (bounds : Rounding) (i : Interval Extended) (n : ℤ) :
    @pow? Extended bounds.arithmetic i (point n) = @powInt? Extended bounds.arithmetic i n := by
  have single : @isSingle Extended bounds.arithmetic (point n) = true := isSingle_point n
  have exponent : @toInt? Extended bounds.arithmetic (rational n) = some n := toInt?_intCast n
  simp only [pow?, single, if_true, point_lower, exponent]

end

end Rounding

end FieldGraph
