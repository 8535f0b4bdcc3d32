import FieldGraph.Proofs.Interval.Within

/-! # Elementary functions and containment

The functions on intervals that need no roots and no sines keep containment. Where a function has a
closed form by the ends, containment follows from its monotony in each end. Fractional parts and
quotients by zero change their form, and are compared across it.
-/

namespace FieldGraph.Interval

open Arithmetic Extended

variable {a b x : Extended} {i j k i' j' k' : Interval Extended} {p q w e e' : ℚ} {n : ℕ}
  {f : Extended → Extended}

/-! ## Minima, maxima and magnitudes -/

theorem min_eq (proper : i.Proper) (proper' : j.Proper) :
    i.min j = ⟨i.lower ⊓ j.lower, i.upper ⊓ j.upper⟩ := by
  rw [min, least_eq proper'.defined, least_eq proper'.upper_defined]
  exact between_eq (le_inf proper.defined proper'.defined)
    (inf_le_inf proper.ordered proper'.ordered)

theorem Within.min (within : i.Within i') (within' : j.Within j') :
    (i.min j).Within (i'.min j') := by
  rw [min_eq within.inner within'.inner, min_eq within.outer within'.outer]
  exact ⟨le_inf within.defined within'.defined, inf_le_inf within.lower within'.lower,
    inf_le_inf within.ordered within'.ordered, inf_le_inf within.upper within'.upper⟩

theorem max_eq (proper : i.Proper) (proper' : j.Proper) :
    i.max j = ⟨i.lower ⊔ j.lower, i.upper ⊔ j.upper⟩ := by
  rw [max, greatest_eq proper.defined, greatest_eq proper.upper_defined]
  exact between_eq (proper.defined.trans le_sup_left) (sup_le_sup proper.ordered proper'.ordered)

theorem Within.max (within : i.Within i') (within' : j.Within j') :
    (i.max j).Within (i'.max j') := by
  rw [max_eq within.inner within'.inner, max_eq within.outer within'.outer]
  exact ⟨within.defined.trans le_sup_left, sup_le_sup within.lower within'.lower,
    sup_le_sup within.ordered within'.ordered, sup_le_sup within.upper within'.upper⟩

theorem union_eq (proper : i.Proper) (proper' : j.Proper) :
    i.union j = ⟨i.lower ⊓ j.lower, i.upper ⊔ j.upper⟩ := by
  rw [union, least_eq proper'.defined, greatest_eq proper.upper_defined]
  exact between_eq (le_inf proper.defined proper'.defined)
    (inf_le_left.trans (proper.ordered.trans le_sup_left))

section

variable (within : i.Within i')

include within

theorem Within.union (within' : j.Within j') : (i.union j).Within (i'.union j') := by
  rw [union_eq within.inner within'.inner, union_eq within.outer within'.outer]
  exact ⟨le_inf within.defined within'.defined, inf_le_inf within.lower within'.lower,
    inf_le_left.trans (within.ordered.trans le_sup_left),
    sup_le_sup within.upper within'.upper⟩

theorem within_union_left (proper : j.Proper) : i.Within (i'.union j) := by
  rw [union_eq within.outer proper]
  exact ⟨le_inf within.defined proper.defined, inf_le_left.trans within.lower, within.ordered,
    within.upper.trans le_sup_left⟩

theorem within_union_right (proper : j.Proper) : i.Within (j.union i') := by
  rw [union_eq proper within.outer]
  exact ⟨le_inf proper.defined within.defined, inf_le_right.trans within.lower, within.ordered,
    within.upper.trans le_sup_right⟩

theorem Within.clamp (low : j.Within j') (high : k.Within k') :
    (i.clamp j k).Within (i'.clamp j' k') :=
  (within.max low).min high

end

theorem abs_eq (proper : i.Proper) :
    i.abs = ⟨i.lower ⊔ -i.upper ⊔ rational 0, -i.lower ⊔ i.upper⟩ := by
  obtain ⟨a, b⟩ := i
  obtain ⟨defined, -, ordered, -⟩ := id proper
  rcases le_or_gt (rational 0) a with nonneg | negative
  · have low : -b ≤ rational 0 := neg_nonpos (nonneg.trans ordered)
    have high : -a ≤ rational 0 := neg_nonpos nonneg
    simp [abs, nonneg, low.trans, high.trans (nonneg.trans ordered)]
  · have high : rational 0 ≤ -a := neg_nonneg defined negative.le
    rcases le_or_gt b (rational 0) with nonpos | pos
    · have low : rational 0 ≤ -b := neg_nonneg (defined.trans ordered) nonpos
      simp [abs, neg_eq proper, negative.not_ge, defined.trans ordered, nonpos, low,
        negative.le.trans, nonpos.trans high]
    · have low : -b ≤ rational 0 := neg_nonpos pos.le
      simp [abs, negative.not_ge, pos.not_ge, negative.le, low,
        greatest_eq (bottom_le_neg defined), between_eq bottom_le_rational (high.trans le_sup_left)]

theorem Within.abs (within : i.Within i') : i.abs.Within i'.abs := by
  rw [abs_eq within.inner, abs_eq within.outer]
  have turned := neg_le_neg within.upper_defined within.upper
  have turned' := neg_le_neg within.defined within.lower
  refine ⟨bottom_le_rational.trans le_sup_right,
    sup_le_sup (sup_le_sup within.lower turned) le_rfl, ?_, sup_le_sup turned' within.upper⟩
  rw [sup_comm (-i.lower)]
  refine sup_le (sup_le_sup within.ordered (neg_le_neg within.inner_defined within.ordered)) ?_
  rcases le_total (rational 0) i.upper with nonneg | nonpos
  · exact nonneg.trans le_sup_left
  · exact (neg_nonneg within.inner_defined (within.ordered.trans nonpos)).trans le_sup_right

/-! ## Floors and fractional parts -/

@[simp] theorem floor_rational (q : ℚ) : Arithmetic.floor (rational q) = rational ⌊q⌋ := rfl
@[simp] theorem floor_bottom : Arithmetic.floor bottom = bottom := rfl
@[simp] theorem floor_top : Arithmetic.floor top = top := rfl

theorem floor_mono (le : a ≤ b) : Arithmetic.floor a ≤ Arithmetic.floor b := by
  cases a <;> cases b <;> simp_all [le_iff, Arithmetic.floor, Int.floor_le_floor]

theorem floorEnd_eq (a : Extended) : floorEnd a = Arithmetic.floor a := by
  rw [floorEnd]
  split_ifs with vanishes
  · exact (eq_eq_true.mp vanishes).2.symm
  · rfl

theorem floor_eq (proper : i.Proper) :
    i.floor = ⟨Arithmetic.floor i.lower, Arithmetic.floor i.upper⟩ := by
  have same (x : Extended) : (if isFinite x then floorEnd x else x) = Arithmetic.floor x := by
    rw [floorEnd_eq]
    cases x <;> simp [Arithmetic.floor]
  rw [floor, same, same]
  exact between_eq (floor_mono proper.defined) (floor_mono proper.ordered)

theorem Within.floor (within : i.Within i') : i.floor.Within i'.floor := by
  rw [floor_eq within.inner, floor_eq within.outer]
  exact ⟨floor_mono within.defined, floor_mono within.lower, floor_mono within.ordered,
    floor_mono within.upper⟩

/-- The members are rational numbers with one floor. -/
def OneFloor (i : Interval Extended) : Prop :=
  ∃ p q : ℚ, i = ⟨rational p, rational q⟩ ∧ p ≤ q ∧ ⌊p⌋ = ⌊q⌋

theorem fract_le_fract (le : p ≤ q) (same : ⌊p⌋ = ⌊q⌋) : Int.fract p ≤ Int.fract q := by
  rw [Int.fract, same]
  exact sub_le_sub_right le _

theorem fract_of_oneFloor (le : p ≤ q) (same : ⌊p⌋ = ⌊q⌋) :
    fract ⟨rational p, rational q⟩ = ⟨rational (Int.fract p), rational (Int.fract q)⟩ := by
  rw [fract, if_pos (by simp [isBounded, isFinite, floorEnd_eq, same])]
  simp [floorEnd_eq, between_eq, fract_le_fract le same]

theorem fract_of_not_oneFloor (proper : i.Proper) (apart : ¬i.OneFloor) :
    i.fract = ⟨rational 0, rational 1⟩ := by
  rw [fract, if_neg]
  · simp [between_eq]
  · obtain ⟨a, b⟩ := i
    cases a <;> cases b <;> simp_all [isBounded, isFinite, floorEnd_eq, OneFloor]
    exact apart (by simpa using proper.ordered)

theorem Within.fract (within : i.Within i') : i.fract.Within i'.fract := by
  by_cases outer : i'.OneFloor
  · -- Between two rational numbers with one floor there are only such numbers.
    obtain ⟨p', q', rfl, -, same'⟩ := outer
    obtain ⟨a, b⟩ := i
    obtain ⟨-, lower, ordered, upper⟩ := within
    cases a <;> cases b <;> simp [le_iff] at lower ordered upper
    rename_i p q
    have first : ⌊p'⌋ = ⌊p⌋ := (Int.floor_le_floor lower).antisymm
      (same' ▸ Int.floor_le_floor (ordered.trans upper))
    have second : ⌊p⌋ = ⌊q⌋ := (Int.floor_le_floor ordered).antisymm
      (first ▸ same' ▸ Int.floor_le_floor upper)
    have third : ⌊q⌋ = ⌊q'⌋ := second ▸ first ▸ same'
    rw [fract_of_oneFloor ordered second,
      fract_of_oneFloor (lower.trans (ordered.trans upper)) same']
    exact ⟨bottom_le_rational, rational_le_rational.mpr (fract_le_fract lower first),
      rational_le_rational.mpr (fract_le_fract ordered second),
      rational_le_rational.mpr (fract_le_fract upper third)⟩
  · rw [fract_of_not_oneFloor within.outer outer]
    by_cases inner : i.OneFloor
    · obtain ⟨p, q, rfl, le, same⟩ := inner
      rw [fract_of_oneFloor le same]
      exact ⟨bottom_le_rational, rational_le_rational.mpr (Int.fract_nonneg p),
        rational_le_rational.mpr (fract_le_fract le same),
        rational_le_rational.mpr (Int.fract_lt_one q).le⟩
    · rw [fract_of_not_oneFloor within.inner inner]
      exact ⟨bottom_le_rational, le_rfl, rational_le_rational.mpr zero_le_one, le_rfl⟩

/-! ## Powers -/

theorem power_rational (p : ℚ) (n : ℕ) : (rational p).power n = rational (p ^ n) := by
  simp [power]

theorem power_top (pos : 0 < n) : top.power n = top := by
  simp [power, pos.ne']

theorem power_bottom (odd : n % 2 = 1) : bottom.power n = bottom := by
  have odd' : (n : ℤ) % 2 = 1 := by omega
  simp [power, odd', show n ≠ 0 by omega]

theorem bottom_le_power (n : ℤ) (defined : bottom ≤ a) : bottom ≤ a.power n := by
  cases a <;> simp_all [power, le_iff] <;> split_ifs <;> trivial

theorem power_mono (pos : 0 < n) (defined : bottom ≤ a) (le : a ≤ b)
    (sign : n % 2 = 1 ∨ rational 0 ≤ a) : a.power n ≤ b.power n := by
  cases a with
  | undefined => simp [le_iff] at defined
  | bottom =>
    rw [power_bottom (sign.resolve_right (by simp [le_iff]))]
    exact bottom_le_power n le
  | rational p =>
    cases b with
    | undefined | bottom => simp [le_iff] at le
    | rational q =>
      simp only [power_rational, rational_le_rational] at le sign ⊢
      rcases sign with odd | nonneg
      · exact (Nat.odd_iff.mpr odd).strictMono_pow.monotone le
      · exact pow_le_pow_left₀ nonneg le n
    | top => exact (le_top _).trans_eq (power_top pos).symm
  | top =>
    cases b with
    | top => exact le_rfl
    | undefined | bottom | rational => simp [le_iff] at le

theorem powIntEnd?_eq (a : Extended) : powIntEnd? a n = some (a.power n) := by
  have exp : (ofInt? n) = some (rational n) := rfl
  have finite : (lt a zero && isFinite a && isInfinite (a.power n)) = false := by
    cases a <;> simp [isInfinite, power_rational]
  have power_eq : powEnd a (rational n) = a.power n := by
    simp [powEnd, pow]
  simp only [powIntEnd?, exp, power_eq, finite, Bool.false_eq_true, if_false]

/-- The interval whose ends are raised to a power. -/
def powBase (i : Interval Extended) (n : ℕ) : Interval Extended :=
  if n % 2 = 0 then i.abs else i

theorem Within.powBase (within : i.Within i') (n : ℕ) : (i.powBase n).Within (i'.powBase n) := by
  unfold Interval.powBase
  split_ifs
  · exact within.abs
  · exact within

theorem powBase_sign (proper : i.Proper) (n : ℕ) :
    n % 2 = 1 ∨ rational 0 ≤ (i.powBase n).lower := by
  rcases Nat.mod_two_eq_zero_or_one n with even | odd
  · right
    rw [powBase, if_pos even, abs_eq proper]
    exact le_sup_right
  · exact .inl odd

/-- The ends of an interval raised to a positive power. -/
def raised (i : Interval Extended) (n : ℕ) : Interval Extended :=
  ⟨(i.powBase n).lower.power n, (i.powBase n).upper.power n⟩

theorem Within.raised (pos : 0 < n) (within : i.Within i') : (i.raised n).Within (i'.raised n) := by
  obtain ⟨defined, lower, ordered, upper⟩ := within.powBase n
  have sign := powBase_sign within.outer n
  have sign' := powBase_sign within.inner n
  exact ⟨bottom_le_power n defined, power_mono pos defined lower sign,
    power_mono pos (defined.trans lower) ordered sign',
    power_mono pos (defined.trans (lower.trans ordered)) upper (sign'.imp_right (·.trans ordered))⟩

theorem powPositive?_eq (pos : 0 < n) (proper : i.Proper) :
    i.powPositive? n = some (i.raised n) := by
  have base : (if (n : ℤ) % 2 = 0 then i.abs else i) = i.powBase n := by
    congr 1
    exact propext (by omega)
  obtain ⟨defined, -, ordered, -⟩ := Within.raised pos proper
  simp only [powPositive?, base, powIntEnd?_eq, Option.some.injEq]
  exact between_eq defined ordered

/-- The interval of powers to an integer. -/
def powers (i : Interval Extended) (n : ℤ) : Interval Extended :=
  if n = 0 then single one
  else if n < 0 then single one / i.raised n.natAbs else i.raised n.natAbs

theorem powInt?_eq (proper : i.Proper) (n : ℤ) : i.powInt? n = some (i.powers n) := by
  unfold powInt? powers
  split_ifs with zero negative
  · rfl
  · rw [show -n = n.natAbs by omega, powPositive?_eq (Int.natAbs_pos.mpr zero) proper]
    rfl
  · nth_rw 1 [show n = n.natAbs by omega]
    exact powPositive?_eq (Int.natAbs_pos.mpr zero) proper

theorem Within.powers (within : i.Within i') (n : ℤ) : (i.powers n).Within (i'.powers n) := by
  have one_proper : (single one).Proper := proper_between _ _
  unfold Interval.powers
  split_ifs with zero negative
  · exact one_proper
  · exact one_proper.div (within.raised (Int.natAbs_pos.mpr zero))
  · exact within.raised (Int.natAbs_pos.mpr zero)

/-! ## Linear functions -/

theorem Within.shift (within : i.Within i') (p : ℚ) :
    (i.shift (rational p)).Within (i'.shift (rational p)) :=
  within.add (j := ⟨rational p, rational p⟩) ⟨bottom_le_rational, le_rfl, le_rfl, le_rfl⟩

theorem Within.shiftDown (within : i.Within i') (p : ℚ) :
    (i.shiftDown (rational p)).Within (i'.shiftDown (rational p)) :=
  within.sub (j := ⟨rational p, rational p⟩) ⟨bottom_le_rational, le_rfl, le_rfl, le_rfl⟩

theorem Within.scale (within : i.Within i') (p : ℚ) :
    (i.scale (rational p)).Within (i'.scale (rational p)) :=
  within.mul (proper_between _ _)

/-! ## Smooth steps -/

/-- Larger numbers have larger values, all of them numbers. -/
def Rises (f : Extended → Extended) : Prop := ∀ ⦃a b⦄, bottom ≤ a → a ≤ b → bottom ≤ f a ∧ f a ≤ f b

/-- Larger numbers have smaller values, all of them numbers. -/
def Falls (f : Extended → Extended) : Prop := ∀ ⦃a b⦄, bottom ≤ a → a ≤ b → bottom ≤ f b ∧ f b ≤ f a

theorem Rises.hull_within (rises : Rises f) (within : i.Within j) :
    (hull (f i.lower) [f i.upper]).Within (hull (f j.lower) [f j.upper]) := by
  have ends {k : Interval Extended} (proper : k.Proper) :
      hull (f k.lower) [f k.upper] = ⟨f k.lower, f k.upper⟩ := by
    obtain ⟨defined, le⟩ := rises proper.defined proper.ordered
    rw [hull_pair defined (defined.trans le), inf_eq_left.mpr le, sup_eq_right.mpr le]
  rw [ends within.inner, ends within.outer]
  obtain ⟨defined, lower⟩ := rises within.defined within.lower
  exact ⟨defined, lower, (rises within.inner_defined within.ordered).2,
    (rises within.upper_defined within.upper).2⟩

theorem Falls.hull_within (falls : Falls f) (within : i.Within j) :
    (hull (f i.lower) [f i.upper]).Within (hull (f j.lower) [f j.upper]) := by
  have ends {k : Interval Extended} (proper : k.Proper) :
      hull (f k.lower) [f k.upper] = ⟨f k.upper, f k.lower⟩ := by
    obtain ⟨defined, le⟩ := falls proper.defined proper.ordered
    rw [hull_pair (defined.trans le) defined, inf_eq_right.mpr le, sup_eq_left.mpr le]
  rw [ends within.inner, ends within.outer]
  obtain ⟨defined, upper⟩ := falls within.upper_defined within.upper
  exact ⟨defined, upper, (falls within.inner_defined within.ordered).2,
    (falls within.defined within.lower).2⟩

/-- A number moved into the unit interval. -/
def unit : Extended → ℚ
  | rational x => (x ⊔ 0) ⊓ 1
  | top => 1
  | _ => 0

theorem unit_mem (a : Extended) : 0 ≤ unit a ∧ unit a ≤ 1 := by
  cases a <;> simp [unit]

theorem unit_mono (defined : bottom ≤ a) (le : a ≤ b) : unit a ≤ unit b := by
  cases a <;> cases b <;> simp_all [unit, le_iff]
  grind

theorem ramp_eq (defined : bottom ≤ a) :
    ramp a = rational (unit a * unit a * (3 - 2 * unit a)) := by
  have clipped : least (greatest a zero) one = rational (unit a) := by
    rw [greatest_eq defined, least_eq (by simp)]
    cases a with
    | undefined => simp [le_iff] at defined
    | bottom => simp [unit]
    | rational p => simp [unit, rational_sup, rational_inf]
    | top => simp [unit]
  simp only [ramp, clipped]
  simp

theorem rises_ramp : Rises ramp := by
  intro a b defined le
  rw [ramp_eq defined, ramp_eq (defined.trans le), rational_le_rational]
  refine ⟨bottom_le_rational, ?_⟩
  obtain ⟨s_nonneg, s_le⟩ := unit_mem a
  obtain ⟨t_nonneg, t_le⟩ := unit_mem b
  have rest := sub_nonneg.mpr (unit_mono defined le)
  generalize unit a = s at *
  generalize unit b = t at *
  have slope : 0 ≤ 2 * (t * (1 - t)) + 2 * (s * (1 - s)) + t * (1 - s) + s * (1 - t) := by
    positivity
  linarith [mul_nonneg rest slope]

theorem rises_quotient (pos : 0 < w) : Rises fun x => (x - rational p) / rational w := by
  intro a b defined le
  cases a <;> cases b <;>
    simp_all [le_iff, sub_def, div_def, pos.ne', pos.not_gt]
  gcongr

theorem falls_quotient (negative : w < 0) : Falls fun x => (x - rational p) / rational w := by
  intro a b defined le
  cases a <;> cases b <;> simp_all [le_iff, sub_def, div_def, negative.ne]
  exact div_le_div_of_nonpos_of_le negative.le (by linarith)

theorem rises_or_falls_smoothstepEnd (p q : ℚ) : Rises (smoothstepEnd (rational p) (rational q)) ∨
      Falls (smoothstepEnd (rational p) (rational q)) := by
  rcases eq_or_ne p q with rfl | different
  · refine .inl fun a b defined le => ?_
    simp only [smoothstepEnd, eq_eq_true, lt_eq_true, bottom_le_rational, true_and, if_true,
      defined, defined.trans le]
    split_ifs with first second second <;> simp
    exact absurd (le.trans_lt second) first
  · have same : smoothstepEnd (rational p) (rational q) =
        fun x => ramp ((x - rational p) / rational (q - p)) := by
      funext x
      simp [smoothstepEnd, different]
    rw [same]
    rcases different.lt_or_gt with less | greater
    · refine .inl fun a b defined le => ?_
      obtain ⟨number, rises⟩ := rises_quotient (sub_pos.mpr less) defined le
      exact rises_ramp number rises
    · refine .inr fun a b defined le => ?_
      obtain ⟨number, falls⟩ := falls_quotient (sub_neg.mpr greater) defined le
      exact rises_ramp number falls

theorem Within.smoothstep (within : i.Within i') (p q : ℚ) :
    (smoothstep (rational p) (rational q) i).Within (smoothstep (rational p) (rational q) i') :=
  (rises_or_falls_smoothstepEnd p q).elim (·.hull_within within) (·.hull_within within)

/-! ## Smooth unions and subtractions -/

theorem add_rational_mono (defined : bottom ≤ a) (le : a ≤ b) (le' : p ≤ q) :
    bottom ≤ a + rational p ∧ a + rational p ≤ b + rational q := by
  cases a <;> cases b <;> simp_all [le_iff, add_le_add]

theorem add_rational_zero (a : Extended) : a + rational 0 = a := by
  cases a <;> simp [add_def]

variable (within : i.Within i')

include within

theorem Within.lowered (le : e' ≤ e) (nonpos : e ≤ 0) :
    (between (i.lower + rational e) i.upper).Within
      (between (i'.lower + rational e') i'.upper) := by
  have step {k : Interval Extended} {e : ℚ} (proper : k.Proper) (nonpos : e ≤ 0) :
      bottom ≤ k.lower + rational e ∧ k.lower + rational e ≤ k.lower :=
    (add_rational_mono proper.defined le_rfl nonpos).imp_right (·.trans_eq (add_rational_zero _))
  obtain ⟨defined, below⟩ := step within.inner nonpos
  obtain ⟨defined', below'⟩ := step within.outer (le.trans nonpos)
  rw [between_eq defined (below.trans within.ordered),
    between_eq defined' (below'.trans within.outer_ordered)]
  exact ⟨defined', (add_rational_mono within.defined within.lower le).2,
    below.trans within.ordered, within.upper⟩

theorem Within.lifted (nonneg : 0 ≤ e) (le : e ≤ e') :
    (between i.lower (i.upper + rational e)).Within
      (between i'.lower (i'.upper + rational e')) := by
  have step {k : Interval Extended} {e : ℚ} (proper : k.Proper) (nonneg : 0 ≤ e) :
      k.upper ≤ k.upper + rational e :=
    (add_rational_zero _).symm.trans_le (add_rational_mono proper.upper_defined le_rfl nonneg).2
  have above := within.ordered.trans (step within.inner nonneg)
  rw [between_eq within.inner_defined above,
    between_eq within.defined (within.outer_ordered.trans (step within.outer (nonneg.trans le)))]
  exact ⟨within.defined, within.lower, above,
    (add_rational_mono within.upper_defined within.upper le).2⟩

theorem Within.smoothUnion (within' : j.Within j') (p : ℚ) :
    (i.smoothUnion j (rational p)).Within (i'.smoothUnion j' (rational p)) := by
  unfold Interval.smoothUnion
  simp only [le_eq_true, bottom_le_rational, true_and, zero_eq, rational_le_rational]
  split_ifs with nonpos
  · exact within.min within'
  · exact (within.min within').lowered (e := -(p * (1 / 4))) le_rfl (by linarith)

theorem Within.smoothSubtract (within' : j.Within j') (p : ℚ) :
    (i.smoothSubtract j (rational p)).Within (i'.smoothSubtract j' (rational p)) := by
  unfold Interval.smoothSubtract
  simp only [le_eq_true, bottom_le_rational, true_and, zero_eq, rational_le_rational]
  split_ifs with nonpos
  · exact within.max within'.neg
  · exact (within.max within'.neg).lifted (by linarith) le_rfl

end FieldGraph.Interval
