import FieldGraph.Proofs.Range.Rounding

/-! # Ranges of integer powers

The rule for a negative power divides one by the interval of the positive power, and quotients of
intervals take a quotient by zero to be zero, as `divide` does. The power of zero to a negative
exponent is infinite. An interval that holds zero among other numbers is no harm: its quotient is
the whole line. The interval of zero alone is one, and the only one.
-/

namespace FieldGraph

open Arithmetic Extended FieldGraph.Interval

namespace Interval

variable {i : Interval Extended} {n : ℕ}

theorem eq_zero_of_power {a : Extended} (pos : 0 < n) (vanishes : a.power n = rational 0) :
    a = rational 0 := by
  cases a with
  | undefined => simp [power, pos.ne'] at vanishes
  | bottom =>
    simp only [power, Int.natCast_eq_zero, pos.ne', if_false] at vanishes
    split_ifs at vanishes
    omega
  | rational q =>
    rw [power_rational, rational.injEq] at vanishes
    rw [eq_zero_of_pow_eq_zero vanishes]
  | top =>
    rw [power_top pos] at vanishes
    cases vanishes

theorem raised_ne_point_zero (pos : 0 < n) (proper : i.Proper) (wide : i ≠ point 0) :
    i.raised n ≠ point 0 := by
  intro same
  have lower := eq_zero_of_power pos (congrArg Interval.lower same)
  have upper := eq_zero_of_power pos (congrArg Interval.upper same)
  obtain ⟨a, b⟩ := i
  unfold powBase at lower upper
  split_ifs at lower upper with even
  · rw [abs_eq proper] at upper
    have first : -a ≤ rational 0 := le_sup_left.trans_eq upper
    have last : b ≤ rational 0 := le_sup_right.trans_eq upper
    have nonneg : rational 0 ≤ a := by
      have defined := proper.defined
      cases a <;> simp_all [le_iff]
    have ordered : a ≤ b := proper.ordered
    exact wide (by rw [point, (ordered.trans last).antisymm nonneg,
      last.antisymm (nonneg.trans ordered)])
  · exact wide (by rw [point]; congr)

theorem powers_eq_whole {n : ℤ} (mem : rational 0 ∈ i) (negative : n < 0) (wide : i ≠ point 0) :
    i.powers n = whole := by
  have pos : 0 < n.natAbs := by omega
  have zero_mem : (point 0).Within (i.raised n.natAbs) := by
    have within := Within.raised pos mem
    rwa [← point, point_raised, zero_pow pos.ne'] at within
  rw [powers, if_neg negative.ne, if_pos negative]
  refine div_of_mixed zero_mem.outer ?_ (raised_ne_point_zero pos (Within.outer mem) wide)
  rintro (above | below)
  · exact zero_mem.lower.not_gt above
  · exact zero_mem.upper.not_gt below

theorem pow?_point (i : Interval Extended) (n : ℤ) : i.pow? (point n) = i.powInt? n := by
  rw [pow?, isSingle_point, if_pos rfl, point_lower, toInt?_intCast]

/-- **Integer powers.** The power of a member to an integer is in the interval of the powers, unless
the exponent is negative and the interval is zero alone. Zero alone is then said to have
zero for its only power, which is infinite.

Where samples are rounded in one way and ranges in another, the power of a member is in the interval
of the powers if those of the ends are, and these need not be. -/
theorem integer_powers_conservative {i : Interval Extended} {q : ℚ} (n : ℤ)
    (member : rational q ∈ i) :
    (∃ v j, v = (if q = 0 ∧ n < 0 then top else rational (q ^ n)) ∧
      Operation.powInt.kernel ([.integer n] : List (Literal Extended)) [rational q] = .ok [v] ∧
      i.powInt? n = some j ∧
      Operation.pow.kernel ([] : List (Literal Extended)) [rational q, rational n] = .ok [v] ∧
      i.pow? (point n) = some j ∧ (v ∈ j ↔ ¬(n < 0 ∧ i = point 0))) ∧
    ∀ bounds samples : Rounding, (∀ m ∈ [n, -n], bounds.round (rational m) = rational m) →
      samples.round (rational n) = rational n → samples.round (rational q) = rational q →
      ∃ v j, v = samples.round ((rational q).power n) ∧
        bounds.kernel samples .powInt [.integer n] [rational q] = .ok [v] ∧
        @powInt? Extended bounds.arithmetic i n = some j ∧
        bounds.kernel samples .pow [] [rational q, rational n] = .ok [v] ∧
        @pow? Extended bounds.arithmetic i (point n) = some j ∧
        ((∀ x ∈ [i.lower, i.upper], samples.round (x.power n) ∈ j) → v ∈ j) := by
  have power_eq : Arithmetic.pow (rational q) (rational n) = (rational q).power n := by
    simp [Arithmetic.pow]
  constructor
  · have found := powInt?_eq (Within.outer member) n
    refine ⟨(rational q).power n, i.powers n, rfl,
      Operation.ok_congr (Operation.powShared_rational q n), found, Operation.ok_congr power_eq,
      (pow?_point i n).trans found, ?_⟩
    have within : (point (q ^ n)).Within (i.powers n) := point_powers q n ▸ Within.powers member n
    by_cases singular : q = 0 ∧ n < 0
    · obtain ⟨rfl, negative⟩ := singular
      rw [power, if_pos ⟨rfl, negative⟩]
      by_cases alone : i = point 0
      · rw [alone, point_powers, zero_zpow n negative.ne]
        simp [mem_iff, le_iff, negative]
      · rw [powers_eq_whole member negative alone]
        simp [mem_iff, alone, whole, infinity]
    · rw [power, if_neg singular]
      refine iff_of_true within fun refuses => singular ⟨?_, refuses.1⟩
      rw [refuses.2, mem_iff] at member
      exact le_antisymm (rational_le_rational.mp member.2.2) (rational_le_rational.mp member.2.1)
  · intro bounds samples kept kept' own
    obtain ⟨j, found, inside⟩ := Rounding.exists_powInt? bounds samples member kept
    exact ⟨_, j, rfl, Rounding.kernel_powInt (kept n (by simp)) kept' own, found,
      Operation.ok_congr (congrArg samples.round power_eq), (bounds.pow?_point i n).trans found,
      inside⟩

/-- Rounding down to halves. -/
def halves : Rounding where
  round
    | rational q => rational (⌊q * 2⌋ / 2)
    | x => x
  mono a b le := by
    cases a <;> cases b <;> simp_all [le_iff]
    gcongr
  kept := by norm_num

/-- In halves the square of 3/2 is 2. The interval of the squares is not rounded. -/
theorem integer_powers_conservative_halves :
    rational (3 / 2) ∈ (⟨rational 1, top⟩ : Interval Extended) ∧
    (∃ j, (⟨rational 1, top⟩ : Interval Extended).powInt? 2 = some j ∧ rational (9 / 4) ∈ j) ∧
    ∃ j, @powInt? Extended (Rounding.arithmetic ⟨id, monotone_id, fun _ _ => rfl⟩)
        ⟨rational 1, top⟩ 2 = some j ∧
      Rounding.kernel ⟨id, monotone_id, fun _ _ => rfl⟩ halves .powInt [.integer 2]
        [rational (3 / 2)] = .ok [rational 2] ∧ rational 2 ∈ j := by
  have member : rational (3 / 2) ∈ (⟨rational 1, top⟩ : Interval Extended) := by
    norm_num [mem_iff]
  obtain ⟨⟨v, j, value, -, found, -, -, inside⟩, rounded⟩ := integer_powers_conservative 2 member
  obtain ⟨v', j', value', kernel, found', -, -, inside'⟩ := rounded
    ⟨id, monotone_id, fun _ _ => rfl⟩ halves (fun _ _ => rfl) (by norm_num [halves])
    (by norm_num [halves])
  have exact_value : v = rational (9 / 4) := by norm_num [value]
  have halved : v' = rational 2 := by norm_num [value', halves, power]
  have interval : j' = ⟨rational 1, top⟩ := by
    refine Option.some.inj (found'.symm.trans ((powInt?_eq (Within.outer member) 2).trans ?_))
    simp [powers, raised, powBase, abs_eq (Within.outer member), power]
  rw [halved] at kernel inside'
  refine ⟨member, ⟨j, found, exact_value ▸ inside.mpr (by simp)⟩, j', found', kernel, inside' ?_⟩
  norm_num [interval, mem_iff, halves, power]

end Interval

end FieldGraph
