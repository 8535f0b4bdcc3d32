import FieldGraph.Proofs.Range.Points

/-! # Results that are operands

When the intervals of the operands lie apart, some operations return one of their operands, and
range analysis copies it. For a minimum this is a comparison of ends. A smooth union blends its
operands where they are closer than its smoothness, and returns one of them elsewhere: the
ends of an interval of differences bound how close they can be.
-/

namespace FieldGraph.Operation

open Arithmetic Extended FieldGraph.Interval Option

variable {p q k a b : ℚ} {i j : Interval Extended}

section

variable (first : rational p ∈ i) (second : rational q ∈ j)

include first second

theorem le_of_upper_le (apart : i.upper ≤ j.lower) : p ≤ q := rational_le_rational.mp
    ((mem_iff.mp first).2.2.trans (apart.trans (mem_iff.mp second).2.1))

theorem mem_sub : rational (p - q) ∈ i - j := by
  have difference : (point p - point q).Within (i - j) := Within.sub first second
  rwa [point_sub] at difference

theorem mem_add : rational (p + q) ∈ i + j := by
  have sum : (point p + point q).Within (i + j) := Within.add first second
  rwa [point_add] at sum

end

theorem blend_eq_left (pos : 0 < k) (far : k ≤ b - a) : blend k a b = a := by
  have high : 1 ≤ 1 / 2 + 1 / 2 * (b - a) / k := by
    have := (one_le_div pos).mpr far
    linarith [mul_div_assoc (1 / 2) (b - a) k]
  have weight : unit (rational (1 / 2 + 1 / 2 * (b - a) / k)) = 1 := by
    simp only [unit]
    rw [sup_eq_left.mpr (zero_le_one.trans high), inf_eq_right.mpr high]
  simp only [blend, weight]
  ring

theorem blend_eq_right (pos : 0 < k) (far : k ≤ a - b) : blend k a b = b := by
  have low : 1 / 2 + 1 / 2 * (b - a) / k ≤ 0 := by
    have := (one_le_div pos).mpr far
    have turned : (b - a) / k = -((a - b) / k) := by ring
    linarith [mul_div_assoc (1 / 2) (b - a) k]
  have weight : unit (rational (1 / 2 + 1 / 2 * (b - a) / k)) = 0 := by
    simp only [unit]
    rw [sup_eq_right.mpr low, inf_eq_left.mpr zero_le_one]
  simp only [blend, weight]
  ring

theorem smoothUnionOf_eq_left (far : k ⊔ 0 ≤ b - a) :
    smoothUnionOf (rational k) (rational a) (rational b) = rational a := by
  obtain ⟨reach, ordered⟩ := sup_le_iff.mp far
  rw [smoothUnionOf_rational]
  split_ifs with nonpos
  · rw [inf_eq_left.mpr (sub_nonneg.mp ordered)]
  · rw [blend_eq_left (not_le.mp nonpos) reach]

theorem smoothUnionOf_eq_right (far : k ⊔ 0 ≤ a - b) :
    smoothUnionOf (rational k) (rational a) (rational b) = rational b := by
  obtain ⟨reach, ordered⟩ := sup_le_iff.mp far
  rw [smoothUnionOf_rational]
  split_ifs with nonpos
  · rw [inf_eq_right.mpr (sub_nonneg.mp ordered)]
  · rw [blend_eq_right (not_le.mp nonpos) reach]

theorem smoothSubtractOf_eq_left (far : k ⊔ 0 ≤ a + b) :
    smoothSubtractOf (rational k) (rational a) (rational b) = rational a := by
  obtain ⟨reach, ordered⟩ := sup_le_iff.mp far
  rw [smoothSubtractOf_rational]
  split_ifs with nonpos
  · rw [sup_eq_left.mpr (by linarith)]
  · rw [blend_eq_right (not_le.mp nonpos) (by linarith), neg_neg]

theorem reach_le (mem : rational q ∈ i) (far : le (greatest (rational k) zero) i.lower = true) :
    k ⊔ 0 ≤ q := by
  rw [greatest_eq bottom_le_rational, zero_eq, rational_sup, le_eq_true] at far
  exact rational_le_rational.mp (far.2.trans (mem_iff.mp mem).2.1)

/-- **Copied operands are the results.** If an operation is said to return one of its operands for
all members of some intervals, then it does. -/
theorem passthrough_returns_operand {op : Operation} {params : List (Literal Extended)}
    {operands : List ℚ} {ranges : List (Interval Extended)} {place : Nat}
    (exact : op.Exact params operands.length)
    (inside : List.Forall₂ (fun q i => rational q ∈ i) operands ranges)
    (passes : op.passthrough? params ranges = some place) :
    ∃ v, operands[place]? = some v ∧
      op.kernel params (operands.map rational) = .ok [rational v] := by
  generalize count : operands.length = length at exact
  cases exact with
  | add | subtract | multiply | divide | floor | fract | stepify | wrap | mix | remap
  | smoothstep | powInt | sdfPlane => cases passes
  | abs =>
    obtain ⟨x, i, rfl, rfl, member⟩ := one_operand inside count
    simp only [passthrough?, ite_none_right_eq_some, some.injEq, le_eq_true, zero_eq] at passes
    obtain ⟨⟨-, nonneg⟩, rfl⟩ := passes
    have : 0 ≤ x := rational_le_rational.mp (nonneg.trans (mem_iff.mp member).2.1)
    exact ⟨x, rfl, by simp [kernel, unary, abs_of_nonneg this]⟩
  | min =>
    obtain ⟨x, i, y, j, rfl, rfl, member, member'⟩ := two_operands inside count
    simp only [passthrough?] at passes
    split_ifs at passes with apart apart'
    · obtain rfl := some.inj passes
      have := le_of_upper_le member member' (le_eq_true.mp apart).2
      exact ⟨x, rfl, by simp [kernel, binary, this]⟩
    · obtain rfl := some.inj passes
      have := le_of_upper_le member' member (le_eq_true.mp apart').2
      exact ⟨y, rfl, by simp [kernel, binary, this]⟩
  | max =>
    obtain ⟨x, i, y, j, rfl, rfl, member, member'⟩ := two_operands inside count
    simp only [passthrough?] at passes
    split_ifs at passes with apart apart'
    · obtain rfl := some.inj passes
      have := le_of_upper_le member' member (le_eq_true.mp apart).2
      exact ⟨x, rfl, by simp [kernel, binary, this]⟩
    · obtain rfl := some.inj passes
      have := le_of_upper_le member member' (le_eq_true.mp apart').2
      exact ⟨y, rfl, by simp [kernel, binary, this]⟩
  | clamp =>
    obtain ⟨x, i, y, j, z, k, rfl, rfl, member, low, high⟩ := three_operands inside count
    simp only [passthrough?, clampPasses, ite_none_right_eq_some, Bool.and_eq_true,
      le_eq_true, some.injEq] at passes
    obtain ⟨⟨⟨-, above⟩, -, below⟩, rfl⟩ := passes
    have := le_of_upper_le low member above
    have := le_of_upper_le member high below
    exact ⟨x, rfl, by simp [kernel, ternary, *]⟩
  | clampConst low high =>
    obtain ⟨x, i, rfl, rfl, member⟩ := one_operand inside count
    simp only [passthrough?, clampPasses, single_eq bottom_le_rational,
      ite_none_right_eq_some, Bool.and_eq_true, le_eq_true, some.injEq] at passes
    obtain ⟨⟨⟨-, above⟩, -, below⟩, rfl⟩ := passes
    have := le_of_upper_le (mem_point low) member above
    have := le_of_upper_le member (mem_point high) below
    exact ⟨x, rfl, by simp [kernel, unary, *]⟩
  | select threshold =>
    obtain ⟨x, i, y, j, z, k, rfl, rfl, first, second, control⟩ := three_operands inside count
    simp only [passthrough?] at passes
    split_ifs at passes with below above
    · obtain rfl := some.inj passes
      have : z < threshold := rational_lt_rational.mp
        ((mem_iff.mp control).2.2.trans_lt (lt_eq_true.mp below).2)
      exact ⟨x, rfl, by simp [kernel, ternary, this]⟩
    · obtain rfl := some.inj passes
      have : threshold ≤ z := rational_le_rational.mp
        ((le_eq_true.mp above).2.trans (mem_iff.mp control).2.1)
      exact ⟨y, rfl, by simp [kernel, ternary, this.not_gt]⟩
  | sdfSmoothUnion k =>
    obtain ⟨x, i, y, j, rfl, rfl, member, member'⟩ := two_operands inside count
    simp only [passthrough?] at passes
    split_ifs at passes with far far'
    · obtain rfl := some.inj passes
      exact ⟨x, rfl, ok_congr (smoothUnionOf_eq_left (reach_le (mem_sub member' member) far))⟩
    · obtain rfl := some.inj passes
      exact ⟨y, rfl, ok_congr (smoothUnionOf_eq_right (reach_le (mem_sub member member') far'))⟩
  | sdfSmoothSubtract k =>
    obtain ⟨x, i, y, j, rfl, rfl, member, member'⟩ := two_operands inside count
    simp only [passthrough?, ite_none_right_eq_some, some.injEq] at passes
    obtain ⟨far, rfl⟩ := passes
    exact ⟨x, rfl, ok_congr (smoothSubtractOf_eq_left (reach_le (mem_add member member') far))⟩

/-- Intervals that are exactly as far apart as the smoothness, one of them unbounded. -/
theorem passthrough_returns_operand_touching :
    sdfSmoothUnion.passthrough? [.real (rational 1)] [⟨rational 0, rational 1⟩, ⟨rational 2, top⟩] =
      some 0 ∧
    ∃ v, [(1 / 2 : ℚ), 5][0]? = some v ∧
      sdfSmoothUnion.kernel [.real (rational 1)] ([(1 / 2 : ℚ), 5].map rational) =
        .ok [rational v] :=
  have passes : sdfSmoothUnion.passthrough? [.real (rational 1)]
      [⟨rational 0, rational 1⟩, ⟨rational 2, top⟩] = some 0 := by decide +kernel
  ⟨passes, passthrough_returns_operand (.sdfSmoothUnion 1)
    (.cons (mem_iff.mpr (by norm_num)) (.cons (mem_iff.mpr (by norm_num)) .nil)) passes⟩

end FieldGraph.Operation
