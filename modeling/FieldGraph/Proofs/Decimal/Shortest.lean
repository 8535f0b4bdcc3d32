import FieldGraph.Proofs.Double
import Mathlib

/-! # Shortest digits tell doubles apart

The digits of a double are a number from its rounding neighbourhood, and no two doubles
share a number of their neighbourhoods: an end belongs to the even neighbour only. That
seventeen digits always reach into the neighbourhood is because the grid of numbers with
seventeen digits is finer than the doubles are.
-/

namespace FieldGraph.Decimal

open Scaled

variable {digits first second : Nat} {exp : Int} {t : ℚ}

/-- The form of a significand and exponent: there are 53 digits, and fewer only at the
least exponent. -/
structure Legal (digits : Nat) (exp : Int) : Prop where
  digits_lt : digits < 2 ^ 53
  exponent_ge : -1074 ≤ exp
  full : -1074 < exp → 2 ^ 52 ≤ digits

theorem legal_significand (x : Float) : Legal (significand x).1 (significand x).2 := by
  refine ⟨significand_fst_lt x, ?_, ?_⟩
  all_goals
    unfold significand
    simp only [Nat.pow_eq, Int.ofNat_eq_natCast]
    split
    · simp
    · omega

/-! ## Neighbourhoods -/

/-- A number lies in the neighbourhood of a magnitude. -/
def Scaled.Covers (s : Scaled) (r : ℚ) : Prop :=
  if s.closed then s.lower ≤ r * s.scale ∧ r * s.scale ≤ s.upper
  else s.lower < r * s.scale ∧ r * s.scale < s.upper

/-- How far the lower end is below a magnitude, in quarters of its last digit. -/
def lowerGap (digits : Nat) (exp : Int) : Nat :=
  if digits = 2 ^ 52 ∧ -1074 < exp then 1 else 2

/-- A number of quarters of the last digit leads into the neighbourhood. -/
def Near (digits : Nat) (exp : Int) (t : ℚ) : Prop :=
  if digits % 2 = 0 then (4 * digits - lowerGap digits exp : ℚ) ≤ t ∧ t ≤ 4 * digits + 2
  else (4 * digits - lowerGap digits exp : ℚ) < t ∧ t < 4 * digits + 2

theorem Near.bounds (near : Near digits exp t) :
    (4 * digits - lowerGap digits exp : ℚ) ≤ t ∧ t ≤ 4 * digits + 2 := by
  unfold Near at near
  split at near
  · exact near
  · exact ⟨near.1.le, near.2.le⟩

theorem Near.lt_of_odd (near : Near digits exp t) (odd : digits % 2 = 1) :
    (4 * digits - lowerGap digits exp : ℚ) < t ∧ t < 4 * digits + 2 := by
  rwa [Near, if_neg (by omega)] at near

theorem Near.not_lt (near : Near first exp t) (other : Near second exp t) : ¬ first < second := by
  intro less
  have gap : lowerGap second exp ≤ 2 := by
    unfold lowerGap
    split <;> omega
  have apart : (first + 1 : ℚ) ≤ second := by exact_mod_cast less
  have small : (lowerGap second exp : ℚ) ≤ 2 := by exact_mod_cast gap
  have upper := near.bounds.2
  have lower := other.bounds.1
  have next : second = first + 1 := by
    have : (second : ℚ) ≤ first + 1 := by linarith
    have : second ≤ first + 1 := by exact_mod_cast this
    omega
  rcases Nat.mod_two_eq_zero_or_one first with even | odd
  · have strict := (other.lt_of_odd (by omega)).1
    linarith
  · have strict := (near.lt_of_odd odd).2
    linarith

theorem Near.not_scaled {places : Nat} {larger : Int} (legal : Legal first exp)
    (legal' : Legal second larger) (size : exp < larger)
    (near : Near first exp (t * 2 ^ (places + 1))) : ¬ Near second larger t := by
  intro other
  have full := legal'.full (by have := legal.exponent_ge; omega)
  have lower : (2 ^ 54 - 1 : ℚ) ≤ 4 * second - lowerGap second larger := by
    have : 2 ^ 54 - 1 + lowerGap second larger ≤ 4 * second := by
      unfold lowerGap
      have := legal.exponent_ge
      split <;> omega
    have : ((2 ^ 54 - 1 + lowerGap second larger : ℕ) : ℚ) ≤ (4 * second) := by
      exact_mod_cast this
    push_cast at this
    linarith
  have large : (2 ^ 54 - 1) ≤ t := lower.trans other.bounds.1
  have grows : (2 : ℚ) ≤ 2 ^ (places + 1) := by
    rw [pow_succ]
    have := one_le_pow₀ (n := places) (show (1 : ℚ) ≤ 2 by norm_num)
    linarith
  have twice : (2 ^ 55 - 2) ≤ t * 2 ^ (places + 1) := by nlinarith
  have digits : first = 2 ^ 53 - 1 := by
    have upper := near.bounds.2
    have : ((2 ^ 53 - 1 : ℕ) : ℚ) ≤ first := by
      push_cast
      linarith
    have : 2 ^ 53 - 1 ≤ first := by exact_mod_cast this
    have := legal.digits_lt
    omega
  have strict := (near.lt_of_odd (by omega)).2
  rw [digits] at strict
  push_cast at strict
  linarith

theorem zpow_mul_toNat {base : ℚ} (nonzero : base ≠ 0) (exp : Int) :
    base ^ exp * base ^ (-exp).toNat = base ^ exp.toNat := by
  rw [← zpow_natCast, ← zpow_natCast, ← zpow_add₀ nonzero]
  congr 1
  omega

section Parts

variable {x : Float} {digits : Nat} {exp : Int} (parts : significand x = (digits, exp))

include parts

theorem scale_ofFloat : (Scaled.ofFloat x).scale = 4 * 2 ^ (-exp).toNat := by
  simp only [Scaled.ofFloat, parts, Nat.pow_eq]

theorem value_ofFloat : (Scaled.ofFloat x).value = 4 * digits * 2 ^ exp.toNat := by
  simp only [Scaled.ofFloat, parts, Nat.pow_eq]

theorem lower_ofFloat : (Scaled.ofFloat x).lower =
    (4 * digits - lowerGap digits exp) * 2 ^ exp.toNat := by
  simp only [Scaled.ofFloat, parts]
  rfl

theorem upper_ofFloat : (Scaled.ofFloat x).upper = (4 * digits + 2) * 2 ^ exp.toNat := by
  simp only [Scaled.ofFloat, parts, Nat.pow_eq]

theorem covers_ofFloat_iff (pos : 0 < digits) (t : ℚ) :
    (Scaled.ofFloat x).Covers (t * 2 ^ exp / 4) ↔ Near digits exp t := by
  have below : lowerGap digits exp ≤ 4 * digits := by
    unfold lowerGap
    split <;> omega
  have scaled : t * 2 ^ exp / 4 * ((Scaled.ofFloat x).scale) = t * 2 ^ exp.toNat := by
    rw [scale_ofFloat parts, ← zpow_mul_toNat two_ne_zero]
    push_cast
    ring
  have closed : (Scaled.ofFloat x).closed = (digits % 2 == 0) := by
    simp only [Scaled.ofFloat, parts]
  have unit : (0 : ℚ) < 2 ^ exp.toNat := by positivity
  rw [Scaled.Covers, scaled, lower_ofFloat parts, upper_ofFloat parts, closed, Near]
  push_cast [below]
  simp only [beq_iff_eq, mul_le_mul_iff_left₀ unit, mul_lt_mul_iff_left₀ unit]

theorem pos_of_covers (pos : 0 < digits) {r : ℚ} (covers : (Scaled.ofFloat x).Covers r) :
    0 < r := by
  have lower : 0 < (Scaled.ofFloat x).lower := by
    have gap : lowerGap digits exp < 4 * digits := by
      unfold lowerGap
      split <;> omega
    rw [lower_ofFloat parts]
    exact Nat.mul_pos (by omega) (by positivity)
  have above : (0 : ℚ) < (Scaled.ofFloat x).lower := by exact_mod_cast lower
  have moved : 0 < r * (Scaled.ofFloat x).scale := by
    unfold Scaled.Covers at covers
    split at covers
    · linarith
    · linarith
  exact pos_of_mul_pos_left moved (Nat.cast_nonneg _)

end Parts

theorem significand_eq_of_covers {x y : Float} {r : ℚ} (nonzero : 0 < (significand x).1)
    (nonzero' : 0 < (significand y).1) (first : (Scaled.ofFloat x).Covers r)
    (second : (Scaled.ofFloat y).Covers r) : significand x = significand y := by
  have legal := legal_significand x
  have legal' := legal_significand y
  obtain ⟨⟨m, q⟩, parts⟩ : ∃ parts, significand x = parts := ⟨_, rfl⟩
  obtain ⟨⟨n, e⟩, parts'⟩ : ∃ parts, significand y = parts := ⟨_, rfl⟩
  rw [parts] at legal nonzero
  rw [parts'] at legal' nonzero'
  have near (t : ℚ) (same : r = t * 2 ^ q / 4) : Near m q t := by
    rwa [same, covers_ofFloat_iff parts nonzero] at first
  have near' (t : ℚ) (same : r = t * 2 ^ e / 4) : Near n e t := by
    rwa [same, covers_ofFloat_iff parts' nonzero'] at second
  have moved (a b : ℤ) (less : a < b) : ∃ places : ℕ, ∀ t : ℚ,
      t * 2 ^ b / 4 = t * 2 ^ (places + 1) * 2 ^ a / 4 := by
    refine ⟨(b - a - 1).toNat, fun t => ?_⟩
    have power : (2 : ℚ) ^ b = 2 ^ ((b - a - 1).toNat + 1) * 2 ^ a := by
      rw [← zpow_natCast, ← zpow_add₀ (by norm_num)]
      congr 1
      omega
    rw [power]
    ring
  have unit (a : ℤ) : ∃ t : ℚ, r = t * 2 ^ a / 4 := by
    refine ⟨4 * r / 2 ^ a, ?_⟩
    field_simp
  rw [parts, parts']
  rcases lt_trichotomy q e with less | rfl | greater
  · obtain ⟨places, moved⟩ := moved q e less
    obtain ⟨t, same⟩ := unit e
    exact (Near.not_scaled legal legal' less (near _ (same.trans (moved t))) (near' t same)).elim
  · obtain ⟨t, same⟩ := unit q
    have here := near t same
    have there := near' t same
    have := here.not_lt there
    have := there.not_lt here
    rw [Prod.mk.injEq]
    exact ⟨by omega, rfl⟩
  · obtain ⟨places, moved⟩ := moved e q greater
    obtain ⟨t, same⟩ := unit q
    exact (Near.not_scaled legal' legal greater (near' _ (same.trans (moved t))) (near t same)).elim

/-! ## Grids -/

namespace Scaled

variable {s : Scaled} {exp : Int} {n : Nat}

/-- Whether a number of a grid lies in the neighbourhood. -/
def inside (s : Scaled) (exp : Int) (n : Nat) : Bool :=
  let den := (s.inUnits s.value exp).2
  let low := (s.inUnits s.lower exp).1
  let high := (s.inUnits s.upper exp).1
  if s.closed then low ≤ n * den && n * den ≤ high else low < n * den && n * den < high

/-- The number of a grid below the magnitude. -/
def floor (s : Scaled) (exp : Int) : Nat := (s.inUnits s.value exp).1 / (s.inUnits s.value exp).2

theorem grid_mul (s : Scaled) (exp : Int) (n : Nat) :
    (n : ℚ) * 10 ^ exp * s.scale * 10 ^ (-exp).toNat =
      ((n * (s.scale * 10 ^ exp.toNat) : ℕ) : ℚ) := by
  push_cast
  rw [← zpow_mul_toNat (by norm_num) exp]
  ring

theorem inside_iff : s.inside exp n = true ↔ s.Covers (n * 10 ^ exp) := by
  have unit : (0 : ℚ) < 10 ^ (-exp).toNat := by positivity
  have le (a b : ℚ) : a ≤ b ↔ a * 10 ^ (-exp).toNat ≤ b * 10 ^ (-exp).toNat :=
    (mul_le_mul_iff_left₀ unit).symm
  have lt (a b : ℚ) : a < b ↔ a * 10 ^ (-exp).toNat < b * 10 ^ (-exp).toNat :=
    (mul_lt_mul_iff_left₀ unit).symm
  unfold inside Covers
  split
  · rw [Bool.and_eq_true, decide_eq_true_eq, decide_eq_true_eq, le, le _ s.upper,
      grid_mul]
    norm_cast
  · rw [Bool.and_eq_true, decide_eq_true_eq, decide_eq_true_eq, lt, lt _ s.upper,
      grid_mul]
    norm_cast

theorem onGrid?_eq (s : Scaled) (exp : Int) : s.onGrid? exp =
    match s.inside exp (s.floor exp), s.inside exp (s.floor exp + 1) with
    | true, true =>
      let rest := (s.inUnits s.value exp).1 % (s.inUnits s.value exp).2
      if 2 * rest < (s.inUnits s.value exp).2 then some (s.floor exp)
      else if (s.inUnits s.value exp).2 < 2 * rest then some (s.floor exp + 1)
      else if s.floor exp % 2 = 0 then some (s.floor exp)
      else some (s.floor exp + 1)
    | true, false => some (s.floor exp)
    | false, true => some (s.floor exp + 1)
    | false, false => none := rfl

theorem covers_of_onGrid? (found : s.onGrid? exp = some n) : s.Covers (n * 10 ^ exp) := by
  rw [← inside_iff]
  rw [onGrid?_eq] at found
  split at found
  · rename_i low high
    dsimp only at found
    split at found
    · rw [← Option.some.inj found, low]
    · split at found
      · rw [← Option.some.inj found, high]
      · split at found
        · rw [← Option.some.inj found, low]
        · rw [← Option.some.inj found, high]
  · rename_i low _
    rw [← Option.some.inj found, low]
  · rename_i _ high
    rw [← Option.some.inj found, high]
  · cases found

theorem not_inside_of_onGrid? (missed : s.onGrid? exp = none) :
    ¬ s.Covers (s.floor exp * 10 ^ exp) ∧ ¬ s.Covers ((s.floor exp + 1 : ℕ) * 10 ^ exp) := by
  rw [onGrid?_eq] at missed
  rw [← inside_iff, ← inside_iff]
  split at missed
  · dsimp only at missed
    split_ifs at missed
  · cases missed
  · cases missed
  · rename_i low high
    rw [low, high]
    exact ⟨Bool.false_ne_true, Bool.false_ne_true⟩

theorem floor_bounds (exp : Int) (pos : 0 < s.scale) :
    (s.floor exp : ℚ) * 10 ^ exp * s.scale ≤ s.value ∧
      (s.value : ℚ) < (s.floor exp + 1 : ℕ) * 10 ^ exp * s.scale := by
  have unit : (0 : ℚ) < 10 ^ (-exp).toNat := by positivity
  have den : 0 < s.scale * 10 ^ exp.toNat := by positivity
  rw [← mul_le_mul_iff_left₀ unit, ← mul_lt_mul_iff_left₀ unit, grid_mul, grid_mul]
  have value : (s.value : ℚ) * 10 ^ (-exp).toNat =
      ((s.value * 10 ^ (-exp).toNat : ℕ)) := by norm_cast
  rw [value, Nat.cast_le, Nat.cast_lt]
  refine ⟨Nat.div_mul_le_self _ _, ?_⟩
  have := Nat.lt_div_mul_add (a := s.value * 10 ^ (-exp).toNat) den
  rw [Nat.add_mul, Nat.one_mul]
  exact this

theorem isSome_onGrid? (pos : 0 < s.scale) (lower : s.lower < s.value) (upper : s.value < s.upper)
    (fine : (10 : ℚ) ^ exp * s.scale < s.upper - s.lower) : ∃ n, s.onGrid? exp = some n := by
  apply Option.ne_none_iff_exists'.mp
  intro missed
  obtain ⟨low, high⟩ := not_inside_of_onGrid? missed
  obtain ⟨floor_le, lt_ceil⟩ := floor_bounds exp pos
  have above : (s.lower : ℚ) < s.value := by exact_mod_cast lower
  have below : (s.value : ℚ) < s.upper := by exact_mod_cast upper
  have first : (s.floor exp : ℚ) * 10 ^ exp * s.scale ≤ s.lower := by
    by_contra outside
    apply low
    unfold Covers
    split
    · exact ⟨by linarith, by linarith⟩
    · exact ⟨by linarith, by linarith⟩
  have second : (s.upper : ℚ) ≤ (s.floor exp + 1 : ℕ) * 10 ^ exp * s.scale := by
    by_contra outside
    apply high
    unfold Covers
    split
    · exact ⟨by linarith, by linarith⟩
    · exact ⟨by linarith, by linarith⟩
  push_cast at second
  linarith

theorem exists_firstGrid {point : Int} {counts : List Nat} {count : Nat} (mem : count ∈ counts)
    (met : ∃ n, s.onGrid? (point - Int.ofNat count) = some n) :
    ∃ n place, s.firstGrid point counts = Digits.ofUnits n place ∧ s.onGrid? place = some n := by
  induction counts with
  | nil => cases mem
  | cons first counts ih =>
    unfold firstGrid
    dsimp only
    split
    · rename_i n here
      exact ⟨n, _, rfl, here⟩
    · rename_i missed
      rcases List.mem_cons.mp mem with rfl | later
      · rw [missed] at met
        obtain ⟨n, impossible⟩ := met
        cases impossible
      · exact ih later

theorem below_iff : s.below exp = true ↔ (s.value : ℚ) < 10 ^ exp * s.scale := by
  have unit : (0 : ℚ) < 10 ^ (-exp).toNat := by positivity
  have grid := grid_mul s exp 1
  rw [Nat.cast_one, one_mul, one_mul] at grid
  rw [← mul_lt_mul_iff_left₀ unit, grid, below, decide_eq_true_eq]
  norm_cast

end Scaled

/-! ## Seventeen digits -/

theorem ten_zpow_le {guess leading : Int} (guessed : guess * 100000 ≤ leading * 30103)
    (least : -1074 ≤ leading) (greatest : leading ≤ 1023) :
    (10 : ℚ) ^ (guess - 1) ≤ 2 ^ leading := by
  rcases le_or_gt 0 leading with nonnegative | negative
  · refine le_of_pow_le_pow_left₀ (n := 196) (by decide) (by positivity) ?_
    calc ((10 : ℚ) ^ (guess - 1)) ^ 196 = 10 ^ ((guess - 1) * 196) := by
          rw [zpow_mul, zpow_ofNat]
      _ ≤ 10 ^ (59 * leading) := zpow_le_zpow_right₀ (by norm_num) (by omega)
      _ = (10 ^ 59) ^ leading := by rw [zpow_mul, zpow_ofNat]
      _ ≤ (2 ^ 196) ^ leading := zpow_le_zpow_left₀ nonnegative (by norm_num) (by norm_num)
      _ = (2 ^ leading) ^ 196 := by rw [← zpow_ofNat, ← zpow_ofNat, zpow_comm]
  · refine le_of_pow_le_pow_left₀ (n := 93) (by decide) (by positivity) ?_
    obtain ⟨k, rfl⟩ : ∃ k : ℕ, leading = -k := ⟨leading.natAbs, by omega⟩
    calc ((10 : ℚ) ^ (guess - 1)) ^ 93 = 10 ^ ((guess - 1) * 93) := by
          rw [zpow_mul, zpow_ofNat]
      _ ≤ 10 ^ (28 * -(k : ℤ)) := zpow_le_zpow_right₀ (by norm_num) (by omega)
      _ = ((10 ^ 28) ^ k)⁻¹ := by rw [zpow_mul, zpow_ofNat, zpow_neg, zpow_natCast]
      _ ≤ ((2 ^ 93) ^ k)⁻¹ := by
          refine inv_anti₀ (by positivity) ?_
          exact pow_le_pow_left₀ (by norm_num) (by norm_num) k
      _ = (2 ^ (-(k : ℤ))) ^ 93 := by
          rw [zpow_neg, zpow_natCast, inv_pow, ← pow_mul, ← pow_mul, mul_comm]

section Magnitude

variable {x : Float} {digits : Nat} {exp : Int} (parts : significand x = (digits, exp))

include parts

theorem value_eq_mul_scale :
    ((Scaled.ofFloat x).value : ℚ) = digits * 2 ^ exp * (Scaled.ofFloat x).scale := by
  rw [value_ofFloat parts, scale_ofFloat parts]
  push_cast
  rw [← zpow_mul_toNat two_ne_zero]
  ring

variable (finite : x.isFinite = true) (pos : 0 < digits)

include finite pos

theorem ten_zpow_point_le : (10 : ℚ) ^ ((Scaled.ofFloat x).point - 1) * (Scaled.ofFloat x).scale ≤
      (Scaled.ofFloat x).value := by
  have legal := parts ▸ legal_significand x
  have bounded := parts ▸ significand_snd_le finite
  have guessed (leading : Int) (place : leading = digits.log2 + exp) :
      (10 : ℚ) ^ (Int.fdiv (leading * 30103) 100000 - 1) ≤ digits * 2 ^ exp := by
    have width : digits.log2 < 53 := (Nat.log2_lt (by omega)).mpr legal.digits_lt
    have least := legal.exponent_ge
    have first : ((2 ^ digits.log2 : ℕ)) ≤ digits := by
      exact_mod_cast Nat.log2_self_le (by omega)
    calc (10 : ℚ) ^ (Int.fdiv (leading * 30103) 100000 - 1) ≤ 2 ^ leading := by
          refine ten_zpow_le ?_ (by omega) (by omega)
          rw [Int.fdiv_eq_ediv_of_nonneg _ (by decide)]
          omega
      _ = (2 ^ digits.log2 : ℕ) * 2 ^ exp := by
          rw [place, zpow_add₀ (by norm_num)]
          norm_cast
      _ ≤ digits * 2 ^ exp := by gcongr
  have unit : (0 : ℚ) < (Scaled.ofFloat x).scale := by
    rw [scale_ofFloat parts]
    positivity
  unfold Scaled.point
  dsimp only
  split
  · rw [value_eq_mul_scale parts, mul_le_mul_iff_left₀ unit]
    refine guessed _ ?_
    simp only [Scaled.ofFloat, parts]
    rfl
  · rename_i above
    split
    · rw [below_iff, not_lt] at above
      rwa [add_sub_cancel_right]
    · rename_i above
      rw [below_iff, not_lt] at above
      rwa [add_sub_assoc]

theorem exists_onGrid?_seventeen :
    ∃ n, (Scaled.ofFloat x).onGrid? ((Scaled.ofFloat x).point - Int.ofNat 17) = some n := by
  have legal := parts ▸ legal_significand x
  have unit : 0 < 2 ^ exp.toNat := by positivity
  have gap : 0 < lowerGap digits exp ∧ lowerGap digits exp ≤ 4 * digits ∧
      4 * digits < (2 + lowerGap digits exp) * 10 ^ 16 := by
    have := legal.digits_lt
    unfold lowerGap
    split <;> omega
  apply isSome_onGrid?
  · rw [scale_ofFloat parts]
    positivity
  · rw [lower_ofFloat parts, value_ofFloat parts, Nat.mul_lt_mul_right unit]
    omega
  · rw [upper_ofFloat parts, value_ofFloat parts, Nat.mul_lt_mul_right unit]
    omega
  · have point := ten_zpow_point_le parts finite pos
    have split : (10 : ℚ) ^ ((Scaled.ofFloat x).point - Int.ofNat 17) =
        10 ^ ((Scaled.ofFloat x).point - 1) / 10 ^ 16 := by
      rw [← zpow_ofNat, ← zpow_sub₀ (by norm_num), Int.ofNat_eq_natCast]
      congr 1
      omega
    have width : (4 * digits : ℚ) < (2 + lowerGap digits exp) * 10 ^ 16 := by
      exact_mod_cast gap.2.2
    have ends : ((Scaled.ofFloat x).upper : ℚ) - (Scaled.ofFloat x).lower =
        (2 + lowerGap digits exp) * 2 ^ exp.toNat := by
      rw [upper_ofFloat parts, lower_ofFloat parts]
      push_cast [gap.2.1]
      ring
    have unit' : (0 : ℚ) < 2 ^ exp.toNat := by positivity
    rw [value_ofFloat parts] at point
    push_cast at point
    rw [split]
    nlinarith

theorem exists_covers_shortest : ∃ n place, shortest x = Digits.ofUnits n place ∧
      (Scaled.ofFloat x).Covers (n * 10 ^ place) := by
  have listed : 17 ∈ (List.range 17).map (· + 1) := by decide
  obtain ⟨n, place, digits, here⟩ :=
    exists_firstGrid listed (exists_onGrid?_seventeen parts finite pos)
  exact ⟨n, place, digits, covers_of_onGrid? here⟩

end Magnitude

end FieldGraph.Decimal
