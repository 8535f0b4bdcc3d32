import FieldGraph.Arithmetic
import Mathlib.Tactic.ByContra

/-! # Doubles and integers

The whole part of a double is an integer that a double can hold, so it is never too large
for the conversion back.
-/

namespace FieldGraph

variable {x : Float}

open Float.Model in
theorem toNat_unpackExponent_double (word : BitVec 64) :
    (@UnpackedFloat.unpackExponent Format.binary64 word).toNat =
      word.toNat / Nat.pow 2 52 % Nat.pow 2 11 := by
  simp [UnpackedFloat.unpackExponent, Nat.shiftRight_eq_div_pow]

open Float.Model in
theorem Decimal.exponent_lt (finite : x.isFinite = true) :
    x.toBits.toNat / Nat.pow 2 52 % Nat.pow 2 11 < 2047 := by
  have exp := toNat_unpackExponent_double x.toBits.toBitVec
  have bounded : x.toBits.toNat / Nat.pow 2 52 % Nat.pow 2 11 < 2048 := Nat.mod_lt _ (by decide)
  by_contra large
  have full : @UnpackedFloat.unpackExponent Format.binary64 x.toBits.toBitVec = -1#11 := by
    apply BitVec.eq_of_toNat_eq
    rw [exp, UInt64.toNat_toBitVec]
    have ones : (-1#11 : BitVec 11).toNat = 2047 := by decide
    omega
  have infinite : x.isFinite = false := by
    change (UnpackedFloat.unpack Format.binary64 x.toBits.toBitVec).isFinite = false
    unfold UnpackedFloat.unpack
    dsimp only
    rw [if_pos full]
    split <;> rfl
  rw [infinite] at finite
  cases finite

theorem Decimal.significand_fst_lt (x : Float) : (significand x).1 < Nat.pow 2 53 := by
  have fraction : x.toBits.toNat % Nat.pow 2 52 < Nat.pow 2 52 := Nat.mod_lt _ (by decide)
  unfold significand
  dsimp only
  split
  · exact Nat.lt_trans fraction (by decide)
  · exact Nat.lt_of_lt_of_le (Nat.add_lt_add_left fraction _) (by decide)

theorem Decimal.significand_snd_le (finite : x.isFinite = true) : (significand x).2 ≤ 971 := by
  have exp := exponent_lt finite
  unfold significand
  dsimp only
  split
  · change (-1074) ≤ 971
    decide
  · rw [Int.ofNat_eq_natCast]
    omega

namespace Double

variable {n : Int} {digits exp : Nat}

theorem shiftRight_lt {n shift : Nat} (digits_lt : digits < Nat.pow 2 53)
    (exponent_le : exp ≤ shift + 1) (le : n ≤ digits * Nat.pow 2 exp) :
    n >>> shift < Nat.pow 2 54 - 1 := by
  have power : Nat.pow 2 exp ≤ 2 ^ shift * 2 := Nat.pow_le_pow_right (by decide) exponent_le
  have pos := Nat.two_pow_pos shift
  rw [Nat.shiftRight_eq_div_pow, Nat.div_lt_iff_lt_mul pos]
  calc n ≤ digits * Nat.pow 2 exp := le
    _ ≤ (Nat.pow 2 53 - 1) * (2 ^ shift * 2) := Nat.mul_le_mul (by omega) power
    _ = (Nat.pow 2 54 - 2) * 2 ^ shift := by rw [Nat.mul_comm (2 ^ shift), ← Nat.mul_assoc]
    _ < (Nat.pow 2 54 - 1) * 2 ^ shift := Nat.mul_lt_mul_of_pos_right (by decide) pos

theorem admits_of_le (digits_lt : digits < Nat.pow 2 53) (exponent_le : exp ≤ 971)
    (le : n.natAbs ≤ digits * Nat.pow 2 exp) : admits n = true := by
  rw [admits, Bool.or_eq_true, decide_eq_true_eq, decide_eq_true_eq]
  exact .inr (shiftRight_lt digits_lt exponent_le le)

theorem admits_of_truncate? {x : Float} (truncated : truncate? x = some n) : admits n = true := by
  unfold truncate? at truncated
  by_cases finite : x.isFinite = true
  · have digits := Decimal.significand_fst_lt x
    have power := Decimal.significand_snd_le finite
    rw [if_pos finite] at truncated
    generalize Decimal.significand x = parts at truncated digits power
    have magnitude : (if 0 ≤ parts.2 then parts.1 * Nat.pow 2 parts.2.toNat
        else parts.1 / Nat.pow 2 (-parts.2).toNat) ≤ parts.1 * Nat.pow 2 parts.2.toNat := by
      split
      · exact Nat.le_refl _
      · exact Nat.le_trans (Nat.div_le_self _ _)
          (Nat.le_mul_of_pos_right _ (Nat.pow_pos (by decide)))
    cases truncated
    have exp : parts.2.toNat ≤ 971 := by omega
    apply admits_of_le digits exp
    split
    · rw [Int.natAbs_neg]
      exact magnitude
    · exact magnitude
  · rw [if_neg finite] at truncated
    cases truncated

end Double

end FieldGraph
