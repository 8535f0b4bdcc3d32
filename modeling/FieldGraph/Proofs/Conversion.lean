import FieldGraph.Proofs.Double
import FieldGraph.Proofs.Single
import Mathlib

/-! # Singles among the doubles

Every single is equal to a double, and the single nearest to that double is the single it
was made of. Numbers that are computed in single precision can therefore be kept as
literals without a loss.
-/

namespace FieldGraph.Single

/-! ## Words -/

open Float.Model Float.Model.UnpackedFloat Format UnpackedFloat

variable {format : Format} {digits : Nat}

theorem packComponents_unpack (word : BitVec format.numBits) :
    packComponents format (Sign.ofBitVec (unpackSign word)) (unpackExponent word)
      (unpackMantissa word) = word := by
  have sign : (Sign.ofBitVec (unpackSign word)).toBitVec = unpackSign word := by
    generalize unpackSign word = bit
    revert bit
    decide
  rw [packComponents, sign]
  apply BitVec.eq_of_getLsbD_eq
  simp only [BitVec.getLsbD_append, unpackMantissa, unpackExponent, unpackSign,
    BitVec.getLsbD_cast]
  grind

theorem log2_append_one {width : Nat} (digits : BitVec width) :
    (1#1 ++ digits).toNat.log2 = width := by
  have small := digits.isLt
  have whole : (1#1 ++ digits).toNat = 2 ^ width + digits.toNat := by
    rw [BitVec.toNat_append, ← Nat.shiftLeft_add_eq_or_of_lt small, Nat.shiftLeft_eq]
    simp
  rw [Nat.log2_eq_iff (by omega)]
  omega

/-- A word that stands for a number is not changed by unpacking and packing. -/
theorem pack_unpack (wide : 1 < format.exponentBits) {word : BitVec format.numBits}
    (valid : format.Valid word) :
    UnpackedFloat.pack format (UnpackedFloat.unpack format word) = word := by
  have parts := packComponents_unpack word
  have room : 2 ^ 2 ≤ 2 ^ format.exponentBits := Nat.pow_le_pow_right (by decide) wide
  unfold UnpackedFloat.unpack
  dsimp only
  split
  · rename_i full
    split
    · rename_i none
      rw [full, none] at parts
      exact parts
    · rename_i some
      exact (valid.eq_packedNaN full some).symm
  split
  · rename_i low
    split
    · rename_i none
      rw [low, none] at parts
      exact parts
    · rename_i some
      have few : (unpackMantissa word).toNat.log2 < format.mantissaBitsWithoutImplicit := by
        refine (Nat.log2_lt fun zero => some ?_).mpr (unpackMantissa word).isLt
        exact BitVec.eq_of_toNat_eq (zero.trans BitVec.toNat_zero.symm)
      have digits : ¬ (unpackMantissa word).toNat.log2 + 1 = format.mantissaBits := by
        change ¬ _ = 1 + format.mantissaBitsWithoutImplicit
        omega
      rw [low] at parts ⊢
      unfold UnpackedFloat.pack
      rw [if_neg (by rw [BitVec.toNat_zero]; omega), if_neg digits, BitVec.ofNat_toNat,
        BitVec.setWidth_eq]
      exact parts
  · rename_i notFull _
    have below : (unpackExponent word).toNat + 1 < 2 ^ format.exponentBits := by
      by_contra large
      refine notFull (BitVec.eq_of_toNat_eq ?_)
      rw [BitVec.toNat_neg, BitVec.toNat_ofNat, Nat.mod_eq_of_lt (by omega : 1 < _),
        Nat.mod_eq_of_lt (by omega)]
      omega
    have digits : (1#1 ++ unpackMantissa word).toNat.log2 + 1 = format.mantissaBits := by
      rw [log2_append_one]
      exact Nat.add_comm _ _
    have biased : ((unpackExponent word).toNat - (format.exponentBias +
        format.mantissaBitsWithoutImplicit : Int) + format.exponentBias +
          format.mantissaBitsWithoutImplicit).toNat = (unpackExponent word).toNat := by
      omega
    unfold UnpackedFloat.pack
    rw [biased, if_neg (by omega), if_pos digits, BitVec.ofNat_toNat, BitVec.setWidth_eq,
      BitVec.ofNat_toNat, BitVec.setWidth_append_eq_right]
    exact parts

theorem ofBits_toBits (x : Float32) : Float32.ofBits x.toBits = x := by
  have kept := pack_unpack (by decide) x.toModel.valid
  change Float32.ofModel ⟨⟨_⟩, _⟩ = _
  congr

theorem toBits_ofBits {word : UInt64} (valid : binary64.Valid word.toBitVec) :
    (Float.ofBits word).toBits = word :=
  congrArg UInt64.ofBitVec (pack_unpack (by decide) valid)

/-! ## Digits -/

theorem narrowBits_of_fields {sign exp : Nat} (bounded : exp < 2048)
    (fraction : digits < 4503599627370496) :
    narrowBits (sign * 9223372036854775808 + (exp * 4503599627370496 + digits)) =
      if exp = 2047 then sign * 2147483648 + (255 * 8388608 + digits / 536870912)
      else if 896 < exp then
        sign * 2147483648 + ((exp - 896) * 8388608 + digits / 536870912)
      else if 873 < exp then
        sign * 2147483648 + (4503599627370496 + digits) / Nat.pow 2 (52 - (exp - 874))
      else sign * 2147483648 := by
  obtain ⟨word, isWord⟩ : ∃ word,
      sign * 9223372036854775808 + (exp * 4503599627370496 + digits) = word := ⟨_, rfl⟩
  have first : word / Nat.pow 2 63 = sign := by
    change _ / 9223372036854775808 = _
    omega
  have second : word / Nat.pow 2 52 % Nat.pow 2 11 = exp := by
    change _ / 4503599627370496 % 2048 = _
    omega
  have third : word % Nat.pow 2 52 = digits := by
    change _ % 4503599627370496 = _
    omega
  rw [isWord, narrowBits, first, second, third]

theorem exists_moved (pos : 0 < digits) (small : digits < 8388608) :
    ∃ place rest, place < 23 ∧ rest < 4503599627370496 ∧
      (digits.log2 + 873) * Nat.pow 2 52 + digits * Nat.pow 2 (52 - digits.log2) =
        (place + 874) * 4503599627370496 + rest ∧
      (4503599627370496 + rest) / Nat.pow 2 (52 - place) = digits := by
  have leading := Nat.log2_self_le (Nat.ne_of_gt pos)
  have next := Nat.lt_log2_self (n := digits)
  have places : digits.log2 < 23 := (Nat.log2_lt (Nat.ne_of_gt pos)).mpr small
  have unit : 2 ^ digits.log2 * Nat.pow 2 (52 - digits.log2) = 4503599627370496 := by
    rw [Nat.pow_eq, ← Nat.pow_add, show digits.log2 + (52 - digits.log2) = 52 by omega]
  have pos' : 0 < Nat.pow 2 (52 - digits.log2) := Nat.pow_pos (by decide)
  obtain ⟨rest, whole⟩ := Nat.exists_eq_add_of_le leading
  have moved : digits * Nat.pow 2 (52 - digits.log2) =
      4503599627370496 + rest * Nat.pow 2 (52 - digits.log2) := by
    rw [← unit, ← Nat.add_mul, ← whole]
  refine ⟨digits.log2, rest * Nat.pow 2 (52 - digits.log2), places, ?_, ?_, ?_⟩
  · rw [← unit]
    refine Nat.mul_lt_mul_of_pos_right ?_ pos'
    omega
  · change (digits.log2 + 873) * 4503599627370496 + _ = _
    omega
  · rw [← moved]
    exact Nat.mul_div_cancel digits pos'

/-- The digits of a double that is equal to a single. -/
theorem widenBits_cases {bits : Nat} (bounded : bits < 4294967296) :
    ∃ sign exp digits, sign ≤ 1 ∧ exp < 2048 ∧ digits < 4503599627370496 ∧
      widenBits bits = sign * 9223372036854775808 + (exp * 4503599627370496 + digits) ∧
      narrowBits (widenBits bits) = bits ∧
      (exp = 2047 → bits / 8388608 % 256 = 255 ∧ digits = bits % 8388608 * 536870912) := by
  obtain ⟨sign, isSign⟩ : ∃ sign, bits / 2147483648 = sign := ⟨_, rfl⟩
  obtain ⟨exp, isExponent⟩ : ∃ exp, bits / 8388608 % 256 = exp := ⟨_, rfl⟩
  obtain ⟨digits, isDigits⟩ : ∃ digits, bits % 8388608 = digits := ⟨_, rfl⟩
  have cases : widenBits bits =
      if exp = 255 then
        sign * 9223372036854775808 + (2047 * 4503599627370496 + digits * 536870912)
      else if 0 < exp then
        sign * 9223372036854775808 + ((exp + 896) * 4503599627370496 + digits * 536870912)
      else if 0 < digits then
        sign * 9223372036854775808 +
          ((digits.log2 + 873) * Nat.pow 2 52 + digits * Nat.pow 2 (52 - digits.log2))
      else sign * 9223372036854775808 := by
    rw [← isSign, ← isExponent, ← isDigits]
    rfl
  rw [cases]
  split
  · refine ⟨sign, 2047, digits * 536870912, by omega, by omega, by omega, rfl, ?_, by omega⟩
    rw [narrowBits_of_fields (by omega) (by omega), if_pos rfl]
    omega
  split
  · refine ⟨sign, exp + 896, digits * 536870912, by omega, by omega, by omega, rfl, ?_,
      by omega⟩
    rw [narrowBits_of_fields (by omega) (by omega), if_neg (by omega), if_pos (by omega)]
    omega
  split
  · rename_i pos
    obtain ⟨place, rest, places, fraction, moved, back⟩ := exists_moved pos (by omega)
    rw [moved]
    clear moved
    refine ⟨sign, place + 874, rest, by omega, by omega, fraction, rfl, ?_, by omega⟩
    rw [narrowBits_of_fields (by omega) fraction, if_neg (by omega), if_neg (by omega),
      if_pos (by omega), Nat.add_sub_cancel]
    omega
  · have whole : sign * 9223372036854775808 =
        sign * 9223372036854775808 + (0 * 4503599627370496 + 0) := by omega
    refine ⟨sign, 0, 0, by omega, by omega, by omega, whole, ?_, by omega⟩
    rw [whole, narrowBits_of_fields (by omega) (by omega), if_neg (by decide), if_neg (by decide),
      if_neg (by decide)]
    clear whole
    omega

theorem toNat_unpackExponent_single (word : BitVec 32) :
    (@unpackExponent binary32 word).toNat = word.toNat / 8388608 % 256 := by
  simp [unpackExponent, Nat.shiftRight_eq_div_pow]

theorem valid_widenBits (x : Float32) :
    binary64.Valid (UInt64.ofNat (widenBits x.toBits.toNat)).toBitVec where
  eq_packedNaN full some := by
    obtain ⟨sign, exp, digits, single, small, fraction, whole, -, special⟩ :=
      widenBits_cases x.toBits.toNat_lt
    have word : (UInt64.ofNat (widenBits x.toBits.toNat)).toBitVec.toNat =
        sign * 9223372036854775808 + (exp * 4503599627370496 + digits) := by
      rw [UInt64.toNat_toBitVec, UInt64.toNat_ofNat_of_lt', whole]
      change _ < 18446744073709551616
      omega
    have exponents := congrArg BitVec.toNat full
    rw [toNat_unpackExponent_double] at exponents
    change _ / 4503599627370496 % 2048 = 2047 at exponents
    obtain ⟨isFull, isDigits⟩ := special (by omega)
    have nan := x.toModel.valid.eq_packedNaN
      (BitVec.eq_of_toNat_eq ((toNat_unpackExponent_single _).trans isFull)) fun none => some ?_
    · have bits : x.toBits.toNat = 2143289344 := congrArg BitVec.toNat nan
      rw [bits]
      rfl
    · have zero := congrArg BitVec.toNat none
      change x.toBits.toNat % 8388608 = 0 at zero
      refine BitVec.eq_of_toNat_eq ?_
      change _ % 4503599627370496 = 0
      omega

theorem ofDouble_toDouble (x : Float32) : ofDouble (toDouble x) = x := by
  obtain ⟨sign, exp, digits, single, small, fraction, whole, back, -⟩ :=
    widenBits_cases x.toBits.toNat_lt
  have word : (toDouble x).toBits.toNat = widenBits x.toBits.toNat := by
    rw [toDouble, toBits_ofBits (valid_widenBits x), UInt64.toNat_ofNat_of_lt']
    change _ < 18446744073709551616
    omega
  rw [ofDouble, word, back, if_pos rfl, UInt32.ofNat_toNat, ofBits_toBits]

end FieldGraph.Single
