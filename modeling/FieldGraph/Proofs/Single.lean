import FieldGraph.Generator.Sample
import Mathlib.Algebra.Order.Ring.Int
import Mathlib.Tactic.Positivity.Basic
import Mathlib.Tactic.Ring

/-! # Integers in single precision

Single precision has 24 digits, so the integers up to `2 ^ 24` are numbers of it. Sums and
products that stay among them are computed without an error. The rounded form of an
integer is its digits, moved to the left until there are 24 of them.
-/

namespace FieldGraph.Single

open Float.Model Float.Model.UnpackedFloat Float.Model.Format

variable {mantissa level : Nat} {exp a b : Int}

/-! ## The digits of an integer -/

theorem log2_mul_two_pow {n : Nat} (pos : 0 < n) (places : Nat) :
    (n * 2 ^ places).log2 = n.log2 + places := by
  have lower : 2 ^ n.log2 ≤ n := Nat.log2_self_le (by omega)
  have upper : n < 2 ^ (n.log2 + 1) := Nat.lt_log2_self
  rw [Nat.log2_eq_iff (by positivity)]
  constructor
  · rw [Nat.pow_add]
    exact Nat.mul_le_mul_right _ lower
  · rw [Nat.add_right_comm, Nat.pow_add]
    exact Nat.mul_lt_mul_of_pos_right upper (by positivity)

/-- The digits of an integer, moved to 24 places. -/
def significand (n : Nat) : Nat := n * 2 ^ 24 / 2 ^ (n.log2 + 1)

variable {n : Nat}

theorem significand_mul (bounded : n ≤ 2 ^ 24) : significand n * 2 ^ (n.log2 + 1) = n * 2 ^ 24 := by
  apply Nat.div_mul_cancel
  by_cases largest : n = 2 ^ 24
  · rw [largest]
    decide
  · by_cases empty : n = 0
    · simp [empty]
    · have small : n.log2 < 24 := (Nat.log2_lt empty).mpr (by omega)
      exact Dvd.dvd.mul_left (Nat.pow_dvd_pow 2 small) n

theorem significand_pos (pos : 0 < n) (bounded : n ≤ 2 ^ 24) : 0 < significand n := by
  apply Nat.pos_of_ne_zero
  intro none
  have all := significand_mul bounded
  rw [none] at all
  omega

theorem log2_significand (pos : 0 < n) (bounded : n ≤ 2 ^ 24) : (significand n).log2 = 23 := by
  have moved := congrArg Nat.log2 (significand_mul bounded)
  rw [log2_mul_two_pow (significand_pos pos bounded), log2_mul_two_pow pos] at moved
  omega

theorem log2_le (bounded : n ≤ 2 ^ 24) : n.log2 ≤ 24 := by
  by_cases empty : n = 0
  · simp [empty]
  · have below := (@Nat.log2_lt n 25 empty).mpr (by omega)
    omega

/-! ## Rounding -/

theorem shiftRight_exact (mantissa places : Nat) :
    (⟨mantissa * 2 ^ places, false, false⟩ : ExtendedMantissa) >>> places =
      ⟨mantissa, false, false⟩ := by
  change places.repeat ExtendedMantissa.shiftRightOne _ = _
  induction places generalizing mantissa with
  | zero => simp [Nat.repeat]
  | succ places ih =>
    have moved : mantissa * 2 ^ (places + 1) = mantissa * 2 * 2 ^ places := by ring
    rw [Nat.repeat, moved, ih]
    simp [ExtendedMantissa.shiftRightOne]

theorem targetExponent_eq {first : Nat} (place : (mantissa.log2 : Int) + exp = first) :
    binary32.targetExponent (totalExponent mantissa exp) = (first : Int) - 23 := by
  change max (mantissa.log2 + 1 + exp - 24) (-149) = _
  omega

theorem finite_congr {sign other : Sign} {digits : Nat} {place : Int} {pos : 0 < mantissa}
    {pos' : 0 < digits} (signs : sign = other) (mantissas : mantissa = digits)
    (exponents : exp = place) :
    UnpackedFloat.finite sign mantissa exp pos = .finite other digits place pos' := by
  subst signs mantissas exponents
  rfl

/-- A number with at least 24 digits that stands for an integer is rounded to its digits. -/
theorem roundWithAccuracy_exact (sign : Sign) (pos : 0 < n) (bounded : n ≤ 2 ^ 24)
    (small : -48 ≤ exp) (wide : exp ≤ n.log2 - 23)
    (same : mantissa * 2 ^ (exp + 48).toNat = n * 2 ^ 48) :
    roundWithAccuracy binary32 sign mantissa exp .exact =
      .finite sign (significand n) (n.log2 - 23) (significand_pos pos bounded) := by
  obtain ⟨places, moved⟩ : ∃ places : Nat, n.log2 - 23 = exp + places :=
    ⟨(n.log2 - 23 - exp).toNat, by omega⟩
  have digits : mantissa = significand n * 2 ^ places := by
    apply Nat.eq_of_mul_eq_mul_right (Nat.two_pow_pos (exp + 48).toNat)
    have total : places + (exp + 48).toNat = n.log2 + 1 + 24 := by omega
    rw [same, Nat.mul_assoc, ← Nat.pow_add, total, Nat.pow_add, ← Nat.mul_assoc,
      significand_mul bounded, Nat.mul_assoc, ← Nat.pow_add]
  have width := log2_significand pos bounded
  have length : (significand n * 2 ^ places).log2 = 23 + places := by
    rw [log2_mul_two_pow (significand_pos pos bounded), width]
  have target : binary32.targetExponent
      (totalExponent (significand n * 2 ^ places) exp) = n.log2 - 23 :=
    targetExponent_eq (by rw [length]; omega)
  have again : binary32.targetExponent
      (totalExponent (significand n) (exp + places)) = n.log2 - 23 :=
    targetExponent_eq (by rw [width]; omega)
  have first : shiftToTargetExponent binary32 mantissa exp .exact =
      (⟨significand n, false, false⟩, exp + places) := by
    rw [digits, shiftToTargetExponent, target, shiftToExponent]
    have amount : (n.log2 - 23 - exp).toNat = places := by omega
    simp only [amount, ExtendedMantissa.ofMantissaAndAccuracy, shiftRight_exact]
  -- The rounded digits fill the places already, so that the second move is none.
  have second : shiftToTargetExponent binary32 (significand n) (exp + places) .exact =
      (⟨significand n, false, false⟩, exp + places) := by
    rw [shiftToTargetExponent, again, shiftToExponent]
    have amount : (n.log2 - 23 - (exp + places)).toNat = 0 := by omega
    simp only [amount, ExtendedMantissa.ofMantissaAndAccuracy]
    have kept := shiftRight_exact (significand n) 0
    rw [Nat.pow_zero, Nat.mul_one] at kept
    rw [kept]
    simp
  have rounded : (⟨significand n, false, false⟩ : ExtendedMantissa).roundedMantissa =
      significand n := rfl
  unfold roundWithAccuracy
  rw [first]
  dsimp only
  rw [rounded, second]
  rw [dif_neg (Nat.ne_of_gt (significand_pos pos bounded))]
  exact finite_congr rfl rfl moved.symm

theorem round_exact (sign : Sign) (pos : 0 < n) (bounded : n ≤ 2 ^ 24)
    (small : -48 ≤ exp) (same : mantissa * 2 ^ (exp + 48).toNat = n * 2 ^ 48) :
    UnpackedFloat.round binary32 sign mantissa exp =
      .finite sign (significand n) (n.log2 - 23) (significand_pos pos bounded) := by
  have nonzero : 0 < mantissa := by
    apply Nat.pos_of_ne_zero
    intro empty
    rw [empty] at same
    omega
  have lengths := congrArg Nat.log2 same
  rw [log2_mul_two_pow nonzero, log2_mul_two_pow pos] at lengths
  have target := targetExponent_eq (show mantissa.log2 + exp = n.log2 by omega)
  rw [UnpackedFloat.round, decreaseExponent]
  rw [Nat.shiftLeft_eq]
  apply roundWithAccuracy_exact sign pos bounded
  · omega
  · omega
  · rw [Nat.mul_assoc, ← Nat.pow_add, ← same]
    congr 2
    omega

/-! ## Integers -/

/-- The form of an integer. -/
def unpacked (n : Int) : UnpackedFloat := UnpackedFloat.ofInt binary32 n

/-- The sign of an integer. -/
def signOf (n : Int) : Sign := if n < 0 then .negative else .positive

theorem apply_signOf (n : Int) : (signOf n).apply n.natAbs = n := by
  unfold signOf
  split
  · simp only [Sign.apply]
    omega
  · simp only [Sign.apply]
    omega

theorem apply_mul (sign : Sign) (a b : Int) : sign.apply (a * b) = sign.apply a * b := by
  cases sign <;> simp [Sign.apply]

variable {n : Int}

theorem normalize_of_ne {mantissa : Int} (nonzero : n ≠ 0) (bounded : n.natAbs ≤ 2 ^ 24)
    (small : -48 ≤ exp) (same : mantissa * 2 ^ (exp + 48).toNat = n * 2 ^ 48) (zeroSign : Sign) :
    UnpackedFloat.normalize binary32 mantissa exp zeroSign =
      .finite (signOf n) (significand n.natAbs) (n.natAbs.log2 - 23)
        (significand_pos (Int.natAbs_pos.mpr nonzero) bounded) := by
  have pos : 0 < n.natAbs := Int.natAbs_pos.mpr nonzero
  have power : (0 : Int) < 2 ^ (exp + 48).toNat := by positivity
  have sizes : mantissa.natAbs * 2 ^ (exp + 48).toNat = n.natAbs * 2 ^ 48 := by
    have equal := congrArg Int.natAbs same
    rw [Int.natAbs_mul, Int.natAbs_mul] at equal
    exact equal
  have rounded (sign : Sign) := round_exact sign pos bounded small sizes
  unfold UnpackedFloat.normalize
  by_cases negative : n < 0
  · have below : mantissa < 0 := by
      by_contra above
      have := Int.mul_nonneg (not_lt.mp above) power.le
      omega
    have magnitude : (-mantissa).toNat = mantissa.natAbs := by omega
    rw [show compare mantissa 0 = .lt from Int.compare_eq_lt.mpr below]
    rw [magnitude, rounded]
    exact finite_congr (if_pos negative).symm rfl rfl
  · have above : 0 < mantissa := by
      by_contra below
      have := Int.mul_nonpos_of_nonpos_of_nonneg (not_lt.mp below) power.le
      omega
    have magnitude : mantissa.toNat = mantissa.natAbs := by omega
    rw [show compare mantissa 0 = .gt from Int.compare_eq_gt.mpr above]
    rw [magnitude, rounded]
    exact finite_congr (if_neg negative).symm rfl rfl

theorem unpacked_of_ne (nonzero : n ≠ 0) (bounded : n.natAbs ≤ 2 ^ 24) :
    unpacked n = .finite (signOf n) (significand n.natAbs) (n.natAbs.log2 - 23)
      (significand_pos (Int.natAbs_pos.mpr nonzero) bounded) :=
  normalize_of_ne nonzero bounded (by decide) rfl .positive

theorem normalize_exact {mantissa : Int} (bounded : n.natAbs ≤ 2 ^ 24) (small : -48 ≤ exp)
    (same : mantissa * 2 ^ (exp + 48).toNat = n * 2 ^ 48) :
    UnpackedFloat.normalize binary32 mantissa exp .positive = unpacked n := by
  by_cases zero : n = 0
  · have empty : mantissa = 0 := by
      rw [zero] at same
      exact (Int.mul_eq_zero.mp same).resolve_right (by positivity)
    rw [zero, empty]
    rfl
  · rw [normalize_of_ne zero bounded small same, unpacked_of_ne zero bounded]

theorem apply_shiftLeft (bounded : n.natAbs ≤ 2 ^ 24) (small : -48 ≤ exp)
    (below : exp ≤ n.natAbs.log2 - 23) :
    (signOf n).apply (significand n.natAbs <<< (n.natAbs.log2 - 23 - exp).toNat : Nat) *
      2 ^ (exp + 48).toNat = n * 2 ^ 48 := by
  have places : (n.natAbs.log2 - 23 - exp).toNat + (exp + 48).toNat =
      n.natAbs.log2 + 1 + 24 := by omega
  have digits : significand n.natAbs * 2 ^ (n.natAbs.log2 - 23 - exp).toNat *
      2 ^ (exp + 48).toNat = n.natAbs * 2 ^ 48 := by
    rw [Nat.mul_assoc, ← Nat.pow_add, places, Nat.pow_add, ← Nat.mul_assoc,
      significand_mul bounded, Nat.mul_assoc, ← Nat.pow_add]
  conv_rhs => rw [← apply_signOf n]
  rw [Nat.shiftLeft_eq, ← apply_mul, ← apply_mul]
  congr 1
  exact_mod_cast digits

/-- **Sums of integers are exact.** -/
theorem add_unpacked (first : a.natAbs ≤ 2 ^ 24) (second : b.natAbs ≤ 2 ^ 24)
    (sum : (a + b).natAbs ≤ 2 ^ 24) :
    UnpackedFloat.add binary32 (unpacked a) (unpacked b) = unpacked (a + b) := by
  by_cases zero : a = 0
  · by_cases also : b = 0
    · rw [zero, also]
      rfl
    · rw [zero, Int.zero_add, unpacked_of_ne also second]
      rfl
  · by_cases also : b = 0
    · rw [also, Int.add_zero, unpacked_of_ne zero first]
      rfl
    · rw [unpacked_of_ne zero first, unpacked_of_ne also second]
      apply normalize_exact sum
      · omega
      · rw [Int.add_mul, Int.add_mul, apply_shiftLeft first (Int.le_min.mpr (by omega))
          (Int.min_le_left _ _), apply_shiftLeft second (Int.le_min.mpr (by omega))
          (Int.min_le_right _ _)]

/-- **Products of natural numbers are exact.** -/
theorem mul_unpacked {a b : Nat} (first : a ≤ 2 ^ 24) (second : b ≤ 2 ^ 24)
    (product : a * b ≤ 2 ^ 24) :
    UnpackedFloat.mul binary32 (unpacked a) (unpacked b) = unpacked (a * b : Nat) := by
  by_cases zero : a = 0
  · by_cases also : b = 0
    · rw [zero, also]
      rfl
    · rw [zero, Nat.zero_mul, unpacked_of_ne (Int.natCast_ne_zero.mpr also) second]
      rfl
  · by_cases also : b = 0
    · rw [also, unpacked_of_ne (Int.natCast_ne_zero.mpr zero) first]
      rfl
    · have nonzero : a * b ≠ 0 := Nat.mul_ne_zero zero also
      have logarithms : a.log2 + b.log2 ≤ (a * b).log2 := by
        rw [Nat.le_log2 nonzero, Nat.pow_add]
        exact Nat.mul_le_mul (Nat.log2_self_le zero) (Nat.log2_self_le also)
      rw [unpacked_of_ne (Int.natCast_ne_zero.mpr zero) first,
        unpacked_of_ne (Int.natCast_ne_zero.mpr also) second,
        unpacked_of_ne (Int.natCast_ne_zero.mpr nonzero) product]
      apply roundWithAccuracy_exact .positive (Nat.pos_of_ne_zero nonzero) product
      · omega
      · rw [Int.natAbs_natCast, Int.natAbs_natCast]
        omega
      · have places : ((a.log2 : Int) - 23 + (b.log2 - 23) + 48).toNat =
            a.log2 + 1 + (b.log2 + 1) := by omega
        calc significand a * significand b * 2 ^ ((a.log2 : Int) - 23 + (b.log2 - 23) + 48).toNat
            = significand a * 2 ^ (a.log2 + 1) * (significand b * 2 ^ (b.log2 + 1)) := by
              rw [places]
              ring
          _ = a * b * 2 ^ 48 := by
              rw [significand_mul first, significand_mul second]
              ring

/-! ## Packing -/

theorem unpackSign_packComponents (format : Format) (sign : Sign)
    (exp : BitVec format.exponentBits) (mantissa : BitVec format.mantissaBitsWithoutImplicit) :
    unpackSign (packComponents format sign exp mantissa) = sign.toBitVec := by
  apply BitVec.eq_of_getLsbD_eq
  intro place inside
  obtain rfl : place = 0 := by omega
  delta unpackSign
  simp [packComponents, BitVec.getLsbD_append, BitVec.getElem_append]

theorem ofBitVec_toBitVec (sign : Sign) : Sign.ofBitVec sign.toBitVec = sign := by
  cases sign <;> rfl

/-- A number with all 24 digits survives packing. -/
theorem unpack_pack_finite (sign : Sign) (pos : 0 < mantissa) (full : mantissa.log2 = 23)
    (low : -149 ≤ exp) (high : exp ≤ 104) :
    (Float32.Model.pack (.finite sign mantissa exp pos)).unpack =
      .finite sign mantissa exp pos := by
  obtain ⟨lower, upper⟩ := (Nat.log2_eq_iff (Nat.ne_of_gt pos)).mp full
  obtain ⟨biased, shifted⟩ : ∃ biased : Nat, exp = biased - 150 := ⟨(exp + 150).toNat, by omega⟩
  subst shifted
  have stored : (BitVec.ofNat 8 biased).toNat = biased := by
    rw [BitVec.toNat_ofNat]
    omega
  have nonzero : BitVec.ofNat 8 biased ≠ 0#8 := by
    intro same
    have equal := congrArg BitVec.toNat same
    rw [BitVec.toNat_zero] at equal
    omega
  have ordinary : BitVec.ofNat 8 biased ≠ -1#8 := by
    intro same
    have equal := congrArg BitVec.toNat same
    rw [stored] at equal
    change biased = 255 at equal
    omega
  have digits : (1#1 ++ BitVec.ofNat 23 mantissa).toNat = mantissa := by
    rw [BitVec.toNat_append, ← Nat.shiftLeft_add_eq_or_of_lt (by omega)]
    change 1 * 2 ^ 23 + mantissa % 2 ^ 23 = mantissa
    omega
  have exponents : ((biased : Int) - 150 + 127 + 23).toNat = biased := by omega
  have packed : UnpackedFloat.pack binary32 (.finite sign mantissa (biased - 150) pos) =
      packComponents binary32 sign (BitVec.ofNat 8 biased) (BitVec.ofNat 23 mantissa) := by
    change (if 2 ^ 8 ≤ ((biased : Int) - 150 + 127 + 23).toNat + 1 then _
      else if mantissa.log2 + 1 = 24 then packComponents binary32 sign
        (BitVec.ofNat 8 ((biased : Int) - 150 + 127 + 23).toNat) _ else _) = _
    rw [exponents, if_neg (by omega), if_pos (by omega)]
  change UnpackedFloat.unpack binary32 (UnpackedFloat.pack binary32 _) = _
  rw [packed]
  unfold UnpackedFloat.unpack
  rw [unpackExponent_packComponents, if_neg ordinary, if_neg nonzero]
  apply finite_congr
  · rw [unpackSign_packComponents, ofBitVec_toBitVec]
  · rw [unpackMantissa_packComponents]
    exact digits
  · rw [stored]
    change (biased : Int) - (127 + 23) = _
    omega

/-- An integer in single precision. -/
def ofInteger (n : Int) : Float32 := .ofModel (.pack (unpacked n))

theorem unpack_pack_unpacked (bounded : n.natAbs ≤ 2 ^ 24) :
    (Float32.Model.pack (unpacked n)).unpack = unpacked n := by
  by_cases zero : n = 0
  · rw [zero]
    rfl
  · have pos : 0 < n.natAbs := Int.natAbs_pos.mpr zero
    have places := log2_le bounded
    rw [unpacked_of_ne zero bounded]
    exact unpack_pack_finite _ _ (log2_significand pos bounded) (by omega) (by omega)

theorem ofInteger_add (first : a.natAbs ≤ 2 ^ 24) (second : b.natAbs ≤ 2 ^ 24)
    (sum : (a + b).natAbs ≤ 2 ^ 24) : ofInteger a + ofInteger b = ofInteger (a + b) := by
  change Float32.ofModel (.pack (UnpackedFloat.add binary32
    (Float32.Model.pack (unpacked a)).unpack (Float32.Model.pack (unpacked b)).unpack)) = _
  rw [unpack_pack_unpacked first, unpack_pack_unpacked second, add_unpacked first second sum]
  rfl

theorem ofInteger_mul {a b : Nat} (first : a ≤ 2 ^ 24) (second : b ≤ 2 ^ 24)
    (product : a * b ≤ 2 ^ 24) : ofInteger a * ofInteger b = ofInteger (a * b : Nat) := by
  change Float32.ofModel (.pack (UnpackedFloat.mul binary32
    (Float32.Model.pack (unpacked a)).unpack (Float32.Model.pack (unpacked b)).unpack)) = _
  rw [@unpack_pack_unpacked a first, @unpack_pack_unpacked b second,
    mul_unpacked first second product]
  rfl

theorem ofNat_eq {n : Nat} (bounded : n ≤ 2 ^ 24) : Float32.ofNat n = ofInteger n := by
  change Float32.ofScientific n false 0 = _
  unfold Float32.ofScientific
  split
  · have word : n.toUInt64.toNat = n := by
      rw [UInt64.toNat_ofNat']
      omega
    have nonempty : 0 < Float32.exactlyRepresentablePowersOfTen.size := by decide
    have one : Float32.exactlyRepresentablePowersOfTen[0] = ofInteger (1 : Nat) := by
      revert nonempty
      decide +kernel
    have literal : n.toUInt64.toFloat32 = ofInteger n := by
      change Float32.ofModel (.pack (unpacked n.toUInt64.toNat)) = _
      rw [word]
      rfl
    have product := ofInteger_mul bounded (show 1 ≤ 2 ^ 24 by decide) (by omega)
    rw [Nat.mul_one] at product
    change n.toUInt64.toFloat32 * Float32.exactlyRepresentablePowersOfTen[0] = _
    rw [one, literal, product]
  · have pos : 0 < n := by omega
    have product : UnpackedFloat.ofScientific binary32 n 0 =
        roundWithAccuracy binary32 .positive (n <<< 24 * 1) (-24) .exact := by
      have moderate : ¬ (0 : Int) < -(2 ^ 8 + n.log2) := by omega
      rw [UnpackedFloat.ofScientific, dif_neg (by omega), if_neg (by decide), if_neg moderate,
        if_pos (by decide)]
      rfl
    have same : n <<< 24 * 1 * 2 ^ (-24 + 48).toNat = n * 2 ^ 48 := by
      rw [Nat.shiftLeft_eq]
      change n * 2 ^ 24 * 1 * 2 ^ 24 = _
      ring
    have rounded := roundWithAccuracy_exact .positive pos bounded (by decide) (by omega) same
    change Float32.ofModel (.pack (UnpackedFloat.ofScientific binary32 n 0)) = _
    rw [product, rounded, ofInteger, @unpacked_of_ne n (by omega) bounded]
    rfl

theorem ofInt_eq (bounded : n.natAbs ≤ 2 ^ 24) : Float32.ofInt n = ofInteger n := by
  cases n with
  | ofNat n => exact ofNat_eq bounded
  | negSucc n =>
    have nonzero : (↑(n + 1) : Int) ≠ 0 := by omega
    have minus : signOf (Int.negSucc n) = .negative := if_pos (Int.negSucc_lt_zero n)
    change Float32.neg (Float32.ofNat (n + 1)) = _
    rw [@ofNat_eq (n + 1) bounded]
    change Float32.ofModel (.pack (UnpackedFloat.neg
      (Float32.Model.pack (unpacked (n + 1 : Nat))).unpack)) = _
    rw [@unpack_pack_unpacked (n + 1 : Nat) bounded, ofInteger, unpacked_of_ne nonzero bounded,
      unpacked_of_ne (Int.negSucc_ne_zero n) bounded, minus]
    rfl

/-! ## Positions -/

theorem roundHalfEven_mul {num den : Nat} (pos : 0 < den) (divides : den ∣ num) :
    Decimal.roundHalfEven num den * den = num := by
  simp [Decimal.roundHalfEven, Nat.mod_eq_zero_of_dvd divides, pos, Nat.div_mul_cancel divides]

theorem roundInt_eq (divides : 2 ^ (n.natAbs.log2 + 1 - 53) ∣ n.natAbs) :
    Double.roundInt n = n := by
  have kept := roundHalfEven_mul (Nat.two_pow_pos _) divides
  change n.sign * Int.ofNat (Decimal.roundHalfEven n.natAbs (2 ^ (n.natAbs.log2 + 1 - 53)) *
    2 ^ (n.natAbs.log2 + 1 - 53)) = n
  rw [kept]
  exact Int.sign_mul_natAbs n

theorem sampleOfNumber_integer (bounded : n.natAbs ≤ 2 ^ 24) :
    sampleOfNumber (.integer n) = .ok (Float32.ofInt n) := by
  have digits := log2_le bounded
  have admitted : Double.admits n = true := by
    simp only [Double.admits, Bool.or_eq_true, decide_eq_true_eq]
    omega
  have few : n.natAbs.log2 + 1 - 53 = 0 := by omega
  rw [sampleOfNumber, if_pos admitted, roundInt_eq (by simp [few])]

variable (moderate : level < 128)

include moderate

theorem sampleOfNumber_stride :
    sampleOfNumber (.integer (2 ^ level : Nat)) = .ok (Float32.ofNat (2 ^ level)) := by
  have digits : ((2 ^ level : Nat) : Int).natAbs.log2 = level := by
    rw [Int.natAbs_natCast, Nat.log2_two_pow]
  have admitted : Double.admits (2 ^ level : Nat) = true := by
    simp only [Double.admits, Bool.or_eq_true, decide_eq_true_eq]
    omega
  rw [sampleOfNumber, if_pos admitted, roundInt_eq]
  · rfl
  · exact Nat.pow_dvd_pow 2 (by omega)

theorem zero_mul_stride : Float32.ofNat 0 * Float32.ofNat (2 ^ level) = Float32.ofNat 0 := by
  revert level
  decide +kernel

theorem origin_add_offset {origin : Int} {voxel : Nat} (near : origin.natAbs ≤ 2 ^ 24)
    (short : voxel * 2 ^ level ≤ 2 ^ 24)
    (inside : (origin + (voxel * 2 ^ level : Nat)).natAbs ≤ 2 ^ 24) :
    Float32.ofInt origin + Float32.ofNat voxel * Float32.ofNat (2 ^ level) =
      Float32.ofInt (origin + (voxel * 2 ^ level : Nat)) := by
  have offset : Float32.ofNat voxel * Float32.ofNat (2 ^ level) =
      ofInteger (voxel * 2 ^ level : Nat) := by
    by_cases first : voxel = 0
    · rw [first, zero_mul_stride moderate, Nat.zero_mul]
      exact ofNat_eq (by decide)
    · have stride : 2 ^ level ≤ 2 ^ 24 :=
        (Nat.le_mul_of_pos_left _ (Nat.pos_of_ne_zero first)).trans short
      have count : voxel ≤ 2 ^ 24 := (Nat.le_mul_of_pos_right _ (Nat.two_pow_pos level)).trans short
      rw [ofNat_eq count, ofNat_eq stride, ofInteger_mul count stride short]
  rw [offset, ofInt_eq near, ofInt_eq inside]
  exact ofInteger_add near short inside

end FieldGraph.Single
