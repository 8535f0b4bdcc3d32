import FieldGraph.Decimal.Layout
import FieldGraph.Proofs.Decimal.Shortest

/-! # Decimal texts tell doubles apart

The text of a double, read as a number, is a number of its rounding neighbourhood. As
neighbourhoods do not meet, doubles with the same text are equal, zeros with different
signs included.
-/

namespace FieldGraph.Decimal

open List

variable {mark c : Char} {r : ℚ} {x y : Float}

/-! ## Reading a text -/

/-- The integer that a sign and digits write. -/
def readExponent : List Char → Int
  | [] => 0
  | sign :: digits =>
    if sign = '-' then -Nat.ofDigitChars 10 digits 0 else Nat.ofDigitChars 10 digits 0

/-- The number that a text without a sign writes. -/
def reading (text : List Char) : ℚ :=
  let mantissa := text.takeWhile (· != 'e')
  let fraction := (mantissa.dropWhile (· != '.')).drop 1
  Nat.ofDigitChars 10 (mantissa.takeWhile (· != '.') ++ fraction) 0 *
    10 ^ (readExponent ((text.dropWhile (· != 'e')).drop 1) - fraction.length)

/-- A text of digits. -/
def Digital (text : List Char) : Prop := ∀ c ∈ text, c.isDigit = true

theorem Digital.append {first second : List Char} (left : Digital first) (right : Digital second) :
    Digital (first ++ second) := by
  intro c mem
  rcases mem_append.mp mem with here | there
  · exact left c here
  · exact right c there

section

variable {text : List Char}

theorem Digital.sublist {part : List Char} (digital : Digital text)
    (sublist : part.Sublist text) : Digital part :=
  fun c mem => digital c (sublist.subset mem)

theorem digital_replicate (count : Nat) : Digital (List.replicate count '0') := by
  intro c mem
  rw [eq_of_mem_replicate mem]
  decide

theorem Digital.ne (digital : Digital text) (other : mark.isDigit = false) :
    ∀ c ∈ text, (c != mark) = true := by
  intro c mem
  rw [bne_iff_ne]
  rintro rfl
  rw [digital c mem] at other
  cases other

/-- A text writes a number: digits, followed by a point with more digits, an exponent or
both. -/
inductive Writes : List Char → ℚ → Prop where
  | intro {whole fraction point exponent : List Char} (left : Digital whole)
      (right : Digital fraction) (pointed : point = '.' :: fraction ∨ point = [] ∧ fraction = [])
      (raised : exponent = [] ∨ ∃ sign digits, exponent = 'e' :: sign :: digits ∧
        (sign = '+' ∨ sign = '-') ∧ Digital digits)
      (marked : point ++ exponent ≠ []) :
      Writes (whole ++ (point ++ exponent)) (Nat.ofDigitChars 10 (whole ++ fraction) 0 *
        10 ^ (readExponent (exponent.drop 1) - fraction.length))

theorem Writes.point {whole fraction : List Char} (left : Digital whole)
    (right : Digital fraction) : Writes (whole ++ '.' :: fraction)
      (Nat.ofDigitChars 10 (whole ++ fraction) 0 * 10 ^ (-(fraction.length : ℤ))) := by
  simpa [readExponent] using Writes.intro left right (.inl rfl) (.inl rfl) (by simp)

theorem Writes.reading_eq (writes : Writes text r) : reading text = r := by
  obtain @⟨whole, fraction, point, exponent, left, right, pointed, raised, -⟩ := writes
  have ahead (c : Char) (mem : c ∈ whole ++ point) : (c != 'e') = true := by
    rcases mem_append.mp mem with here | there
    · exact left.ne (by decide) c here
    · rcases pointed with rfl | ⟨rfl, -⟩
      · rcases mem_cons.mp there with rfl | later
        · decide
        · exact right.ne (by decide) c later
      · cases there
  have behind : exponent.takeWhile (· != 'e') = [] ∧
      exponent.dropWhile (· != 'e') = exponent := by
    rcases raised with rfl | ⟨sign, digits, rfl, -⟩ <;> simp
  have parts : point.takeWhile (· != '.') = [] ∧
      (point.dropWhile (· != '.')).drop 1 = fraction := by
    rcases pointed with rfl | ⟨rfl, rfl⟩ <;> simp
  have digits : ∀ c ∈ whole, (c != '.') = true := left.ne (by decide)
  unfold reading
  dsimp only
  rw [← append_assoc, takeWhile_append_of_pos ahead, dropWhile_append_of_pos ahead, behind.1,
    behind.2, append_nil, takeWhile_append_of_pos digits, dropWhile_append_of_pos digits, parts.1,
    parts.2, append_nil]

/-- The characters of a number without a sign. -/
def isNumeral (c : Char) : Bool := c.isDigit || c == '.' || c == 'e' || c == '+' || c == '-'

theorem Digital.isNumeral (digital : Digital text) : ∀ c ∈ text, isNumeral c = true := by
  intro c mem
  simp [Decimal.isNumeral, digital c mem]

theorem Writes.isNumeral (writes : Writes text r) : ∀ c ∈ text, Decimal.isNumeral c = true := by
  obtain ⟨left, right, pointed, raised, -⟩ := writes
  intro c mem
  simp only [mem_append] at mem
  rcases mem with here | here | here
  · exact left.isNumeral c here
  · rcases pointed with rfl | ⟨rfl, -⟩
    · rcases mem_cons.mp here with rfl | later
      · decide
      · exact right.isNumeral c later
    · cases here
  · rcases raised with rfl | ⟨sign, digits, rfl, signed, places⟩
    · cases here
    · simp only [mem_cons] at here
      rcases here with rfl | rfl | later
      · decide
      · rcases signed with rfl | rfl <;> decide
      · exact places.isNumeral c later

theorem Writes.ne_nil (writes : Writes text r) : text ≠ [] := by
  obtain ⟨-, -, -, -, marked⟩ := writes
  exact append_ne_nil_of_right_ne_nil _ marked

theorem Writes.head?_ne (writes : Writes text r) : text.head? ≠ some '-' := by
  obtain @⟨whole, fraction, point, exponent, left, -, pointed, raised, -⟩ := writes
  cases whole with
  | nil =>
    rcases pointed with rfl | ⟨rfl, -⟩
    · simp
    · rcases raised with rfl | ⟨sign, digits, rfl, -⟩ <;> simp
  | cons first others =>
    have digit := left first mem_cons_self
    intro same
    rw [cons_append, head?_cons, Option.some.injEq] at same
    rw [same] at digit
    revert digit
    decide

end

/-! ## Digits -/

/-- The written digits of a digit list. -/
def chars (digits : List Nat) : List Char := digits.map fun d => Char.ofNat ('0'.toNat + d)

theorem toList_digitText (digits : List Nat) : (digitText digits).toList = chars digits := by
  rw [digitText, String.toList_ofList, chars]

theorem digital_chars {digits : List Nat} (bounded : ∀ d ∈ digits, d < 10) :
    Digital (chars digits) := by
  intro c mem
  obtain ⟨d, listed, rfl⟩ := mem_map.mp mem
  have below := bounded d listed
  interval_cases d <;> decide

theorem chars_digitsOf (n : Nat) : chars (digitsOf n) = Nat.toDigits 10 n := by
  rw [chars, digitsOf, map_map]
  conv_rhs => rw [← map_id (Nat.toDigits 10 n)]
  refine map_congr_left fun c mem => ?_
  have digit := Nat.isDigit_of_mem_toDigits (by decide) (by decide) mem
  rw [Char.isDigit, Bool.and_eq_true, decide_eq_true_eq] at digit
  have least : '0'.toNat ≤ c.toNat := digit.1
  rw [Function.comp_apply, Nat.add_sub_cancel' least, Char.ofNat_toNat, id]

theorem digitsOf_lt {n d : Nat} (mem : d ∈ digitsOf n) : d < 10 := by
  obtain ⟨c, listed, rfl⟩ := mem_map.mp mem
  have digit := Nat.isDigit_of_mem_toDigits (by decide) (by decide) listed
  rw [Char.isDigit, Bool.and_eq_true, decide_eq_true_eq, decide_eq_true_eq] at digit
  have greatest : c.toNat ≤ '9'.toNat := digit.2
  have nine : '9'.toNat = 57 := by decide
  have zero : '0'.toNat = 48 := by decide
  omega

theorem dropTrailingZeros_append (digits : List Nat) :
    ∃ count, digits = dropTrailingZeros digits ++ List.replicate count 0 := by
  refine ⟨(digits.reverse.takeWhile (· == 0)).length, ?_⟩
  have zeros : digits.reverse.takeWhile (· == 0) =
      List.replicate (digits.reverse.takeWhile (· == 0)).length 0 := by
    rw [eq_replicate_iff]
    refine ⟨rfl, fun d mem => ?_⟩
    have zero := mem_takeWhile_imp mem
    exact eq_of_beq zero
  have parts := congrArg List.reverse
    (takeWhile_append_dropWhile (p := (· == 0)) (l := digits.reverse))
  rw [reverse_append, reverse_reverse] at parts
  rw [← reverse_replicate, ← zeros, dropTrailingZeros, parts]

namespace Digits

/-- The number that digits stand for. -/
def value (d : Digits) : ℚ :=
  Nat.ofDigitChars 10 (chars d.digits) 0 * 10 ^ (d.point - d.digits.length)

theorem value_ofUnits (n : Nat) (exponent : Int) :
    (ofUnits n exponent).value = n * 10 ^ exponent := by
  obtain ⟨count, split⟩ := dropTrailingZeros_append (digitsOf n)
  have digits : n =
      Nat.ofDigitChars 10 (chars (dropTrailingZeros (digitsOf n))) 0 * 10 ^ count := by
    have written : chars (digitsOf n) =
        chars (dropTrailingZeros (digitsOf n)) ++ List.replicate count '0' := by
      conv_lhs => rw [split]
      simp [chars]
    have whole := @Nat.ofDigitChars_ten_toDigits n
    rw [← chars_digitsOf, written, Nat.ofDigitChars_append, Nat.ofDigitChars_replicate_zero,
      Nat.mul_comm] at whole
    exact whole.symm
  have length : (digitsOf n).length = (dropTrailingZeros (digitsOf n)).length + count := by
    conv_lhs => rw [split]
    simp
  rw [value, ofUnits]
  rw [length]
  conv_rhs => rw [digits]
  push_cast
  rw [mul_assoc, ← zpow_natCast, ← zpow_add₀ (by norm_num), Int.ofNat_eq_natCast]
  push_cast
  ring_nf

theorem ofUnits_lt {n d : Nat} {exponent : Int} (mem : d ∈ (ofUnits n exponent).digits) :
    d < 10 := by
  obtain ⟨count, split⟩ := dropTrailingZeros_append (digitsOf n)
  apply digitsOf_lt (n := n)
  rw [split]
  exact mem_append_left _ mem

end Digits

/-! ## Written forms -/

theorem toList_zeros (count : Nat) : (zeros count).toList = List.replicate count '0' := by
  rw [zeros, String.toList_ofList]

theorem length_chars (digits : List Nat) : (chars digits).length = digits.length := length_map _

theorem exponentText_shape (exponent : Int) : ∃ sign digits, (sign = '+' ∨ sign = '-') ∧
    Digital digits ∧ (exponentText exponent).toList = sign :: digits ∧
      readExponent (sign :: digits) = exponent := by
  have digits : ∃ digits, Digital digits ∧ Nat.ofDigitChars 10 digits 0 = exponent.natAbs ∧
      (if (toString exponent.natAbs).length < 2 then "0" ++ toString exponent.natAbs
        else toString exponent.natAbs).toList = digits := by
    have digital : Digital (Nat.toDigits 10 exponent.natAbs) := fun c mem =>
      Nat.isDigit_of_mem_toDigits (by decide) (by decide) mem
    split
    · refine ⟨['0'] ++ Nat.toDigits 10 exponent.natAbs, ?_, ?_, ?_⟩
      · exact Digital.append (digital_replicate 1) digital
      · exact Nat.ofDigitChars_ten_toDigits
      · simp
    · exact ⟨_, digital, Nat.ofDigitChars_ten_toDigits, String.toList_ofList⟩
  obtain ⟨digits, digital, number, written⟩ := digits
  unfold exponentText
  rw [String.toList_append, written]
  split
  · refine ⟨'-', digits, .inr rfl, digital, rfl, ?_⟩
    rw [readExponent, if_pos rfl]
    omega
  · refine ⟨'+', digits, .inl rfl, digital, rfl, ?_⟩
    rw [readExponent, if_neg (by decide)]
    omega

section Written

variable {d : Digits} (bounded : ∀ n ∈ d.digits, n < 10)

include bounded

theorem writes_positional : Writes (positional true d).toList d.value := by
  have digital := digital_chars bounded
  unfold positional
  dsimp only
  split
  · have shape : ("0." ++ zeros (-d.point).toNat ++ digitText d.digits).toList =
        List.replicate 1 '0' ++ '.' :: (List.replicate (-d.point).toNat '0' ++ chars d.digits) := by
      simp [toList_zeros, toList_digitText]
    have value : d.value = Nat.ofDigitChars 10 (List.replicate 1 '0' ++
        (List.replicate (-d.point).toNat '0' ++ chars d.digits)) 0 *
          10 ^ (-((List.replicate (-d.point).toNat '0' ++ chars d.digits).length : ℤ)) := by
      rw [Digits.value, Nat.ofDigitChars_append, Nat.ofDigitChars_append,
        Nat.ofDigitChars_replicate_zero, length_append,
        length_replicate, length_chars]
      congr 2
      omega
    rw [shape, value]
    exact .point (digital_replicate 1) ((digital_replicate _).append digital)
  split
  · rename_i large few
    have shape : (digitText d.digits ++ zeros (d.point - Int.ofNat d.digits.length).toNat ++
        (if true = true then ".0" else "")).toList = (chars d.digits ++
          List.replicate (d.point - Int.ofNat d.digits.length).toNat '0') ++
            '.' :: List.replicate 1 '0' := by
      simp [toList_zeros, toList_digitText]
    have value : d.value = Nat.ofDigitChars 10 ((chars d.digits ++
        List.replicate (d.point - Int.ofNat d.digits.length).toNat '0') ++
          List.replicate 1 '0') 0 * 10 ^ (-((List.replicate 1 '0').length : ℤ)) := by
      obtain ⟨extra, places⟩ : ∃ extra : ℕ, d.point = d.digits.length + extra :=
        ⟨(d.point - d.digits.length).toNat, by simp at few; omega⟩
      rw [Digits.value, Nat.ofDigitChars_append, Nat.ofDigitChars_append,
        Nat.ofDigitChars_replicate_zero, places]
      simp
      ring
    rw [shape, value]
    exact .point (digital.append (digital_replicate _)) (digital_replicate 1)
  · rename_i large many
    have shape : (digitText (d.digits.take d.point.toNat) ++ "." ++
        digitText (d.digits.drop d.point.toNat)).toList =
          (chars d.digits).take d.point.toNat ++ '.' :: (chars d.digits).drop d.point.toNat := by
      simp [toList_digitText, chars]
    have value : d.value = Nat.ofDigitChars 10 ((chars d.digits).take d.point.toNat ++
        (chars d.digits).drop d.point.toNat) 0 *
          10 ^ (-(((chars d.digits).drop d.point.toNat).length : ℤ)) := by
      rw [Digits.value, take_append_drop, length_drop, length_chars]
      congr 2
      rw [Int.ofNat_eq_natCast] at many
      omega
    rw [shape, value]
    exact .point (digital.sublist (take_sublist _ _)) (digital.sublist (drop_sublist _ _))

theorem writes_scientific : Writes (scientific d).toList d.value := by
  have digital := digital_chars bounded
  obtain ⟨sign, digits, signed, places, written, exponent⟩ := exponentText_shape (d.point - 1)
  have value : d.value = Nat.ofDigitChars 10 ((chars d.digits).take 1 ++
      (chars d.digits).drop 1) 0 *
        10 ^ (readExponent (sign :: digits) - ((chars d.digits).drop 1).length) := by
    rw [Digits.value, exponent, take_append_drop, length_drop, length_chars]
    rcases Nat.eq_zero_or_pos d.digits.length with none | some
    · simp [chars, length_eq_zero_iff.mp none]
    · congr 2
      omega
  rw [value, scientific]
  simp only [String.toList_append, toList_digitText, written, append_assoc]
  have start : chars (d.digits.take 1) = (chars d.digits).take 1 := by simp [chars]
  rw [start]
  refine .intro (digital.sublist (take_sublist _ _)) (digital.sublist (drop_sublist _ _)) ?_
    (.inr ⟨sign, digits, rfl, signed, places⟩) (by simp)
  split
  · rename_i alone
    have none := congrArg String.toList (String.isEmpty_iff.mp alone)
    rw [toList_digitText] at none
    exact .inr ⟨rfl, by simpa [chars] using none⟩
  · exact .inl (by simp [toList_digitText, chars])

end Written

/-! ## Doubles -/

theorem eq_of_significand_eq (signs : isNegative x = isNegative y)
    (parts : significand x = significand y) : x = y := by
  apply Float.toBits_inj.mp
  apply UInt64.toNat_inj.mp
  have first := x.toBits.toNat_lt
  have second := y.toBits.toNat_lt
  unfold isNegative at signs
  unfold significand at parts
  simp only [Nat.pow_eq, Int.ofNat_eq_natCast] at signs parts
  rw [Bool.eq_iff_iff, beq_iff_eq, beq_iff_eq] at signs
  split at parts <;> split at parts <;> rw [Prod.mk.injEq] at parts <;> omega

theorem significand_pos (nonzero : (x == 0) = false) : 0 < (significand x).1 := by
  by_contra none
  have empty : significand x = (0, -1074) := by
    unfold significand at none ⊢
    simp only at none ⊢
    split at none <;> simp_all
  cases sign : isNegative x with
  | false =>
    rw [@eq_of_significand_eq x 0 sign empty] at nonzero
    revert nonzero
    decide
  | true =>
    rw [@eq_of_significand_eq x (-0) (sign.trans (by decide)) (empty.trans (by decide))] at nonzero
    revert nonzero
    decide

theorem significand_of_zero (zero : (x == 0) = true) : significand x = (0, -1074) := by
  obtain ⟨-, -, rfl | ⟨rfl, -⟩ | ⟨rfl, -⟩⟩ := Float.beq_iff_ne_nan_and_eq.mp zero
  · decide
  · decide
  · decide

open Float.Model in
theorem significand_of_isInf (infinite : x.isInf = true) : significand x = (2 ^ 52, 972) := by
  have exponent := toNat_unpackExponent_double x.toBits.toBitVec
  have mantissa : (@UnpackedFloat.unpackMantissa Format.binary64 x.toBits.toBitVec).toNat =
      x.toBits.toNat % Nat.pow 2 52 := by
    simp [UnpackedFloat.unpackMantissa, BitVec.extractLsb, BitVec.extractLsb']
  change (UnpackedFloat.unpack Format.binary64 x.toBits.toBitVec).isInf = true at infinite
  unfold UnpackedFloat.unpack at infinite
  dsimp only at infinite
  split at infinite
  · rename_i full
    split at infinite
    · rename_i empty
      rw [full, UInt64.toNat_toBitVec] at exponent
      rw [empty] at mantissa
      unfold significand
      dsimp only
      rw [← exponent, ← mantissa]
      rfl
    · cases infinite
  · split at infinite
    · split at infinite <;> cases infinite
    · cases infinite

open Float.Model in
theorem isFinite_of_not (number : x.isNaN = false) (bounded : x.isInf = false) :
    x.isFinite = true := by
  change (UnpackedFloat.unpack Format.binary64 x.toBits.toBitVec).isNaN = false at number
  change (UnpackedFloat.unpack Format.binary64 x.toBits.toBitVec).isInf = false at bounded
  change (UnpackedFloat.unpack Format.binary64 x.toBits.toBitVec).isFinite = true
  cases form : UnpackedFloat.unpack Format.binary64 x.toBits.toBitVec with
  | infinity _ => rw [form] at bounded; cases bounded
  | notANumber => rw [form] at number; cases number
  | zero _ => rfl
  | finite _ _ _ _ => rfl

/-! ## Texts -/

/-- The text of a double without its sign. -/
def magnitudeText (x : Float) : String :=
  if x.isInf then "inf"
  else if x == 0 then "0.0"
  else if -4 ≤ (shortest x).point - 1 ∧ (shortest x).point - 1 < 16 then
    positional true (shortest x)
  else scientific (shortest x)

theorem text_of_isNaN (undefined : x.isNaN = true) : text x = "nan" := by
  rw [text, Layout.write, if_pos undefined]

theorem text_eq (number : x.isNaN = false) :
    text x = (if isNegative x then "-" else "") ++ magnitudeText x := by
  rw [text, Layout.write, if_neg (by rw [number]; decide)]
  rfl

theorem writes_magnitudeText (finite : x.isFinite = true) (bounded : x.isInf = false)
    (nonzero : (x == 0) = false) :
    ∃ r, Writes (magnitudeText x).toList r ∧ (Scaled.ofFloat x).Covers r ∧ 0 < r := by
  have pos := significand_pos nonzero
  obtain ⟨n, place, digits, covers⟩ := exists_covers_shortest rfl finite pos
  have small (d : Nat) (mem : d ∈ (shortest x).digits) : d < 10 := by
    rw [digits] at mem
    exact Digits.ofUnits_lt mem
  rw [← Digits.value_ofUnits, ← digits] at covers
  refine ⟨(shortest x).value, ?_, covers, pos_of_covers rfl pos covers⟩
  rw [magnitudeText, if_neg (by rw [bounded]; decide), if_neg (by rw [nonzero]; decide)]
  split
  · exact writes_positional small
  · exact writes_scientific small

theorem writes_magnitudeText_zero (bounded : x.isInf = false) (zero : (x == 0) = true) :
    Writes (magnitudeText x).toList 0 := by
  have writes := Writes.point (digital_replicate 1) (digital_replicate 1)
  rw [Nat.ofDigitChars_append, Nat.ofDigitChars_replicate_zero, Nat.ofDigitChars_replicate_zero,
    Nat.cast_zero, zero_mul] at writes
  rw [magnitudeText, if_neg (by rw [bounded]; decide), if_pos zero]
  exact writes

section

variable (number : x.isNaN = false)

include number

theorem exists_writes (bounded : x.isInf = false) : ∃ r, Writes (magnitudeText x).toList r := by
  cases zero : x == 0 with
  | true => exact ⟨0, writes_magnitudeText_zero bounded zero⟩
  | false =>
    obtain ⟨r, writes, -⟩ := writes_magnitudeText (isFinite_of_not number bounded) bounded zero
    exact ⟨r, writes⟩

theorem isInf_iff_mem : x.isInf = true ↔ 'f' ∈ (magnitudeText x).toList := by
  cases bounded : x.isInf with
  | true =>
    rw [magnitudeText, if_pos bounded]
    decide
  | false =>
    obtain ⟨r, writes⟩ := exists_writes number bounded
    refine ⟨nofun, fun mem => ?_⟩
    have numeral := writes.isNumeral 'f' mem
    revert numeral
    decide

theorem significand_eq_of_magnitudeText (number' : y.isNaN = false)
    (same : magnitudeText x = magnitudeText y) : significand x = significand y := by
  have infinite : x.isInf = y.isInf := by
    rw [Bool.eq_iff_iff, isInf_iff_mem number, isInf_iff_mem number', same]
  cases bounded : x.isInf with
  | true => rw [significand_of_isInf bounded, significand_of_isInf (infinite ▸ bounded)]
  | false =>
    have bounded' : y.isInf = false := infinite ▸ bounded
    have finite := isFinite_of_not number bounded
    have finite' := isFinite_of_not number' bounded'
    cases zero : x == 0 <;> cases zero' : y == 0
    · obtain ⟨r, writes, covers, -⟩ := writes_magnitudeText finite bounded zero
      obtain ⟨r', writes', covers', -⟩ := writes_magnitudeText finite' bounded' zero'
      have equal : r = r' := by rw [← writes.reading_eq, ← writes'.reading_eq, same]
      exact significand_eq_of_covers (significand_pos zero) (significand_pos zero') covers
        (equal ▸ covers')
    · obtain ⟨r, writes, -, pos⟩ := writes_magnitudeText finite bounded zero
      have none := writes_magnitudeText_zero bounded' zero'
      rw [← writes.reading_eq, same, none.reading_eq] at pos
      exact (lt_irrefl _ pos).elim
    · obtain ⟨r, writes, -, pos⟩ := writes_magnitudeText finite' bounded' zero'
      have none := writes_magnitudeText_zero bounded zero
      rw [← writes.reading_eq, ← same, none.reading_eq] at pos
      exact (lt_irrefl _ pos).elim
    · rw [significand_of_zero zero, significand_of_zero zero']

theorem isNegative_iff_head? : isNegative x = true ↔ (text x).toList.head? = some '-' := by
  have unsigned : (magnitudeText x).toList.head? ≠ some '-' := by
    cases bounded : x.isInf with
    | true =>
      rw [magnitudeText, if_pos bounded]
      decide
    | false =>
      obtain ⟨r, writes⟩ := exists_writes number bounded
      exact writes.head?_ne
  rw [text_eq number]
  cases isNegative x with
  | false => simpa using unsigned
  | true => simp

theorem mem_text_of_number (mem : c ∈ (text x).toList) :
    isNumeral c = true ∨ c ∈ ['i', 'n', 'f'] := by
  rw [text_eq number, String.toList_append, mem_append] at mem
  rcases mem with sign | here
  · cases negative : isNegative x with
    | false => simp [negative] at sign
    | true =>
      simp only [negative] at sign
      rw [mem_singleton.mp sign]
      decide
  · cases bounded : x.isInf with
    | true =>
      rw [magnitudeText, if_pos bounded] at here
      exact .inr here
    | false =>
      obtain ⟨r, writes⟩ := exists_writes number bounded
      exact .inl (writes.isNumeral c here)

end

theorem isNaN_iff_mem (x : Float) : x.isNaN = true ↔ 'a' ∈ (text x).toList := by
  cases number : x.isNaN with
  | true =>
    rw [text_of_isNaN number]
    decide
  | false =>
    refine ⟨nofun, fun mem => ?_⟩
    have letters := mem_text_of_number number mem
    revert letters
    decide

theorem mem_text (mem : c ∈ (text x).toList) : isNumeral c = true ∨ c ∈ ['i', 'n', 'f', 'a'] := by
  cases number : x.isNaN with
  | true =>
    rw [text_of_isNaN number] at mem
    have letters : c = 'n' ∨ c = 'a' ∨ c = 'n' := by simpa using mem
    rcases letters with rfl | rfl | rfl <;> decide
  | false =>
    rcases mem_text_of_number number mem with numeral | letter
    · exact .inl numeral
    · exact .inr (mem_append_left ['a'] letter)

theorem text_ne_nil (x : Float) : (text x).toList ≠ [] := by
  cases number : x.isNaN with
  | true =>
    rw [text_of_isNaN number]
    decide
  | false =>
    rw [text_eq number, String.toList_append]
    apply append_ne_nil_of_right_ne_nil
    cases bounded : x.isInf with
    | true =>
      rw [magnitudeText, if_pos bounded]
      decide
    | false =>
      obtain ⟨r, writes⟩ := exists_writes number bounded
      exact writes.ne_nil

theorem text_injective : Function.Injective text := by
  intro x y same
  have undefined : x.isNaN = y.isNaN := by
    rw [Bool.eq_iff_iff, isNaN_iff_mem, isNaN_iff_mem, same]
  cases number : x.isNaN with
  | true =>
    have number' : y.isNaN = true := undefined ▸ number
    rw [Float.isNaN_eq_decide_eq_nan, decide_eq_true_eq] at number number'
    rw [number, number']
  | false =>
    have number' : y.isNaN = false := undefined ▸ number
    have signs : isNegative x = isNegative y := by
      rw [Bool.eq_iff_iff, isNegative_iff_head? number, isNegative_iff_head? number', same]
    refine eq_of_significand_eq signs (significand_eq_of_magnitudeText number number' ?_)
    rw [text_eq number, text_eq number', signs] at same
    exact String.append_right_inj _ |>.mp same

end FieldGraph.Decimal
