import FieldGraph.Text.Letter

/-! # Numerals

Three nested classes of characters with a numeric value. Decimal digits come in runs of ten. Digits
add single digits outside decimal notation, numerals add fractions, Roman numerals and the like.
-/

namespace FieldGraph.Text

/-- The zeros of the decimal digit runs beyond the ASCII range. -/
def wideZeros : List Nat :=
  [
    0x660, 0x6F0, 0x7C0, 0x966, 0x9E6, 0xA66, 0xAE6, 0xB66, 0xBE6, 0xC66, 0xCE6, 0xD66, 0xDE6,
    0xE50, 0xED0, 0xF20, 0x1040, 0x1090, 0x17E0, 0x1810, 0x1946, 0x19D0, 0x1A80, 0x1A90, 0x1B50,
    0x1BB0, 0x1C40, 0x1C50, 0xA620, 0xA8D0, 0xA900, 0xA9D0, 0xA9F0, 0xAA50, 0xABF0, 0xFF10,
    0x104A0, 0x10D30, 0x11066, 0x110F0, 0x11136, 0x111D0, 0x112F0, 0x11450, 0x114D0, 0x11650,
    0x116C0, 0x11730, 0x118E0, 0x11950, 0x11C50, 0x11D50, 0x11DA0, 0x16A60, 0x16AC0, 0x16B50,
    0x1D7CE, 0x1D7D8, 0x1D7E2, 0x1D7EC, 0x1D7F6, 0x1E140, 0x1E2F0, 0x1E950, 0x1FBF0
  ]

/-- Digits beyond the ASCII range that do not stand in decimal notation. -/
def detachedDigits : Ranges :=
  .ofText 0x80 "50cfb4783j1640b1685bdggk982jljlj89bkjbb630jbjbj58029e1052j489j57509l"

/-- Characters with a numeric value that are neither digits nor letters. -/
def otherNumerals : Ranges :=
  .ofText 0x80 (
    "60d2357g376g120d133h217hrj433k1086l881d255k2390.51cf735ljljl79kjb640bjbjb1385b777bzjod343e13" ++
    "8k30ibp32k39p29734k320g22737.45m57rc341.27.36e29bib134f1154izh39j75fwg160ccqc46.68f52c30d75f" ++
    "104iyi41h330g361w158k42e112h143l379u1349c430j871t851v1067.111.18156h798x25673u108z5454j929.5" ++
    "9bdbe76.45bp973c")

def decimalValue? (c : Char) : Option Nat :=
  if c.isDigit then some (c.toNat - '0'.toNat)
  else if beyondAscii c then
    (wideZeros.find? fun start => start ≤ c.toNat && c.toNat < start + 10).map fun start =>
      c.toNat - start
  else none

def isDigit (c : Char) : Bool :=
  if beyondAscii c then (decimalValue? c).isSome || detachedDigits.holds c.toNat else c.isDigit

/-- Whether a character is a letter or has a numeric value. -/
def isAlphanumeric (c : Char) : Bool :=
  isLetter c || isDigit c || if beyondAscii c then otherNumerals.holds c.toNat else false

theorem isAlphanumeric_of_isLetter {c : Char} (letter : isLetter c = true) :
    isAlphanumeric c = true := by
  simp [isAlphanumeric, letter]

end FieldGraph.Text
