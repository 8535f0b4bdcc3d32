import FieldGraph.Text.Blank

/-! # Reading numbers

Numbers as a person writes them into a form: with white space around them, with single
underscores inside, and for a real number with a fraction and an exponent.
-/

namespace FieldGraph.Decimal

def trimmed (text : List Char) : List Char :=
  ((text.dropWhile Text.isSpace).reverse.dropWhile Text.isSpace).reverse

/-- Whether a text starts with a minus sign, and the text behind its sign. -/
def signed : List Char → Bool × List Char
  | '-' :: rest => (true, rest)
  | '+' :: rest => (false, rest)
  | text => (false, text)

/-- Whether two underscores of a text are neighbours. -/
def hasDoubleUnderscore : List Char → Bool
  | '_' :: '_' :: _ => true
  | _ :: rest => hasDoubleUnderscore rest
  | [] => false

/-- The text without its underscores; none if one stands at an end or beside another. -/
def withoutUnderscores? (text : List Char) : Option (List Char) :=
  if text.head? == some '_' || text.getLast? == some '_' || hasDoubleUnderscore text then none
  else some (text.filter (· != '_'))

def digitsValue (digits : List Char) : Nat :=
  digits.foldl (fun n c => 10 * n + (c.toNat - '0'.toNat)) 0

def natural? (text : List Char) : Option Nat :=
  if !text.isEmpty && text.all Char.isDigit then some (digitsValue text) else none

/-- What remains of a text behind leading zeros. A zero is kept in front of a point and at the end.
-/
def afterZeros (last : Char) : List Char → List Char
  | [] => [last]
  | c :: rest =>
    if c == '0' || c == '_' then afterZeros c rest
    else if c == '.' then last :: c :: rest
    else c :: rest

/-- The text without leading zeros; none unless it starts with a digit. -/
def withoutZeros? : List Char → Option (List Char)
  | '0' :: rest => some (afterZeros '0' rest)
  | c :: rest => if c.isDigit then some (c :: rest) else none
  | [] => none

def withoutFraction (text : List Char) : List Char :=
  let fraction := (text.dropWhile (· != '.')).drop 1
  if !fraction.isEmpty && fraction.all (· == '0') then text.takeWhile (· != '.') else text

/-- The most characters of an integer, its sign included. -/
def longestInteger : Nat := 4300

/-- The integer that a text writes in its plain form: without a plus sign and leading zeros. -/
def plainInteger? (text : List Char) : Option Int :=
  let (negative, digits) := match text with
    | '-' :: rest => (true, rest)
    | _ => (false, text)
  if longestInteger < text.length || (digits.head? == some '0' && digits.length ≠ 1) then none
  else (natural? digits).map fun n => if negative then -Int.ofNat n else Int.ofNat n

/-- The integer that a text writes. Leading zeros behind the sign and a fraction of zeros
do not count. -/
def integer? (text : String) : Option Int := do
  let (negative, unsigned) := signed (trimmed text.toList)
  let digits ← withoutUnderscores? (withoutFraction (← withoutZeros? unsigned))
  plainInteger? (if negative then '-' :: digits else digits)

/-- The exponent that a text writes; a text without one has the exponent zero. -/
def exponent? : List Char → Option Int
  | [] => some 0
  | mark :: rest =>
    if mark == 'e' || mark == 'E' then
      let (negative, digits) := signed rest
      (natural? digits).map fun n => if negative then -Int.ofNat n else Int.ofNat n
    else none

/-- The number with some digits, the last of which counts a power of ten. -/
def scaled (digits : Nat) (exponent : Int) : Float :=
  let places := Int.ofNat (Nat.toDigits 10 digits).length + exponent
  if digits = 0 ∨ places < -400 then 0
  else if 400 < places then 1 / 0
  else Float.ofScientific digits (exponent < 0) exponent.natAbs

def magnitude? (text : List Char) : Option Float :=
  let lower := String.ofList (text.map Char.toLower)
  if lower == "inf" || lower == "infinity" then some (1 / 0)
  else if lower == "nan" then some (0 / 0)
  else
    let whole := text.takeWhile Char.isDigit
    let rest := text.dropWhile Char.isDigit
    let (fraction, rest) := match rest with
      | '.' :: rest => (rest.takeWhile Char.isDigit, rest.dropWhile Char.isDigit)
      | _ => ([], rest)
    if whole.isEmpty && fraction.isEmpty then none
    else (exponent? rest).map fun exponent =>
      scaled (digitsValue (whole ++ fraction)) (exponent - Int.ofNat fraction.length)

def plainReal? (text : List Char) : Option Float :=
  let (negative, rest) := signed text
  (magnitude? rest).map fun x => if negative then -x else x

/-- The real number that a text writes: in its plain form with white space around it, or
with underscores and no white space. -/
def real? (text : String) : Option Float :=
  match plainReal? (trimmed text.toList) with
  | some x => some x
  | none => (withoutUnderscores? text.toList).bind plainReal?

end FieldGraph.Decimal
