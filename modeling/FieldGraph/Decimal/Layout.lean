import FieldGraph.Decimal.Digits

/-! # Decimal text of doubles

A `Layout` says how chosen digits are written: which decimal exponents are written positionally, and
whether an integer keeps its `.0`.
-/

namespace FieldGraph.Decimal

/-- The decisions of a written form of doubles. -/
structure Layout where
  digits : Float → Digits
  /-- The least decimal exponent written positionally. -/
  leastPositional : Int
  /-- The first decimal exponent that is again written with an exponent. -/
  firstScientific : Int
  /-- Whether a positional integer is followed by `.0`. -/
  keepsPoint : Bool

def digitText (digits : List Nat) : String :=
  String.ofList (digits.map fun d => Char.ofNat ('0'.toNat + d))

def zeros (count : Nat) : String := String.ofList (List.replicate count '0')

def positional (keepsPoint : Bool) (d : Digits) : String :=
  let count := Int.ofNat d.digits.length
  if d.point ≤ 0 then
    "0." ++ zeros (-d.point).toNat ++ digitText d.digits
  else if count ≤ d.point then
    digitText d.digits ++ zeros (d.point - count).toNat ++ (if keepsPoint then ".0" else "")
  else
    digitText (d.digits.take d.point.toNat) ++ "." ++ digitText (d.digits.drop d.point.toNat)

/-- An exponent with its sign and at least two digits. -/
def exponentText (exponent : Int) : String :=
  let sign := if exponent < 0 then "-" else "+"
  let digits := toString exponent.natAbs
  sign ++ (if digits.length < 2 then "0" ++ digits else digits)

def scientific (d : Digits) : String :=
  let tail := digitText (d.digits.drop 1)
  digitText (d.digits.take 1) ++ (if tail.isEmpty then "" else "." ++ tail) ++
    "e" ++ exponentText (d.point - 1)

def Layout.write (layout : Layout) (x : Float) : String :=
  if x.isNaN then "nan"
  else
    let sign := if isNegative x then "-" else ""
    let magnitude :=
      if x.isInf then "inf"
      else if x == 0 then (if layout.keepsPoint then "0.0" else "0")
      else
        let d := layout.digits x
        let exponent := d.point - 1
        if layout.leastPositional ≤ exponent ∧ exponent < layout.firstScientific then
          positional layout.keepsPoint d
        else scientific d
    sign ++ magnitude

/-- The fewest digits that read back, positional from `10 ^ -4` to below `10 ^ 16`. -/
def exact : Layout :=
  { digits := shortest, leastPositional := -4, firstScientific := 16, keepsPoint := true }

/-- Six significant digits, positional from `10 ^ -4` to below `10 ^ 6`. -/
def brief : Layout :=
  { digits := significant 6, leastPositional := -4, firstScientific := 6, keepsPoint := false }

def text (x : Float) : String := exact.write x

end FieldGraph.Decimal
