import FieldGraph.Decimal.Digits

/-! # Arithmetic

Kernels, range rules and noise are written once over a type with the operations of `Arithmetic`, and
are read at several types: single precision inside buffers, double precision for literals and
interval bounds, and exact numbers in the theory. `Precision` narrows literals to the type of
samples.

Division and powers are total, comparisons with an undefined number fail, and `least`, `greatest`,
`minimum`, `maximum` and `clip` say which operand survives a tie.
-/

namespace FieldGraph

/-- Numbers with the operations used by kernels and range rules. -/
class Arithmetic (R : Type) extends Add R, Sub R, Mul R, Div R, Neg R where
  /-- A natural number, rounded. -/
  ofNat : Nat → R
  /-- An integer, rounded; none if it is too large for the type. -/
  ofInt? : Int → Option R
  /-- The quotient of two integers, rounded once; none if it is too large for the
  type. -/
  ofRatio? : Int → Int → Option R
  lt : R → R → Bool
  le : R → R → Bool
  /-- Equal as numbers; the two zeros are equal. -/
  eq : R → R → Bool
  isNaN : R → Bool
  /-- Whether the number is defined and not infinite. -/
  isFinite : R → Bool
  /-- The number above all others. -/
  infinity : R
  /-- The ratio of a circle's circumference to its diameter, rounded. -/
  pi : R
  floor : R → R
  ceil : R → R
  abs : R → R
  sqrt : R → R
  sin : R → R
  pow : R → R → R
  /-- The integer nearest to zero between the number and zero; none unless finite. -/
  truncate? : R → Option Int
  /-- The nearest integer, a half going to the even one; zero unless finite. -/
  roundEven : R → Int

namespace Arithmetic

variable {R : Type} [Arithmetic R]

def zero : R := ofNat 0

def one : R := ofNat 1

def two : R := ofNat 2

def three : R := ofNat 3

def half : R := one / two

def quarter : R := one / ofNat 4

/-- The smaller number; the first on a tie or when they do not compare. -/
def least (a b : R) : R := if lt b a then b else a

/-- The larger number; the first on a tie or when they do not compare. -/
def greatest (a b : R) : R := if lt a b then b else a

/-- The smaller number; the second on a tie, undefined if either is. -/
def minimum (a b : R) : R := if lt a b || isNaN a then a else b

/-- The larger number; the second on a tie, undefined if either is. -/
def maximum (a b : R) : R := if lt b a || isNaN a then a else b

/-- The number moved into a closed range; kept when it is equal to a bound. -/
def clip (x low high : R) : R :=
  let raised := if lt x low then low else x
  if lt high raised then high else raised

def square (x : R) : R := x * x

def isInfinite (x : R) : Bool := !isFinite x && !isNaN x

/-- The power to an exponent that all samples share. Reciprocal, square root and square are computed
directly. -/
@[inline]
def powShared (base exponent : R) : R :=
  if eq exponent (-one) then one / base
  else if eq exponent zero then one
  else if eq exponent half then sqrt base
  else if eq exponent one then base
  else if eq exponent two then base * base
  else pow base exponent

/-- The value of an integral number. -/
def toInt? (x : R) : Option Int :=
  if isFinite x && eq (floor x) x then truncate? x else none

/-- The number as a 64-bit word in two's complement; the lowest integer for all that is out of
range. -/
def toWord (x : R) : UInt64 :=
  match truncate? x with
  | some n => if -Int.pow 2 63 ≤ n ∧ n < Int.pow 2 63 then UInt64.ofInt n else 0x8000000000000000
  | none => 0x8000000000000000

end Arithmetic

/-- The type `R` of literals beside the type `α` of samples. -/
class Precision (R α : Type) where
  /-- The nearest sample. -/
  narrow : R → α
  /-- The sample as a literal, exactly. -/
  widen : α → R

namespace Double

def truncate? (x : Float) : Option Int :=
  if x.isFinite then
    let (m, q) := Decimal.significand x
    let magnitude := if 0 ≤ q then m * Nat.pow 2 q.toNat else m / Nat.pow 2 (-q).toNat
    some (if Decimal.isNegative x then -Int.ofNat magnitude else Int.ofNat magnitude)
  else none

def roundEven (x : Float) : Int :=
  if x.isFinite then
    let (m, q) := Decimal.significand x
    let magnitude :=
      if 0 ≤ q then m * Nat.pow 2 q.toNat
      else Decimal.roundHalfEven m (Nat.pow 2 (-q).toNat)
    if Decimal.isNegative x then -Int.ofNat magnitude else Int.ofNat magnitude
  else 0

/-- Whether an integer is below halfway between the largest double and the next power of two. -/
def admits (n : Int) : Bool :=
  n.natAbs.log2 < 1023 || n.natAbs >>> 970 < Nat.pow 2 54 - 1

/-- The double nearest to an integer; none if it is too large. -/
def ofInt? (n : Int) : Option Float := if admits n then some (Float.ofInt n) else none

/-- The integer of 53 digits that is nearest to an integer, a half going to the even one. -/
def roundInt (n : Int) : Int :=
  let unit := Nat.pow 2 (n.natAbs.log2 + 1 - 53)
  n.sign * Int.ofNat (Decimal.roundHalfEven n.natAbs unit * unit)

/-- The double nearest to a quotient of natural numbers; none if it is too large. -/
def ofQuotient? (a b : Nat) : Option Float :=
  let guess := Int.ofNat a.log2 - Int.ofNat b.log2
  let reaches := b * Nat.pow 2 guess.toNat ≤ a * Nat.pow 2 (-guess).toNat
  let lead := if reaches then guess else guess - 1
  let unit := if -1022 ≤ lead then lead - 52 else -1074
  let digits := Decimal.roundHalfEven (a * Nat.pow 2 (-unit).toNat) (b * Nat.pow 2 unit.toNat)
  let x := (Float.ofNat digits).scaleB unit
  if x.isFinite then some x else none

/-- The double nearest to a quotient of integers; none if it is too large. A zero has
the sign of the quotient. -/
def ofRatio? (m n : Int) : Option Float :=
  let magnitude := if m = 0 then some 0 else ofQuotient? m.natAbs n.natAbs
  if m < 0 ∧ 0 ≤ n ∨ 0 ≤ m ∧ n < 0 then magnitude.map fun x => -x else magnitude

end Double

namespace Single

/-- The digits of a single as those of the double that is equal to it. -/
def widenBits (bits : Nat) : Nat :=
  let sign := bits / Nat.pow 2 31 * Nat.pow 2 63
  let exponent := bits / Nat.pow 2 23 % Nat.pow 2 8
  let digits := bits % Nat.pow 2 23
  if exponent = 255 then sign + (2047 * Nat.pow 2 52 + digits * Nat.pow 2 29)
  else if 0 < exponent then sign + ((exponent + 896) * Nat.pow 2 52 + digits * Nat.pow 2 29)
  else if 0 < digits then
    sign + ((digits.log2 + 873) * Nat.pow 2 52 + digits * Nat.pow 2 (52 - digits.log2))
  else sign

/-- The digits of a double as those of a single, as far as a single has them. -/
def narrowBits (bits : Nat) : Nat :=
  let sign := bits / Nat.pow 2 63 * Nat.pow 2 31
  let exponent := bits / Nat.pow 2 52 % Nat.pow 2 11
  let digits := bits % Nat.pow 2 52
  if exponent = 2047 then sign + (255 * Nat.pow 2 23 + digits / Nat.pow 2 29)
  else if 896 < exponent then sign + ((exponent - 896) * Nat.pow 2 23 + digits / Nat.pow 2 29)
  else if 873 < exponent then
    sign + (Nat.pow 2 52 + digits) / Nat.pow 2 (52 - (exponent - 874))
  else sign

def toDouble (x : Float32) : Float := .ofBits (.ofNat (widenBits x.toBits.toNat))

/-- The single nearest to a double. If a single is equal to it, the digits tell which. -/
def ofDouble (x : Float) : Float32 :=
  let bits := narrowBits x.toBits.toNat
  if widenBits bits = x.toBits.toNat then .ofBits (.ofNat bits) else x.toFloat32

end Single

instance : Arithmetic Float where
  ofNat := Float.ofNat
  ofInt? := Double.ofInt?
  ofRatio? := Double.ofRatio?
  lt a b := decide (a < b)
  le a b := decide (a ≤ b)
  eq a b := a == b
  isNaN := Float.isNaN
  isFinite := Float.isFinite
  infinity := 1.0 / 0.0
  pi := 3.141592653589793
  floor := Float.floor
  ceil := Float.ceil
  abs := Float.abs
  sqrt := Float.sqrt
  sin := Float.sin
  pow := Float.pow
  truncate? := Double.truncate?
  roundEven := Double.roundEven

instance : Arithmetic Float32 where
  ofNat := Float32.ofNat
  ofInt? n := (Double.ofInt? n).map Float.toFloat32
  ofRatio? m n := (Double.ofRatio? m n).map Float.toFloat32
  lt a b := decide (a < b)
  le a b := decide (a ≤ b)
  eq a b := a == b
  isNaN := Float32.isNaN
  isFinite := Float32.isFinite
  infinity := 1.0 / 0.0
  pi := 3.141592653589793
  floor := Float32.floor
  ceil := Float32.ceil
  abs := Float32.abs
  sqrt := Float32.sqrt
  sin := Float32.sin
  pow := Float32.pow
  truncate? x := Double.truncate? (Single.toDouble x)
  roundEven x := Double.roundEven (Single.toDouble x)

instance : Precision Float Float32 where
  narrow := Single.ofDouble
  widen := Single.toDouble

instance : Precision Float Float where
  narrow := id
  widen := id

end FieldGraph
