import FieldGraph.Arithmetic

/-! # Integers beside real numbers

A number that comes from outside is known to be an integer, or it is real. Integers have no limit
and compare and combine exactly. An integer is rounded only where it meets a real number in a
computation, and one that is too large for the type has no result there.

On two real numbers every operation is that of the type (`eq_real`, `lt_real`, `le_real`,
`abs_real`, `greatest_real`, `add_real`, `sub_real`, `mul_real`).
-/

namespace FieldGraph

open Arithmetic

/-- Why a number cannot be converted. -/
inductive ConversionError where
  | undefined
  | infinite
  | tooLarge
  deriving DecidableEq, Repr

def ConversionError.message : ConversionError → String
  | .undefined => "cannot convert float NaN to integer"
  | .infinite => "cannot convert float infinity to integer"
  | .tooLarge => "int too large to convert to float"

/-- Why a computation has no result. -/
inductive Fault where
  | integerTooLarge
  | divisionByZero
  | malformed
  deriving DecidableEq, Repr

/-- A number that is known to be an integer, or a real one. -/
inductive Number (R : Type) where
  | integer (n : Int)
  | real (x : R)
  deriving Repr

namespace Number

variable {R : Type} [Arithmetic R]

/-- The number without its fraction; none for infinite and undefined numbers. -/
def truncate? : Number R → Option Int
  | .integer n => some n
  | .real x => Arithmetic.truncate? x

def truncate (number : Number R) : Except ConversionError Int :=
  match number.truncate? with
  | some n => .ok n
  | none =>
    match number with
    | .real x => .error (if isNaN x then .undefined else .infinite)
    | .integer n => .ok n

def toReal? : Number R → Option R
  | .integer n => ofInt? n
  | .real x => some x

def toReal (number : Number R) : Except ConversionError R :=
  match number.toReal? with
  | some x => .ok x
  | none => .error .tooLarge

def operand (number : Number R) : Except Fault R :=
  match number.toReal? with
  | some x => .ok x
  | none => .error .integerTooLarge

def realLt (x : R) (n : Int) : Bool :=
  match Arithmetic.truncate? (floor x) with
  | some m => m < n
  | none => Arithmetic.lt x zero

def realLe (x : R) (n : Int) : Bool :=
  match Arithmetic.truncate? (ceil x) with
  | some m => m ≤ n
  | none => Arithmetic.lt x zero

def intLt (n : Int) (x : R) : Bool :=
  match Arithmetic.truncate? (ceil x) with
  | some m => n < m
  | none => Arithmetic.lt zero x

def intLe (n : Int) (x : R) : Bool :=
  match Arithmetic.truncate? (floor x) with
  | some m => n ≤ m
  | none => Arithmetic.lt zero x

def lt : Number R → Number R → Bool
  | .integer m, .integer n => m < n
  | .integer m, .real y => intLt m y
  | .real x, .integer n => realLt x n
  | .real x, .real y => Arithmetic.lt x y

def le : Number R → Number R → Bool
  | .integer m, .integer n => m ≤ n
  | .integer m, .real y => intLe m y
  | .real x, .integer n => realLe x n
  | .real x, .real y => Arithmetic.le x y

def eq : Number R → Number R → Bool
  | .integer m, .integer n => m == n
  | .integer m, .real y => toInt? y == some m
  | .real x, .integer n => toInt? x == some n
  | .real x, .real y => Arithmetic.eq x y

/-- The larger number; the first on a tie or when they do not compare. -/
def greatest (a b : Number R) : Number R := if lt a b then b else a

def isZero : Number R → Bool
  | .integer n => n == 0
  | .real x => Arithmetic.eq x zero

/-- Whether the number is above zero, or undefined. -/
def isPositive : Number R → Bool
  | .integer n => 0 < n
  | .real x => !Arithmetic.le x zero

def abs : Number R → Number R
  | .integer n => .integer n.natAbs
  | .real x => .real (Arithmetic.abs x)

/-- Combines two numbers: integers exactly, others as real numbers. -/
@[inline]
def combine (exact : Int → Int → Int) (rounded : R → R → R) :
    Number R → Number R → Except Fault (Number R)
  | .integer m, .integer n => .ok (.integer (exact m n))
  | a, b => do return .real (rounded (← a.operand) (← b.operand))

def add : Number R → Number R → Except Fault (Number R) := combine (· + ·) (· + ·)

def sub : Number R → Number R → Except Fault (Number R) := combine (· - ·) (· - ·)

def mul : Number R → Number R → Except Fault (Number R) := combine (· * ·) (· * ·)

/-- The quotient as a real number. That of two integers is rounded once. -/
def div : Number R → Number R → Except Fault R
  | .integer m, .integer n =>
    if n = 0 then .error .divisionByZero
    else
      match ofRatio? m n with
      | some x => .ok x
      | none => .error .integerTooLarge
  | a, b => do
      let x ← a.operand
      let y ← b.operand
      if Arithmetic.eq y zero then throw .divisionByZero
      return x / y

theorem eq_real (x y : R) : eq (.real x) (.real y) = Arithmetic.eq x y := rfl

theorem lt_real (x y : R) : lt (.real x) (.real y) = Arithmetic.lt x y := rfl

theorem le_real (x y : R) : le (.real x) (.real y) = Arithmetic.le x y := rfl

theorem abs_real (x : R) : abs (.real x) = .real (Arithmetic.abs x) := rfl

theorem greatest_real (x y : R) :
    greatest (.real x) (.real y) = .real (Arithmetic.greatest x y) := by
  unfold greatest Arithmetic.greatest
  rw [lt_real]
  split <;> rfl

theorem add_real (x y : R) : add (.real x) (.real y) = .ok (.real (x + y)) := rfl

theorem sub_real (x y : R) : sub (.real x) (.real y) = .ok (.real (x - y)) := rfl

theorem mul_real (x y : R) : mul (.real x) (.real y) = .ok (.real (x * y)) := rfl

end Number

end FieldGraph
