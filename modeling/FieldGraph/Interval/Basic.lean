import FieldGraph.Arithmetic

/-! # Intervals

A closed interval of numbers whose ends may be infinite. `Interval.between` swaps reversed ends and
widens an undefined end to the whole line, so no interval has an undefined end.
-/

namespace FieldGraph

open Arithmetic

structure Interval (R : Type) where
  lower : R
  upper : R
  deriving Repr

namespace Interval

variable {R : Type} [Arithmetic R]

def whole : Interval R := ⟨-infinity, infinity⟩

def between (a b : R) : Interval R :=
  if isNaN a || isNaN b then whole
  else if lt b a then ⟨b, a⟩
  else ⟨a, b⟩

def single (x : R) : Interval R := between x x

def hull (first : R) (others : List R) : Interval R :=
  if (first :: others).any isNaN then whole
  else between (others.foldl least first) (others.foldl greatest first)

/-- The least interval holding all of the given numbers, if there are any. -/
def ofList? : List R → Option (Interval R)
  | [] => none
  | first :: others => some (hull first others)

/-- Whether the interval is known to hold exactly one finite number. -/
def isSingle (i : Interval R) : Bool := eq i.lower i.upper && isFinite i.lower

def isBounded (i : Interval R) : Bool := isFinite i.lower && isFinite i.upper

def contains (i : Interval R) (x : R) : Bool := le i.lower x && le x i.upper

def width (i : Interval R) : R := i.upper - i.lower

def union (i j : Interval R) : Interval R :=
  between (least i.lower j.lower) (greatest i.upper j.upper)

def same (i j : Interval R) : Bool := eq i.lower j.lower && eq i.upper j.upper

def add (i j : Interval R) : Interval R := between (i.lower + j.lower) (i.upper + j.upper)

def sub (i j : Interval R) : Interval R := between (i.lower - j.upper) (i.upper - j.lower)

def shift (i : Interval R) (x : R) : Interval R := between (i.lower + x) (i.upper + x)

def shiftDown (i : Interval R) (x : R) : Interval R := between (i.lower - x) (i.upper - x)

def subFrom (x : R) (i : Interval R) : Interval R := between (x - i.upper) (x - i.lower)

def neg (i : Interval R) : Interval R := between (-i.upper) (-i.lower)

/-- The product of two ends; zero times anything is zero, also times infinity. -/
def cornerProduct (a b : R) : R := if eq a zero || eq b zero then zero else a * b

def mul (i j : Interval R) : Interval R :=
  hull (cornerProduct i.lower j.lower)
    [cornerProduct i.lower j.upper, cornerProduct i.upper j.lower,
      cornerProduct i.upper j.upper]

def scale (i : Interval R) (x : R) : Interval R := i.mul (single x)

/-- Quotients of members, where a quotient by zero is zero. -/
def div (i j : Interval R) : Interval R :=
  if lt zero j.lower || lt j.upper zero then
    i.mul (hull (one / j.lower) [one / j.upper])
  else if eq j.lower zero && eq j.upper zero then single zero
  else whole

instance : Add (Interval R) := ⟨add⟩
instance : Sub (Interval R) := ⟨sub⟩
instance : Neg (Interval R) := ⟨neg⟩
instance : Mul (Interval R) := ⟨mul⟩
instance : Div (Interval R) := ⟨div⟩

end Interval

end FieldGraph
