import FieldGraph.Interval.Elementary
import FieldGraph.Number

/-! # Intervals and exact numbers

Operations of an interval with numbers that may be integers, which compare exactly with the ends.
-/

namespace FieldGraph.Interval

open Arithmetic

variable {R : Type} [Arithmetic R]

def containsNumber (i : Interval R) (x : Number R) : Bool :=
  Number.le (.real i.lower) x && Number.le x (.real i.upper)

/-- On real numbers this is membership. -/
theorem containsNumber_real (i : Interval R) (x : R) :
    i.containsNumber (.real x) = i.contains x := rfl

def smoothstepEndBetween (edge0 edge1 : Number R) (x : R) : Except Fault R :=
  if edge0.eq edge1 then .ok (if Number.lt (.real x) edge0 then zero else one)
  else do
    let above := x - (← edge0.operand)
    return ramp (← Number.div (.real above) (← edge1.sub edge0))

def smoothstepBetween (edge0 edge1 : Number R) (i : Interval R) : Except Fault (Interval R) := do
  return hull (← smoothstepEndBetween edge0 edge1 i.lower)
    [← smoothstepEndBetween edge0 edge1 i.upper]

/-- A smoothness; an integer that is not positive counts as zero. -/
def smoothness : Number R → Except Fault R
  | .real k => .ok k
  | .integer n => if n ≤ 0 then .ok zero else (Number.integer n).operand

def isEven (x : R) : Bool :=
  match toInt? x with
  | some n => n % 2 == 0
  | none => false

/-- Powers of members to a real number, which is treated as an integer is. -/
def powReal (i : Interval R) (exponent : R) : Interval R :=
  if eq exponent zero then single one
  else
    let magnitude := Arithmetic.abs exponent
    let base := if isEven magnitude then i.abs else i
    let powers := between (powEnd base.lower magnitude) (powEnd base.upper magnitude)
    if lt exponent zero then single one / powers else powers

def powNumber? (i : Interval R) : Number R → Option (Interval R)
  | .integer n => i.powInt? n
  | .real exponent => some (i.powReal exponent)

/-- The power of one number to another. A base too large for the type has an unbounded power. -/
def powNumbers? (base exponent : Number R) : Option R :=
  match base.toReal?, exponent with
  | some x, .integer n => powIntEnd? x n
  | some x, .real e => some (powEnd x e)
  | none, _ =>
    if base.isPositive then some infinity
    else
      match exponent with
      | .integer n => (ofInt? n : Option R).map fun _ => powBeyond n
      | .real e => some (if isEven e then infinity else -infinity)

end FieldGraph.Interval
