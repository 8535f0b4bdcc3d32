import FieldGraph.Number

/-! # Approximate equality

Two numbers are approximately equal when they differ by at most a tolerance
relative to the larger magnitude, or absolute below magnitude one.
-/

namespace FieldGraph.Tolerance

open Arithmetic

variable {R : Type} [Arithmetic R]

/-- Whether two numbers are approximately equal. Undefined numbers are so only to
each other. -/
def holds (tolerance a b : R) : Bool :=
  if eq a b then true
  else if isNaN a || isNaN b then isNaN a && isNaN b
  else le (Arithmetic.abs (a - b))
    (tolerance * greatest (greatest one (Arithmetic.abs a)) (Arithmetic.abs b))

/-- Whether two numbers that may be integers are approximately equal. Unequal integers have to be
small enough to be real numbers. -/
def holdsBetween (tolerance a b : Number R) : Except Fault Bool :=
  if a.eq b then .ok true
  else do
    let x ← a.operand
    let y ← b.operand
    if isNaN x || isNaN y then return isNaN x && isNaN y
    let bound ← tolerance.mul (Number.greatest (Number.greatest (.real one) a.abs) b.abs)
    return (← a.sub b).abs.le bound

theorem holdsBetween_real (tolerance a b : R) :
    holdsBetween (.real tolerance) (.real a) (.real b) = .ok (holds tolerance a b) := by
  unfold holdsBetween holds
  rw [Number.eq_real]
  split
  · rfl
  · simp only [Number.abs_real, Number.greatest_real]
    simp only [Number.operand, Number.toReal?, bind, Except.bind]
    split <;> rfl

def usual : Float := 0.0001

end FieldGraph.Tolerance
