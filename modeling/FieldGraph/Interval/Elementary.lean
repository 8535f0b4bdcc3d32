import FieldGraph.Interval.Basic

/-! # Elementary functions on intervals

For each function an interval that holds all its values on members of the given
intervals.
-/

namespace FieldGraph.Interval

open Arithmetic

variable {R : Type} [Arithmetic R]

def min (i j : Interval R) : Interval R :=
  between (least i.lower j.lower) (least i.upper j.upper)

def max (i j : Interval R) : Interval R :=
  between (greatest i.lower j.lower) (greatest i.upper j.upper)

/-- Members raised to `low` and then lowered to `high`. -/
def clamp (i low high : Interval R) : Interval R := (i.max low).min high

def abs (i : Interval R) : Interval R :=
  if le zero i.lower then i
  else if le i.upper zero then -i
  else between zero (greatest (-i.lower) i.upper)

def squared (i : Interval R) : Interval R :=
  let magnitude := i.abs
  between (cornerProduct magnitude.lower magnitude.lower)
    (cornerProduct magnitude.upper magnitude.upper)

/-- Square roots of members, negative members counting as zero. -/
def sqrt (i : Interval R) : Interval R :=
  between (Arithmetic.sqrt (greatest i.lower zero)) (Arithmetic.sqrt (greatest i.upper zero))

/-- The floor of an end as an integer, so that it never is a negative zero. -/
def floorEnd (x : R) : R :=
  let whole := Arithmetic.floor x
  if eq whole zero then zero else whole

def floor (i : Interval R) : Interval R :=
  between (if isFinite i.lower then floorEnd i.lower else i.lower)
    (if isFinite i.upper then floorEnd i.upper else i.upper)

def fract (i : Interval R) : Interval R :=
  if i.isBounded && eq (floorEnd i.lower) (floorEnd i.upper) then
    between (i.lower - floorEnd i.lower) (i.upper - floorEnd i.upper)
  else between zero one

/-- Sines of members. Peaks lie a quarter turn after the whole turns, troughs a quarter turn before.
-/
def sin (i : Interval R) : Interval R :=
  let turn := two * pi
  let quarterTurn := pi * half
  if !i.isBounded || le turn i.width then between (-one) one
  else
    let first := Arithmetic.sin i.lower
    let last := Arithmetic.sin i.upper
    let peak := ceil ((i.lower - quarterTurn) / turn)
    let trough := ceil ((i.lower + quarterTurn) / turn)
    let top := if le (quarterTurn + turn * peak) i.upper then one else greatest first last
    let bottom := if le (-pi * half + turn * trough) i.upper then -one else least first last
    between bottom top

def lerp (a b t : Interval R) : Interval R := a + t * (b - a)

/-- The power of an end; undefined for zero to a negative finite exponent. -/
def powEnd (base exponent : R) : R :=
  if eq base zero && lt exponent zero && isFinite exponent then zero / zero
  else pow base exponent

/-- The unbounded power of a negative base: its sign is that of the exact exponent. -/
def powBeyond (exponent : Int) : R := if exponent % 2 = 0 then infinity else -infinity

/-- The power of an end to an integer. One too large for the type leaves only powers of positive
bases. -/
def powIntEnd? (base : R) (exponent : Int) : Option R :=
  match ofInt? exponent with
  | some e =>
    let power := powEnd base e
    if lt base zero && isFinite base && isInfinite power then some (powBeyond exponent)
    else some power
  | none => if lt zero base then some infinity else none

def powPositive? (i : Interval R) (exponent : Int) : Option (Interval R) :=
  let base := if exponent % 2 = 0 then i.abs else i
  match powIntEnd? base.lower exponent, powIntEnd? base.upper exponent with
  | some a, some b => some (between a b)
  | _, _ => none

/-- Powers of members to an integer; none if the integer is too large. -/
def powInt? (i : Interval R) (exponent : Int) : Option (Interval R) :=
  if exponent = 0 then some (single one)
  else if exponent < 0 then (i.powPositive? (-exponent)).map fun p => single one / p
  else i.powPositive? exponent

def pow? (i exponent : Interval R) : Option (Interval R) :=
  match (if exponent.isSingle then toInt? exponent.lower else none) with
  | some n => i.powInt? n
  | none =>
    if lt zero i.lower then
      some (hull (powEnd i.lower exponent.lower)
        [powEnd i.lower exponent.upper, powEnd i.upper exponent.lower,
          powEnd i.upper exponent.upper])
    else some whole

def length2 (x y : Interval R) : Interval R := (x.squared + y.squared).sqrt

def length3 (x y z : Interval R) : Interval R := (x.squared + y.squared + z.squared).sqrt

def ramp (x : R) : R :=
  let t := least (greatest x zero) one
  t * t * (three - two * t)

def smoothstepEnd (edge0 edge1 x : R) : R :=
  if eq edge0 edge1 then (if lt x edge0 then zero else one)
  else ramp ((x - edge0) / (edge1 - edge0))

/-- Smooth steps of members; the step is monotone. -/
def smoothstep (edge0 edge1 : R) (i : Interval R) : Interval R :=
  hull (smoothstepEnd edge0 edge1 i.lower) [smoothstepEnd edge0 edge1 i.upper]

/-- Smooth unions of members: never above the smaller one, and below it by at most
a quarter of the smoothness. -/
def smoothUnion (i j : Interval R) (smoothness : R) : Interval R :=
  let base := i.min j
  if le smoothness zero then base
  else between (base.lower - smoothness * quarter) base.upper

/-- Smooth subtractions of members: never below the larger one of `i` and `-j`, and
above it by at most a quarter of the smoothness. -/
def smoothSubtract (i j : Interval R) (smoothness : R) : Interval R :=
  let base := i.max (-j)
  if le smoothness zero then base
  else between base.lower (base.upper + smoothness * quarter)

end FieldGraph.Interval
