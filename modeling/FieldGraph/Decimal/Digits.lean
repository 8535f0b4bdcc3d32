/-! # Decimal digits of binary numbers

A finite double is an integer times a power of two. `Scaled` holds its magnitude as a fraction
together with the rounding neighbourhood: the reals that read back as the same double. `shortest`
picks the fewest digits inside that neighbourhood, nearest to the value; `significant` rounds to a
given number of digits, a half going to the even neighbour.
-/

namespace FieldGraph.Decimal

/-- Digits with the decimal point `point` places behind their start: `0.d₁d₂… · 10 ^ point`. -/
structure Digits where
  digits : List Nat
  /-- The place of the decimal point, counted from before the first digit. -/
  point : Int
  deriving Repr, DecidableEq

/-- The magnitude `value / scale` of a nonzero finite double, and the ends `lower / scale` and
`upper / scale` of the reals that round to it, which do so themselves when `closed` holds. -/
structure Scaled where
  value : Nat
  lower : Nat
  upper : Nat
  scale : Nat
  closed : Bool
  /-- The exponent of two of the leading bit of the magnitude. -/
  leading : Int

/-- The integer significand and the exponent of two of a finite double. -/
def significand (x : Float) : Nat × Int :=
  let bits := x.toBits.toNat
  let fraction := bits % Nat.pow 2 52
  let biased := bits / Nat.pow 2 52 % Nat.pow 2 11
  if biased = 0 then (fraction, -1074)
  else (Nat.pow 2 52 + fraction, Int.ofNat biased - 1075)

def isNegative (x : Float) : Bool := x.toBits.toNat / Nat.pow 2 63 == 1

/-- The magnitude of a nonzero finite double with its rounding neighbourhood, whose lower end is
nearer at a power of two. -/
def Scaled.ofFloat (x : Float) : Scaled :=
  let (m, q) := significand x
  let below := if m = Nat.pow 2 52 ∧ -1074 < q then 1 else 2
  let up := Nat.pow 2 q.toNat
  { value := 4 * m * up
    lower := (4 * m - below) * up
    upper := (4 * m + 2) * up
    scale := 4 * Nat.pow 2 (-q).toNat
    closed := m % 2 == 0
    leading := Int.ofNat m.log2 + q }

/-- The fraction `n / scale` in units of `10 ^ exponent`, as a fraction again. -/
def Scaled.inUnits (s : Scaled) (n : Nat) (exponent : Int) : Nat × Nat :=
  (n * Nat.pow 10 (-exponent).toNat, s.scale * Nat.pow 10 exponent.toNat)

def Scaled.below (s : Scaled) (exponent : Int) : Bool :=
  let (num, den) := s.inUnits s.value exponent
  num < den

/-- The least `point` with the magnitude below `10 ^ point`. -/
def Scaled.point (s : Scaled) : Int :=
  let guess := Int.fdiv (s.leading * 30103) 100000
  if s.below guess then guess
  else if s.below (guess + 1) then guess + 1
  else guess + 2

def digitsOf (n : Nat) : List Nat :=
  (Nat.toDigits 10 n).map fun c => c.toNat - '0'.toNat

def dropTrailingZeros (digits : List Nat) : List Nat :=
  (digits.reverse.dropWhile (· == 0)).reverse

/-- The number `n · 10 ^ exponent` in digits, without zeros at the end. -/
def Digits.ofUnits (n : Nat) (exponent : Int) : Digits :=
  let digits := digitsOf n
  { digits := dropTrailingZeros digits, point := Int.ofNat digits.length + exponent }

/-- The neighbour of the magnitude on the grid `10 ^ exponent` that rounds to it; of two the nearer,
of two equally near the even one. -/
def Scaled.onGrid? (s : Scaled) (exponent : Int) : Option Nat :=
  let (num, den) := s.inUnits s.value exponent
  let low := (s.inUnits s.lower exponent).1
  let high := (s.inUnits s.upper exponent).1
  let floor := num / den
  let ceil := floor + 1
  let inside (n : Nat) : Bool :=
    if s.closed then low ≤ n * den && n * den ≤ high else low < n * den && n * den < high
  let rest := num % den
  match inside floor, inside ceil with
  | true, true =>
    if 2 * rest < den then some floor
    else if den < 2 * rest then some ceil
    else if floor % 2 = 0 then some floor else some ceil
  | true, false => some floor
  | false, true => some ceil
  | false, false => none

/-- The first of the given digit counts whose grid meets the neighbourhood. -/
def Scaled.firstGrid (s : Scaled) (point : Int) : List Nat → Digits
  | [] => { digits := [], point }
  | count :: counts =>
    let exponent := point - Int.ofNat count
    match s.onGrid? exponent with
    | some n => Digits.ofUnits n exponent
    | none => s.firstGrid point counts

/-- The fewest digits that read back as the magnitude of a nonzero finite double, and of those the
nearest. -/
def shortest (x : Float) : Digits :=
  let s := Scaled.ofFloat x
  s.firstGrid s.point ((List.range 17).map (· + 1))

/-- The quotient rounded to the nearest natural number, a half to the even one. -/
def roundHalfEven (num den : Nat) : Nat :=
  let floor := num / den
  let rest := num % den
  if 2 * rest < den then floor
  else if den < 2 * rest then floor + 1
  else if floor % 2 = 0 then floor else floor + 1

/-- The magnitude of a nonzero finite double rounded to `count` significant digits. -/
def significant (count : Nat) (x : Float) : Digits :=
  let s := Scaled.ofFloat x
  let exponent := s.point - Int.ofNat count
  let (num, den) := s.inUnits s.value exponent
  Digits.ofUnits (roundHalfEven num den) exponent

end FieldGraph.Decimal
