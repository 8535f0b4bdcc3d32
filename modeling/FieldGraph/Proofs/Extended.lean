import FieldGraph.Run.Plan
import Mathlib.Data.Rat.Floor
import Mathlib.Tactic.FieldSimp
import Mathlib.Tactic.Linarith
import Mathlib.Tactic.Ring

/-! # Exact numbers

Rational numbers with two infinite ones and an undefined one. They are an `Arithmetic` that
never rounds: sums, products and quotients of rational numbers are exact, and infinite ones follow
the rules of floating point. Numbers that need not be rational (roots, sines, powers to exponents
that are no integers) are left undefined.

The order places the undefined number below all others, so `bottom ≤ x` says that `x` is a
number.
-/

namespace FieldGraph

/-- A rational number, an infinite one, or none at all. -/
inductive Extended where
  | undefined
  | bottom
  | rational (value : ℚ)
  | top
  deriving DecidableEq

namespace Extended

open Arithmetic

/-- The place of a number in the order. -/
def rank : Extended → WithBot (WithBot (WithTop ℚ))
  | undefined => ⊥
  | bottom => ((⊥ : WithBot (WithTop ℚ)) : WithBot (WithBot (WithTop ℚ)))
  | rational x => (((x : WithTop ℚ) : WithBot (WithTop ℚ)) : WithBot (WithBot (WithTop ℚ)))
  | top => ⊤

theorem rank_injective : Function.Injective rank := by
  rintro (_ | _ | x | _) (_ | _ | y | _) <;> simp [rank]

instance : LinearOrder Extended := .lift' rank rank_injective

theorem le_iff (a b : Extended) : a ≤ b ↔
    match a, b with
    | undefined, _ | bottom, bottom | bottom, rational _ | _, top => True
    | rational x, rational y => x ≤ y
    | _, _ => False := by
  change rank a ≤ rank b ↔ _
  cases a <;> cases b <;> simp [rank]

theorem lt_iff (a b : Extended) : a < b ↔
    match a, b with
    | undefined, bottom | undefined, rational _ | bottom, rational _ => True
    | undefined, top | bottom, top | rational _, top => True
    | rational x, rational y => x < y
    | _, _ => False := by
  rw [← not_le, le_iff]
  cases a <;> cases b <;> simp

instance : Neg Extended where
  neg
    | undefined => undefined
    | bottom => top
    | rational x => rational (-x)
    | top => bottom

instance : Add Extended where
  add
    | rational x, rational y => rational (x + y)
    | bottom, bottom | bottom, rational _ | rational _, bottom => bottom
    | top, top | top, rational _ | rational _, top => top
    | _, _ => undefined

/-- A number times the infinite one above. -/
def timesTop : Extended → Extended
  | rational x => if 0 < x then top else if x < 0 then bottom else undefined
  | x => x

instance : Mul Extended where
  mul
    | rational x, rational y => rational (x * y)
    | x, top | top, x => timesTop x
    | x, bottom | bottom, x => -timesTop x
    | _, _ => undefined

instance : Div Extended where
  div
    | rational x, rational y => if y = 0 then timesTop (rational x) else rational (x / y)
    | rational _, top | rational _, bottom => rational 0
    | top, rational y => if y < 0 then bottom else top
    | bottom, rational y => if y < 0 then top else bottom
    | _, _ => undefined

/-- The power to an integer. That of zero to a negative one is infinite. -/
def power : Extended → ℤ → Extended
  | undefined, n => if n = 0 then rational 1 else undefined
  | rational x, n => if x = 0 ∧ n < 0 then top else rational (x ^ n)
  | top, n => if n = 0 then rational 1 else if n < 0 then rational 0 else top
  | bottom, n =>
    if n = 0 then rational 1 else if n < 0 then rational 0
    else if n % 2 = 0 then top else bottom

instance : Arithmetic Extended where
  sub a b := a + -b
  ofNat n := rational n
  ofInt? n := some (rational n)
  ofRatio? m n := some (rational (m / n))
  lt a b := decide (bottom ≤ a ∧ a < b)
  le a b := decide (bottom ≤ a ∧ a ≤ b)
  eq a b := decide (bottom ≤ a ∧ a = b)
  isNaN a := decide (a = undefined)
  isFinite
    | rational _ => true
    | _ => false
  infinity := top
  pi := undefined
  floor
    | rational x => rational ⌊x⌋
    | x => x
  ceil
    | rational x => rational ⌈x⌉
    | x => x
  abs x := max x (-x)
  sqrt _ := undefined
  sin _ := undefined
  pow
    | x, rational e => if e.den = 1 then x.power e.num else undefined
    | _, _ => undefined
  truncate?
    | rational x => some (x.num.tdiv x.den)
    | _ => none
  roundEven
    | rational x => if Int.fract x < 1 / 2 ∨ Int.fract x = 1 / 2 ∧ ⌊x⌋ % 2 = 0 then ⌊x⌋ else ⌊x⌋ + 1
    | _ => 0

/-- Literals and samples are of one type, and nothing is rounded between them. -/
instance : Precision Extended Extended where
  narrow := id
  widen := id

variable {a b x y : Extended} {p q : ℚ}

section Values

@[simp, grind =] theorem neg_rational : -rational p = rational (-p) := rfl
@[simp, grind =] theorem neg_bottom : -bottom = top := rfl
@[simp, grind =] theorem neg_top : -top = bottom := rfl
@[simp] theorem rational_add : rational p + rational q = rational (p + q) := rfl
@[simp] theorem rational_mul : rational p * rational q = rational (p * q) := rfl

@[simp] theorem rational_sub : rational p - rational q = rational (p - q) :=
  congrArg rational (sub_eq_add_neg p q).symm

theorem rational_div (nonzero : q ≠ 0) : rational p / rational q = rational (p / q) :=
  if_neg nonzero

@[simp] theorem zero_eq : (zero : Extended) = rational 0 := congrArg rational Nat.cast_zero
@[simp] theorem one_eq : (one : Extended) = rational 1 := congrArg rational Nat.cast_one
@[simp] theorem two_eq : (two : Extended) = rational 2 := congrArg rational Nat.cast_ofNat
@[simp] theorem three_eq : (three : Extended) = rational 3 := congrArg rational Nat.cast_ofNat

@[simp] theorem half_eq : (half : Extended) = rational (1 / 2) := by
  rw [half, one_eq, two_eq, rational_div (by norm_num)]

@[simp] theorem quarter_eq : (quarter : Extended) = rational (1 / 4) := by
  exact rational_div (by norm_num)

end Values

section

variable (a b : Extended)

theorem sub_def : a - b = a + -b := rfl

theorem add_def : a + b =
    match a, b with
    | rational x, rational y => rational (x + y)
    | bottom, bottom | bottom, rational _ | rational _, bottom => bottom
    | top, top | top, rational _ | rational _, top => top
    | _, _ => undefined := rfl

theorem mul_def : a * b =
    match a, b with
    | rational x, rational y => rational (x * y)
    | x, top | top, x => timesTop x
    | x, bottom | bottom, x => -timesTop x
    | _, _ => undefined := rfl

theorem div_def : a / b =
    match a, b with
    | rational x, rational y => if y = 0 then timesTop (rational x) else rational (x / y)
    | rational _, top | rational _, bottom => rational 0
    | top, rational y => if y < 0 then bottom else top
    | bottom, rational y => if y < 0 then top else bottom
    | _, _ => undefined := rfl

end

section Order

@[simp] theorem rational_le_rational : rational p ≤ rational q ↔ p ≤ q := le_iff _ _
@[simp] theorem rational_lt_rational : rational p < rational q ↔ p < q := lt_iff _ _

@[simp] theorem bottom_le_rational : bottom ≤ rational p := (le_iff _ _).mpr trivial

@[simp] theorem bottom_le_top : bottom ≤ top := (le_iff _ _).mpr trivial

@[simp] theorem le_top (x : Extended) : x ≤ top := by
  rw [le_iff]
  cases x <;> trivial

@[simp] theorem lt_eq_true : Arithmetic.lt a b = true ↔ bottom ≤ a ∧ a < b := decide_eq_true_iff
@[simp] theorem le_eq_true : Arithmetic.le a b = true ↔ bottom ≤ a ∧ a ≤ b := decide_eq_true_iff
@[simp] theorem eq_eq_true : Arithmetic.eq a b = true ↔ bottom ≤ a ∧ a = b := decide_eq_true_iff

theorem bottom_le_iff : bottom ≤ x ↔ x ≠ undefined := by
  rw [le_iff]
  cases x <;> simp

theorem isNaN_eq_false (defined : bottom ≤ x) : isNaN x = false :=
  decide_eq_false (bottom_le_iff.mp defined)

theorem rational_inf (p q : ℚ) : rational p ⊓ rational q = rational (p ⊓ q) := by
  rcases le_total p q with le | le <;> simp [le]

theorem rational_sup (p q : ℚ) : rational p ⊔ rational q = rational (p ⊔ q) := by
  rcases le_total p q with le | le <;> simp [le]

theorem neg_le_neg (defined : bottom ≤ a) (le : a ≤ b) : -b ≤ -a := by
  cases a <;> cases b <;> simp_all [le_iff]

theorem bottom_le_neg (defined : bottom ≤ a) : bottom ≤ -a := by
  cases a <;> simp_all [le_iff]

theorem neg_nonpos (nonneg : rational 0 ≤ a) : -a ≤ rational 0 := by
  simpa using neg_le_neg bottom_le_rational nonneg

theorem neg_nonneg (defined : bottom ≤ a) (nonpos : a ≤ rational 0) : rational 0 ≤ -a := by
  simpa using neg_le_neg defined nonpos

theorem least_eq (defined : bottom ≤ b) : least a b = a ⊓ b := by
  rcases le_or_gt a b with le | gt
  · simp [least, le]
  · simp [least, defined, gt, gt.le]

theorem greatest_eq (defined : bottom ≤ a) : greatest a b = a ⊔ b := by
  rcases le_or_gt b a with le | gt
  · simp [greatest, le]
  · simp [greatest, defined, gt, gt.le]

end Order

end Extended

end FieldGraph
