import FieldGraph.Interval.Exact

/-! # Interval operations by name

`Interval.call` applies the operation with a name to intervals and numbers, as an
editor asks for it.
-/

namespace FieldGraph.Interval

variable {R : Type} [Arithmetic R]

def unary? : String → Option (Interval R → Interval R)
  | "neg" => some neg
  | "abs" => some abs
  | "squared" => some squared
  | "sqrt" => some sqrt
  | "floor" => some floor
  | "fract" => some fract
  | "sin" => some sin
  | _ => none

def binary? : String → Option (Interval R → Interval R → Interval R)
  | "union" => some union
  | "add" => some add
  | "sub" => some sub
  | "mul" => some mul
  | "div" => some div
  | "min" => some min
  | "max" => some max
  | "length_2d" => some length2
  | _ => none

def withNumber? : String → Option (Interval R → R → Interval R)
  | "add" => some shift
  | "sub" => some shiftDown
  | "mul" => some scale
  | "div" => some fun i x => i.div (single x)
  | _ => none

def ofNumber? : String → Option (R → Interval R → Interval R)
  | "add" => some fun x i => i.shift x
  | "sub" => some subFrom
  | "mul" => some fun x i => i.scale x
  | _ => none

def ternary? : String → Option (Interval R → Interval R → Interval R → Interval R)
  | "clamp" => some clamp
  | "lerp" => some lerp
  | "length_3d" => some length3
  | _ => none

inductive Argument (R : Type) where
  | interval (i : Interval R)
  | number (x : Number R)

inductive Outcome (R : Type) where
  | interval (i : Interval R)
  | real (x : R)
  | truth (b : Bool)

inductive CallError where
  | fault (cause : Fault)
  | noNumbers
  | unknown

abbrev Calling := Except CallError

/-- The number of an argument, as an operand among real ones. -/
def operand : Number R → Calling R := fun x => x.operand.mapError .fault

def numbers (args : List (Argument R)) : Calling (List R) :=
  args.mapM fun arg => match arg with
    | .number x => operand x
    | .interval _ => .error .unknown

def outcome (i : Interval R) : Calling (Outcome R) := .ok (.interval i)

/-- An interval as the outcome, unless an integer was too large. -/
def outcome? : Option (Interval R) → Calling (Outcome R)
  | some i => outcome i
  | none => .error (.fault .integerTooLarge)

/-- Applies an operation that was looked up. -/
def applied {F : Type} (found : Option F) (apply : F → Calling (Interval R)) :
    Calling (Outcome R) :=
  match found with
  | some f => (apply f).map .interval
  | none => .error .unknown

/-- The operations on intervals and numbers that have no family. -/
def callSpecial? (name : String) (args : List (Argument R)) : Option (Calling (Outcome R)) :=
  match name, args with
  | "infinite", [] => some (outcome whole)
  | "single", [.number x] => some do outcome (single (← operand x))
  | "new", [.number a, .number b] => some do outcome (between (← operand a) (← operand b))
  | "from_values", args => some do
      match ofList? (← numbers args) with
      | some i => outcome i
      | none => throw .noNumbers
  | "contains", [.interval i, .number x] => some (.ok (.truth (i.containsNumber x)))
  | "eq", [.interval i, .interval j] => some (.ok (.truth (i.same j)))
  | "eq", _ => some (.ok (.truth false))
  | "same_hash", [.interval i, .interval j] => some (.ok (.truth (i.same j)))
  | "is_single", [.interval i] => some (.ok (.truth i.isSingle))
  | "is_finite", [.interval i] => some (.ok (.truth i.isBounded))
  | "width", [.interval i] => some (.ok (.real i.width))
  | "powi", [.interval i, .number n] => some (outcome? (i.powNumber? n))
  | "pow", [.interval i, .interval j] => some (outcome? (i.pow? j))
  | "safe_pow", [.number x, .number y] =>
    some (match powNumbers? x y with
      | some power => .ok (.real power)
      | none => .error (.fault .integerTooLarge))
  | "smoothstep", [.number a, .number b, .interval i] => some do
      outcome (← (smoothstepBetween a b i).mapError .fault)
  | "smooth_union", [.interval i, .interval j, .number k] => some do
      outcome (i.smoothUnion j (← (smoothness k).mapError .fault))
  | "smooth_subtract", [.interval i, .interval j, .number k] => some do
      outcome (i.smoothSubtract j (← (smoothness k).mapError .fault))
  | _, _ => none

def call (name : String) (args : List (Argument R)) : Calling (Outcome R) :=
  match callSpecial? name args with
  | some result => result
  | none =>
    match args with
    | [.interval i] => applied (unary? name) fun f => .ok (f i)
    | [.interval i, .interval j] => applied (binary? name) fun f => .ok (f i j)
    | [.interval i, .number x] => applied (withNumber? name) fun f => return f i (← operand x)
    | [.number x, .interval i] => applied (ofNumber? name) fun f => return f (← operand x) i
    | [.interval i, .interval j, .interval k] => applied (ternary? name) fun f => .ok (f i j k)
    | _ => .error .unknown

end FieldGraph.Interval
