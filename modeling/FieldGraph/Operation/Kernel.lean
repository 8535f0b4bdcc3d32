import FieldGraph.Kind
import FieldGraph.Number
import FieldGraph.Param

/-! # Kernels

The function every operation computes, sample by sample. Literals are narrowed before they meet a
sample, while arithmetic among literals happens before narrowing. Noise is sampled at the literals'
type.

Divisions by zero have a fallback, negative numbers have the square root zero, and an operation
whose params make it degenerate is the limit of its neighbours.
-/

namespace FieldGraph

namespace Operation

open Arithmetic

variable {R α : Type} [Arithmetic R] [Arithmetic α] [Precision R α]

@[inline]
def literal (x : R) : α := Precision.narrow x

/-- The quotient, or a fallback where the divisor is zero. -/
@[inline]
def divOr (a b fallback : α) : α := if eq b zero then fallback else a / b

@[inline]
def unary (f : α → α) : List α → Except Fault (List α)
  | [x] => .ok [f x]
  | _ => .error .malformed

@[inline]
def binary (f : α → α → α) : List α → Except Fault (List α)
  | [a, b] => .ok [f a b]
  | _ => .error .malformed

@[inline]
def ternary (f : α → α → α → α) : List α → Except Fault (List α)
  | [a, b, c] => .ok [f a b c]
  | _ => .error .malformed

@[inline]
def quaternary (f : α → α → α → α → α) : List α → Except Fault (List α)
  | [a, b, c, d] => .ok [f a b c d]
  | _ => .error .malformed

@[inline]
def senary (f : α → α → α → α → α → α → α) : List α → Except Fault (List α)
  | [a, b, c, d, e, g] => .ok [f a b c d e g]
  | _ => .error .malformed

@[inline]
def ternaryTriple (f : α → α → α → α × α × α) : List α → Except Fault (List α)
  | [a, b, c] =>
    let (x, y, z) := f a b c
    .ok [x, y, z]
  | _ => .error .malformed

/-- Rounds down to the next multiple of `1 / steps`. -/
@[inline]
def stepifyOf (x steps : α) : α := divOr (Arithmetic.floor (x * steps)) steps x

@[inline]
def wrapOf (x length : α) : α := x - length * Arithmetic.floor (divOr x length zero)

@[inline]
def lengthOf (x y z : α) : α := Arithmetic.sqrt (x * x + y * y + z * z)

@[inline]
def planeDistanceOf (x0 y0 x1 y1 : α) : α :=
  Arithmetic.sqrt (square (x1 - x0) + square (y1 - y0))

@[inline]
def spaceDistanceOf (x0 y0 z0 x1 y1 z1 : α) : α :=
  Arithmetic.sqrt (square (x1 - x0) + square (y1 - y0) + square (z1 - z0))

/-- A space vector divided by its length, zero without one. -/
@[inline]
def directionOf (x y z : α) : α × α × α :=
  let length := lengthOf x y z
  (divOr x length zero, divOr y length zero, divOr z length zero)

@[inline]
def linearOf (start factor target : R) (x : α) : α :=
  (x - literal start) * literal factor + literal target

@[inline]
def remapOf (min0 max0 min1 max1 : R) (x : α) : α :=
  if eq max0 min0 then literal min1
  else linearOf min0 ((max1 - min1) / (max0 - min0)) min1 x

@[inline]
def stepOf (edge : R) (x : α) : α := if lt x (literal edge) then zero else one

/-- The smooth step from zero at a start to one a width beyond it. -/
@[inline]
def rampOf (start width : R) (x : α) : α :=
  let t := clip ((x - literal start) / literal width) zero one
  t * t * (three - two * t)

/-- The smooth step from zero below `edge0` to one above `edge1`. -/
@[inline]
def smoothstepOf (edge0 edge1 : R) (x : α) : α :=
  if eq edge0 edge1 then stepOf edge0 x else rampOf edge0 (edge1 - edge0) x

/-- The distance to a box with the given half sizes. -/
@[inline]
def boxOf (x y z sizeX sizeY sizeZ : α) : α :=
  let qx := Arithmetic.abs x - sizeX
  let qy := Arithmetic.abs y - sizeY
  let qz := Arithmetic.abs z - sizeZ
  let outside := Arithmetic.sqrt
    (square (maximum qx zero) + square (maximum qy zero) + square (maximum qz zero))
  let inside := minimum (maximum qx (maximum qy qz)) zero
  outside + inside

/-- The distance to a torus around the vertical axis. -/
@[inline]
def torusOf (radius1 radius2 : R) (x y z : α) : α :=
  let qx := Arithmetic.sqrt (x * x + z * z) - literal radius1
  Arithmetic.sqrt (qx * qx + y * y) - literal radius2

/-- The union of two distances, rounded where they are within the smoothness. -/
@[inline]
def smoothUnionOf (smoothness : R) (a b : α) : α :=
  if le smoothness zero then minimum a b
  else
    let k : α := literal smoothness
    let h := clip (half + half * (b - a) / k) zero one
    b * (one - h) + a * h - k * h * (one - h)

/-- The first distance with the second cut out, rounded within the smoothness. -/
@[inline]
def smoothSubtractOf (smoothness : R) (a b : α) : α :=
  if le smoothness zero then maximum a (-b)
  else
    let k : α := literal smoothness
    let h := clip (half - half * (b + a) / k) zero one
    a + h * (-b - a) + k * h * (one - h)

/-- A noise of the plane, sampled at the literals' type. -/
@[inline]
def planeNoiseOf (noise : ValueNoise R) (x y : α) : α :=
  literal (noise.sample2 (Precision.widen x) (Precision.widen y) : R)

@[inline]
def spaceNoiseOf (noise : ValueNoise R) (x y z : α) : α :=
  literal (noise.sample3 (Precision.widen x) (Precision.widen y) (Precision.widen z) : R)

/-- What an operation computes from one sample of each operand. -/
@[specialize]
def kernel (op : Operation) (params : List (Literal R)) (inputs : List α) :
    Except Fault (List α) :=
  match op with
  | .add => binary (· + ·) inputs
  | .subtract => binary (· - ·) inputs
  | .multiply => binary (· * ·) inputs
  | .divide => binary (fun a b => divOr a b zero) inputs
  | .sin => unary Arithmetic.sin inputs
  | .floor => unary Arithmetic.floor inputs
  | .abs => unary Arithmetic.abs inputs
  | .sqrt => unary (fun x => Arithmetic.sqrt (maximum x zero)) inputs
  | .fract => unary (fun x => x - Arithmetic.floor x) inputs
  | .stepify => binary stepifyOf inputs
  | .wrap => binary wrapOf inputs
  | .min => binary minimum inputs
  | .max => binary maximum inputs
  | .distance2 => quaternary planeDistanceOf inputs
  | .distance3 => senary spaceDistanceOf inputs
  | .clamp => ternary (fun x low high => minimum (maximum x low) high) inputs
  | .clampConst =>
    match params with
    | [.real low, .real high] =>
      unary (fun x => minimum (maximum x (literal low)) (literal high)) inputs
    | _ => .error .malformed
  | .mix => ternary (fun a b t => a + t * (b - a)) inputs
  | .remap =>
    match params with
    | [.real min0, .real max0, .real min1, .real max1] => unary (remapOf min0 max0 min1 max1) inputs
    | _ => .error .malformed
  | .smoothstep =>
    match params with
    | [.real edge0, .real edge1] => unary (smoothstepOf edge0 edge1) inputs
    | _ => .error .malformed
  | .select =>
    match params with
    | [.real threshold] => ternary (fun a b t => if lt t (literal threshold) then a else b) inputs
    | _ => .error .malformed
  | .pow => binary Arithmetic.pow inputs
  | .powInt =>
    match params with
    | [.integer exponent] =>
      match (ofInt? exponent : Option R) with
      | some e => unary (fun x => powShared x (literal e)) inputs
      | none => .error .integerTooLarge
    | _ => .error .malformed
  | .normalize3 => ternaryTriple directionOf inputs
  | .noise2 =>
    match params with
    | [.noise none] => binary (fun _ _ => zero) inputs
    | [.noise (some source)] => binary (planeNoiseOf source.noise) inputs
    | _ => .error .malformed
  | .noise3 =>
    match params with
    | [.noise none] => ternary (fun _ _ _ => zero) inputs
    | [.noise (some source)] => ternary (spaceNoiseOf source.noise) inputs
    | _ => .error .malformed
  | .sdfPlane => binary (· - ·) inputs
  | .sdfBox => senary boxOf inputs
  | .sdfSphere =>
    match params with
    | [.real radius] => ternary (fun x y z => lengthOf x y z - literal radius) inputs
    | _ => .error .malformed
  | .sdfTorus =>
    match params with
    | [.real radius1, .real radius2] => ternary (torusOf radius1 radius2) inputs
    | _ => .error .malformed
  | .sdfSmoothUnion =>
    match params with
    | [.real smoothness] => binary (smoothUnionOf smoothness) inputs
    | _ => .error .malformed
  | .sdfSmoothSubtract =>
    match params with
    | [.real smoothness] => binary (smoothSubtractOf smoothness) inputs
    | _ => .error .malformed

section Faults

omit [Arithmetic α]

theorem isOk_unary (f : α → α) (inputs : List α) :
    (unary f inputs).isOk = decide (inputs.length = 1) := by
  match inputs with
  | [] | [_] | _ :: _ :: _ => simp [unary, Except.toBool]

theorem isOk_binary (f : α → α → α) (inputs : List α) :
    (binary f inputs).isOk = decide (inputs.length = 2) := by
  match inputs with
  | [] | [_] | [_, _] | _ :: _ :: _ :: _ => simp [binary, Except.toBool]

theorem isOk_ternary (f : α → α → α → α) (inputs : List α) :
    (ternary f inputs).isOk = decide (inputs.length = 3) := by
  match inputs with
  | [] | [_] | [_, _] | [_, _, _] | _ :: _ :: _ :: _ :: _ => simp [ternary, Except.toBool]

theorem isOk_ternaryTriple (f : α → α → α → α × α × α) (inputs : List α) :
    (ternaryTriple f inputs).isOk = decide (inputs.length = 3) := by
  match inputs with
  | [] | [_] | [_, _] | [_, _, _] | _ :: _ :: _ :: _ :: _ => simp [ternaryTriple, Except.toBool]

theorem isOk_quaternary (f : α → α → α → α → α) (inputs : List α) :
    (quaternary f inputs).isOk = decide (inputs.length = 4) := by
  match inputs with
  | [] | [_] | [_, _] | [_, _, _] | [_, _, _, _] | _ :: _ :: _ :: _ :: _ :: _ =>
    simp [quaternary, Except.toBool]

theorem isOk_senary (f : α → α → α → α → α → α → α) (inputs : List α) :
    (senary f inputs).isOk = decide (inputs.length = 6) := by
  match inputs with
  | [] | [_] | [_, _] | [_, _, _] | [_, _, _, _] | [_, _, _, _, _] | [_, _, _, _, _, _]
  | _ :: _ :: _ :: _ :: _ :: _ :: _ :: _ => simp [senary, Except.toBool]

end Faults

/-- Whether an operation can be computed depends on its params and the number of its
operands. -/
theorem isOk_kernel (op : Operation) (params : List (Literal R)) {a b : List α}
    (length : a.length = b.length) : (op.kernel params a).isOk = (op.kernel params b).isOk := by
  cases op with
  | add | subtract | multiply | divide | stepify | wrap | min | max | pow | sdfPlane =>
    simp only [kernel, isOk_binary, length]
  | sin | floor | abs | sqrt | fract => simp only [kernel, isOk_unary, length]
  | clamp | mix => simp only [kernel, isOk_ternary, length]
  | distance2 => simp only [kernel, isOk_quaternary, length]
  | distance3 | sdfBox => simp only [kernel, isOk_senary, length]
  | normalize3 => simp only [kernel, isOk_ternaryTriple, length]
  | clampConst | remap | smoothstep | select | noise2 | noise3 | sdfSphere | sdfTorus
  | sdfSmoothUnion | sdfSmoothSubtract =>
    -- The params alone decide which function is applied.
    simp only [kernel]
    split <;> simp only [isOk_unary, isOk_binary, isOk_ternary, length]
  | powInt =>
    simp only [kernel]
    split
    · split <;> simp only [isOk_unary, length]
    · rfl

/-- Whether the results of an operation depend on nothing but its operands and
literal params. -/
def isPure : Operation → Bool
  | .noise2 | .noise3 => false
  | _ => true

def single (op : Operation) (params : List (Literal Float)) (inputs : List Float32) :
    Except Fault (List Float32) :=
  op.kernel params inputs

def double (op : Operation) (params : List (Literal Float)) (inputs : List Float) :
    Except Fault (List Float) :=
  op.kernel params inputs

end Operation

end FieldGraph
