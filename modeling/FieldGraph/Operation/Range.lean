import FieldGraph.Operation.Kernel
import FieldGraph.Interval.Elementary

/-! # Ranges of operations

For every operation a rule that bounds its results by intervals, given intervals for its operands;
`passthrough?` names an operand that the result is known to equal, and `simplify?` replaces an
operation with constant operands by a cheaper one.
-/

namespace FieldGraph.Operation

open Arithmetic

variable {R : Type} [Arithmetic R]

def stepifyRange (x steps : Interval R) : Interval R :=
  if lt zero steps.lower then .between (x.lower - one / steps.lower) x.upper
  else if lt steps.upper zero then .between x.lower (x.upper - one / steps.upper)
  else .whole

def wrapRange (x length : Interval R) : Interval R :=
  if lt zero length.lower then
    if le zero x.lower && lt x.upper length.lower then x
    else .between zero length.upper
  else if lt length.upper zero then .between length.lower zero
  else x.union (.between (least length.lower zero) (greatest length.upper zero))

def remapRange (min0 max0 min1 max1 : R) (x : Interval R) : Interval R :=
  if eq max0 min0 then .single min1
  else ((x.shiftDown min0).scale ((max1 - min1) / (max0 - min0))).shift min1

def selectRange (threshold : R) (a b t : Interval R) : Interval R :=
  if lt t.upper threshold then a
  else if le threshold t.lower then b
  else a.union b

/-- The range of one component of a normalised vector: it keeps its sign. -/
def signRange (c : Interval R) : Interval R :=
  .between (if lt c.lower zero then -one else zero) (if lt zero c.upper then one else zero)

def boxRange (x y z sizeX sizeY sizeZ : Interval R) : Interval R :=
  let origin := Interval.single zero
  let qx := x.abs - sizeX
  let qy := y.abs - sizeY
  let qz := z.abs - sizeZ
  let outside := Interval.length3 (qx.max origin) (qy.max origin) (qz.max origin)
  let inside := (qx.max (qy.max qz)).min origin
  outside + inside

def torusRange (radius1 radius2 : R) (x y z : Interval R) : Interval R :=
  let qx := (Interval.length2 x z).shiftDown radius1
  (Interval.length2 qx y).shiftDown radius2

def noiseRange : Option (FrozenNoise R) → Interval R
  | none => .single zero
  | some _ => .between ValueNoise.lowest ValueNoise.highest

def one? (range : Option (Interval R)) : Except Fault (List (Interval R)) :=
  match range with
  | some i => .ok [i]
  | none => .error .integerTooLarge

/-- Intervals that hold the results of an operation, one for each result. -/
def range (op : Operation) (params : List (Literal R)) (inputs : List (Interval R)) :
    Except Fault (List (Interval R)) :=
  match op, params, inputs with
  | .add, _, [a, b] => .ok [a + b]
  | .subtract, _, [a, b] => .ok [a - b]
  | .multiply, _, [a, b] => .ok [a * b]
  | .divide, _, [a, b] => .ok [a / b]
  | .sin, _, [x] => .ok [x.sin]
  | .floor, _, [x] => .ok [x.floor]
  | .abs, _, [x] => .ok [x.abs]
  | .sqrt, _, [x] => .ok [x.sqrt]
  | .fract, _, [x] => .ok [x.fract]
  | .stepify, _, [x, steps] => .ok [stepifyRange x steps]
  | .wrap, _, [x, length] => .ok [wrapRange x length]
  | .min, _, [a, b] => .ok [a.min b]
  | .max, _, [a, b] => .ok [a.max b]
  | .distance2, _, [x0, y0, x1, y1] => .ok [.length2 (x1 - x0) (y1 - y0)]
  | .distance3, _, [x0, y0, z0, x1, y1, z1] => .ok [.length3 (x1 - x0) (y1 - y0) (z1 - z0)]
  | .clamp, _, [x, low, high] => .ok [x.clamp low high]
  | .clampConst, [.real low, .real high], [x] => .ok [x.clamp (.single low) (.single high)]
  | .mix, _, [a, b, t] => .ok [.lerp a b t]
  | .remap, [.real min0, .real max0, .real min1, .real max1], [x] =>
    .ok [remapRange min0 max0 min1 max1 x]
  | .smoothstep, [.real edge0, .real edge1], [x] => .ok [.smoothstep edge0 edge1 x]
  | .select, [.real threshold], [a, b, t] => .ok [selectRange threshold a b t]
  | .pow, _, [x, exponent] => one? (x.pow? exponent)
  | .powInt, [.integer exponent], [x] => one? (x.powInt? exponent)
  | .normalize3, _, [x, y, z] => .ok [signRange x, signRange y, signRange z]
  | .noise2, [.noise source], [_, _] => .ok [noiseRange source]
  | .noise3, [.noise source], [_, _, _] => .ok [noiseRange source]
  | .sdfPlane, _, [y, height] => .ok [y - height]
  | .sdfBox, _, [x, y, z, sizeX, sizeY, sizeZ] => .ok [boxRange x y z sizeX sizeY sizeZ]
  | .sdfSphere, [.real radius], [x, y, z] => .ok [(Interval.length3 x y z).shiftDown radius]
  | .sdfTorus, [.real radius1, .real radius2], [x, y, z] => .ok [torusRange radius1 radius2 x y z]
  | .sdfSmoothUnion, [.real smoothness], [a, b] => .ok [a.smoothUnion b smoothness]
  | .sdfSmoothSubtract, [.real smoothness], [a, b] => .ok [a.smoothSubtract b smoothness]
  | _, _, _ => .error .malformed

/-- Whether an operation can ever equal one of its operands by its ranges. -/
def hasPassthrough : Operation → Bool
  | .abs | .min | .max | .clamp | .clampConst | .select | .sdfSmoothUnion
  | .sdfSmoothSubtract => true
  | _ => false

def clampPasses (x low high : Interval R) : Bool := le low.upper x.lower && le x.upper high.lower

/-- An operand that the result equals for all operands in the intervals. -/
def passthrough? (op : Operation) (params : List (Literal R)) (inputs : List (Interval R)) :
    Option Nat :=
  match op, params, inputs with
  | .abs, _, [x] => if le zero x.lower then some 0 else none
  | .min, _, [a, b] =>
    if le a.upper b.lower then some 0 else if le b.upper a.lower then some 1 else none
  | .max, _, [a, b] =>
    if le b.upper a.lower then some 0 else if le a.upper b.lower then some 1 else none
  | .clamp, _, [x, low, high] => if clampPasses x low high then some 0 else none
  | .clampConst, [.real low, .real high], [x] =>
    if clampPasses x (.single low) (.single high) then some 0 else none
  | .select, [.real threshold], [_, _, t] =>
    if lt t.upper threshold then some 0 else if le threshold t.lower then some 1 else none
  | .sdfSmoothUnion, [.real smoothness], [a, b] =>
    let reach := greatest smoothness zero
    if le reach (b - a).lower then some 0
    else if le reach (a - b).lower then some 1
    else none
  | .sdfSmoothSubtract, [.real smoothness], [a, b] =>
    if le (greatest smoothness zero) (a + b).lower then some 0 else none
  | _, _, _ => none

/-- An operation that computes the same from fewer operands. -/
structure Simplified (R : Type) where
  operation : Operation
  /-- The places of the operands it keeps. -/
  kept : List Nat
  params : List (Literal R)

/-- Whether an operation can be simplified by constant operands. -/
def hasSimplification : Operation → Bool
  | .clamp | .pow => true
  | _ => false

/-- A clamp between constants, and a power to a constant integer, have a simpler form. -/
def simplify? (op : Operation) (constants : List (Option R)) : Option (Simplified R) :=
  match op, constants with
  | .clamp, [_, some low, some high] => some ⟨.clampConst, [0], [.real low, .real high]⟩
  | .pow, [_, some exponent] => (toInt? exponent).map fun n => ⟨.powInt, [0], [.integer n]⟩
  | _, _ => none

end FieldGraph.Operation
