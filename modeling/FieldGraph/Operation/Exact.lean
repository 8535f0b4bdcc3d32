import FieldGraph.Interval.Exact
import FieldGraph.Operation.Range

/-! # Operations with exact params

An operation can be asked about with integers for real params. Arithmetic and comparisons among such
params are exact, and an integer is rounded only where it meets a sample or the end of an interval.
-/

namespace FieldGraph

def Literal.number? {R : Type} : Literal R → Option (Number R)
  | .integer n => some (.integer n)
  | .real x => some (.real x)
  | _ => none

def Literal.ofNumber {R : Type} : Number R → Literal R
  | .integer n => .integer n
  | .real x => .real x

namespace Operation

open Arithmetic

variable {R α : Type} [Arithmetic R] [Arithmetic α] [Precision R α]

def roundedLiteral (param : Literal R) : Except Fault (Literal R) :=
  match param.number? with
  | some number => return .real (← number.operand)
  | none => return param

/-- The params as an operation declares them, when its computation has no arithmetic
among them. -/
def declaredParams (op : Operation) (params : List (Literal R)) : Except Fault (List (Literal R)) :=
  match op, params.mapM Literal.number? with
  | .powInt, _ => .ok params
  | .sdfSmoothUnion, some [k] | .sdfSmoothSubtract, some [k] =>
    return [.real (← Interval.smoothness k)]
  | _, _ => params.mapM roundedLiteral

/-- How `remap` moves its operand. -/
inductive Remapping (R : Type) where
  | constant (target : R)
  | linear (start factor target : R)

def Remapping.between (min0 max0 min1 max1 : Number R) : Except Fault (Remapping R) :=
  if max0.eq min0 then return .constant (← min1.operand)
  else do
    let start ← min0.operand
    let factor ← Number.div (← max1.sub min1) (← max0.sub min0)
    return .linear start factor (← min1.operand)

/-- What an operation computes with params that may be integers. -/
def kernelExact (op : Operation) (params : List (Literal R)) (inputs : List α) :
    Except Fault (List α) := do
  match op, params.mapM Literal.number? with
  | .remap, some [min0, max0, min1, max1] =>
    match ← Remapping.between min0 max0 min1 max1 with
    | .constant target => unary (fun _ => literal target) inputs
    | .linear start factor target => unary (linearOf start factor target) inputs
  | .smoothstep, some [edge0, edge1] =>
    let start ← edge0.operand
    if edge0.eq edge1 then unary (stepOf start) inputs
    else unary (rampOf start (← (← edge1.sub edge0).operand)) inputs
  | .powInt, some [.real exponent] => unary (fun x => powShared x (literal exponent)) inputs
  | _, _ => op.kernel (← op.declaredParams params) inputs

/-- The results on double samples with params that may be integers. -/
def doubleExact (op : Operation) (params : List (Literal Float)) (inputs : List Float) :
    Except Fault (List Float) :=
  op.kernelExact params inputs

/-- The results on single samples with params that may be integers; noise keeps double precision. -/
def unstoredExact (op : Operation) (params : List (Literal Float)) (inputs : List Float32) :
    Except Fault (List Float) := do
  if op.isPure then
    let results : List Float32 ← op.kernelExact params inputs
    return results.map Float32.toFloat
  else op.doubleExact params (inputs.map Float32.toFloat)

/-- Intervals that hold the results with params that may be integers. -/
def rangeExact (op : Operation) (params : List (Literal R)) (inputs : List (Interval R)) :
    Except Fault (List (Interval R)) := do
  match op, params.mapM Literal.number?, inputs with
  | .remap, some [min0, max0, min1, max1], [x] =>
    match ← Remapping.between min0 max0 min1 max1 with
    | .constant target => return [.single target]
    | .linear start factor target => return [((x.shiftDown start).scale factor).shift target]
  | .smoothstep, some [edge0, edge1], [x] => return [← x.smoothstepBetween edge0 edge1]
  | .select, some [threshold], [a, b, t] =>
    if Number.lt (.real t.upper) threshold then return [a]
    else if threshold.le (.real t.lower) then return [b]
    else return [a.union b]
  | .powInt, some [exponent], [x] => one? (x.powNumber? exponent)
  | _, _, _ => op.range (← op.declaredParams params) inputs

/-- An operand that the result equals, with params that may be integers. -/
def passthroughExact? (op : Operation) (params : List (Literal R))
    (inputs : List (Interval R)) : Except Fault (Option Nat) := do
  match op, params.mapM Literal.number?, inputs with
  | .select, some [threshold], [_, _, t] =>
    if Number.lt (.real t.upper) threshold then return some 0
    else if threshold.le (.real t.lower) then return some 1
    else return none
  | .sdfSmoothUnion, some [smoothness], [a, b] =>
    let reach := smoothness.greatest (.real zero)
    if reach.le (.real (b - a).lower) then return some 0
    else if reach.le (.real (a - b).lower) then return some 1
    else return none
  | .sdfSmoothSubtract, some [smoothness], [a, b] =>
    if (smoothness.greatest (.real zero)).le (.real (a + b).lower) then return some 0
    else return none
  | _, _, _ => return op.passthrough? (← op.declaredParams params) inputs

/-- The simpler form of an operation some of whose operands are constants that may be
integers. -/
def simplifyExact? (op : Operation) (constants : List (Option (Number R))) :
    Except Fault (Option (Simplified R)) := do
  match op, constants with
  | .clamp, [_, some low, some high] =>
    return some ⟨.clampConst, [0], [.ofNumber low, .ofNumber high]⟩
  | .pow, [_, some exponent] =>
    let rounded ← exponent.operand
    match exponent with
    | .integer n => return some ⟨.powInt, [0], [.integer n]⟩
    | .real _ => return op.simplify? [none, some rounded]
  | _, _ => return none

end Operation

end FieldGraph
