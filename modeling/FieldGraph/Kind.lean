/-! # Kinds of nodes

A node stands for a value from outside, hands a value out, computes, or structures a graph. Only
operations survive compilation as instructions.
-/

namespace FieldGraph

/-- The values a sample is given from outside: its position and the signed distance
found there before. -/
inductive Coordinate where
  | x | y | z | sdf
  deriving DecidableEq, Repr, Inhabited

def Coordinate.all : List Coordinate := [.x, .y, .z, .sdf]

inductive Operation where
  | add | subtract | multiply | divide
  | sin | floor | abs | sqrt | fract
  | stepify | wrap
  | min | max
  | distance2 | distance3
  | clamp | clampConst
  | mix | remap | smoothstep | select
  | pow | powInt
  | normalize3
  | noise2 | noise3
  | sdfPlane | sdfBox | sdfSphere | sdfTorus | sdfSmoothUnion | sdfSmoothSubtract
  deriving DecidableEq, Repr, Inhabited

def Operation.all : List Operation :=
  [.add, .subtract, .multiply, .divide, .sin, .floor, .abs, .sqrt, .fract, .stepify, .wrap,
    .min, .max, .distance2, .distance3, .clamp, .clampConst, .mix, .remap, .smoothstep, .select,
    .pow, .powInt, .normalize3, .noise2, .noise3, .sdfPlane, .sdfBox, .sdfSphere, .sdfTorus,
    .sdfSmoothUnion, .sdfSmoothSubtract]

inductive Kind where
  | constant
  | input (coordinate : Coordinate)
  | customInput
  | outputSdf | outputWeight | outputType | customOutput
  | operation (op : Operation)
  | preview
  | expression | function | relay | comment
  deriving DecidableEq, Repr, Inhabited

namespace Kind

/-- The kinds in catalog order. A kind's number is its place in this list. -/
def all : List Kind :=
  [.constant] ++ Coordinate.all.map .input ++
    [.customInput, .outputSdf, .outputWeight, .outputType, .customOutput] ++
    Operation.all.map .operation ++
    [.preview, .expression, .function, .relay, .comment]

def number (kind : Kind) : Nat := all.idxOf kind

def ofNumber? (n : Int) : Option Kind :=
  if 0 ≤ n then all[n.toNat]? else none

/-- Whether nodes of the kind receive a value from outside a graph. -/
def isInput : Kind → Bool
  | .input _ | .customInput => true
  | _ => false

/-- The kinds that hand a value out of a graph, in the order outputs are listed. -/
def outputs : List Kind := [.outputSdf, .outputWeight, .outputType, .customOutput]

/-- Whether nodes of the kind hand a value out of a graph. -/
def isOutput (kind : Kind) : Bool := outputs.contains kind

/-- The only name that inputs or outputs are declared with, for kinds told apart by kind alone. -/
def fixedName? : Kind → Option String
  | .input .x => some "x"
  | .input .y => some "y"
  | .input .z => some "z"
  | .input .sdf => some "sdf"
  | .outputSdf => some "sdf"
  | .outputType => some "type"
  | _ => none

def coordinate? : Kind → Option Coordinate
  | .input c => some c
  | _ => none

end Kind

end FieldGraph
