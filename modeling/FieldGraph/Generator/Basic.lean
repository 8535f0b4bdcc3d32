import FieldGraph.Compile.Compile
import FieldGraph.Run.Plan
import FieldGraph.Voxel.Buffer

/-! # Generators

A generator samples the field that a function describes, by the last program that compiled. All its
runs share one machine.
-/

namespace FieldGraph

/-- A compiled field with the settings of its evaluation. -/
structure Generator where
  program : Option (Nat × Program Float) := none
  nextSerial : Nat := 0
  verdict : Option Verdict := none
  optimized : Bool := true
  subdivided : Bool := true
  /-- The largest extent of a part of a block. -/
  partSize : Nat := 16
  machine : Machine Float32 := {}

/-- Why a generator refuses a request. -/
inductive GenerateError where
  | notAPosition (given : List (Number Float))
  | notSingle (channel : Voxel.Channel)
  | lengthsDiffer (x y z : Nat)
  | negativeDetail
  | smallPart (given : Number Float)
  | noIterations
  | conversion (cause : ConversionError)
  | run (cause : RunError)

def GenerateError.message : GenerateError → String
  | .notAPosition given => "Expected a 3D position, got " ++ bracketed (given.map Number.quote)
  | .notSingle channel => "Channel " ++ channel.name ++ " cannot be generated as a single value"
  | .lengthsDiffer x y z =>
    "Position arrays have different lengths: " ++ toString x ++ ", " ++ toString y ++ ", " ++
      toString z
  | .negativeDetail => "negative shift count"
  | .smallPart given => "Subdivision size must be at least 1, got " ++ given.quote
  | .noIterations => "float division by zero"
  | .conversion cause => cause.message
  | .run cause => cause.message

/-- A computation of a generator. What it did before it was refused stays done. -/
abbrev Generating := Fallible GenerateError Generator

namespace Generating

variable {α : Type}

def ofConversion (result : Except ConversionError α) : Generating α :=
  Fallible.ofExcept (result.mapError .conversion)

def ofFault (result : Except Fault α) : Generating α :=
  Fallible.ofExcept (result.mapError fun cause => .run (.fault cause))

def onMachine (action : Running Float32 α) : Generating α :=
  Fallible.ofOutcome fun generator =>
    let (result, machine) := action.outcome generator.machine
    (result.mapError .run, { generator with machine })

def setPartSize (size : Number Float) : Generating Unit := do
  let whole ← ofConversion size.truncate
  if whole < 1 then throw (.smallPart size)
  modify fun generator => { generator with partSize := whole.toNat }

end Generating

namespace Generator

/-- Compiles a function. A good program replaces the one in use. -/
def compile (generator : Generator) (library : Library) (id : FunctionId) (debug : Bool) :
    Except Breakdown (Verdict × Generator) := do
  let (verdict, program) ← library.judge id debug
  match program with
  | some program =>
    return (verdict, { generator with
      verdict := some verdict
      program := some (generator.nextSerial, program)
      nextSerial := generator.nextSerial + 1 })
  | none => return (verdict, { generator with verdict := some verdict })

def isGood (generator : Generator) : Bool := generator.program.isSome

def portAddress? (generator : Generator) (port : Port) : Option Nat :=
  generator.program.bind fun (_, program) => program.portAddress? port

/-- The intervals of the output ports of the compiled graph over a box. -/
def analyze (generator : Generator) (box : Box Float) :
    Except Fault (List (Port × Interval Float)) :=
  match generator.program with
  | none => .ok []
  | some (_, program) => do return program.portRanges (← program.ranges box)

end Generator

namespace Library

/-- Replaces the graph of a function by flat ground: the height above a plane. -/
def loadPlane (function : FunctionId) (height : Value) : Editing Library Unit := do
  clear function
  let y ← createNode function (.input .y) none
  let plane ← createNode function (.operation .sdfPlane) none
  let output ← createNode function .outputSdf none
  setDefault function ⟨plane, 1⟩ height
  connect function ⟨⟨y, 0⟩, ⟨plane, 0⟩⟩
  connect function ⟨⟨plane, 0⟩, ⟨output, 0⟩⟩

end Library

end FieldGraph
