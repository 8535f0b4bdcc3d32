import FieldGraph.Graph.Basic

/-! # Programs

A program is a list of instructions over numbered buffers. Every buffer is written once: before the
run, with an input or a constant, or by one instruction.
-/

namespace FieldGraph

/-- One operation on buffers. -/
structure Instruction (R : Type) where
  operation : Operation
  inputs : List Nat
  outputs : List Nat
  params : List (Literal R) := []
  /-- The node the instruction was made for; kept in debug programs. -/
  node : Option Int := none

/-- A result that a program hands out. -/
structure Output where
  kind : Kind
  name : String
  address : Nat
  node : Int
  /-- The layer, for weights, and minus one for other outputs. -/
  layer : Int := -1

/-- Instructions with the buffers they work on. -/
structure Program (R : Type) where
  /-- The instructions, each behind those whose results it reads. -/
  instructions : List (Instruction R)
  bufferCount : Nat
  constants : List (Nat × R)
  inputs : List (Coordinate × Nat)
  outputs : List Output
  /-- The buffers that hold the values of output ports of the compiled graph. -/
  ports : List (Port × Nat)
  /-- Whether instructions know their nodes and previews are compiled. -/
  debug : Bool := false
  expandedNodes : Nat := 0

def Instruction.quote {R : Type} (instruction : Instruction R) : String :=
  let addresses (list : List Nat) := "[" ++ ", ".intercalate (list.map toString) ++ "]"
  "Instruction(" ++ instruction.operation.entry.name ++ ", in=" ++ addresses instruction.inputs ++
    ", out=" ++ addresses instruction.outputs ++ ")"

namespace Program

variable {R : Type}

def output? (program : Program R) (kind : Kind) (layer : Int := -1) : Option Output :=
  program.outputs.find? fun output =>
    output.kind == kind && (decide (layer < 0) || output.layer == layer)

def inputAddress? (program : Program R) (coordinate : Coordinate) : Option Nat :=
  program.inputs.lookup coordinate

/-- The buffer with the value of an output port of the compiled graph. -/
def portAddress? (program : Program R) (port : Port) : Option Nat := program.ports.lookup port

end Program

end FieldGraph
