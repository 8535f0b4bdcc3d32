import FieldGraph.Fallible
import FieldGraph.Operation.Range
import FieldGraph.Program.Basic
import FieldGraph.Value

/-! # Machines

A machine runs a program over many samples at once: each step runs over all samples before the next
one starts. A machine keeps its buffers from run to run, as long as the program and the number of
samples stay the same; programs are told apart by a serial number.

Samples are numbers of the type `α`, literals numbers of the type `R`.
-/

namespace FieldGraph

open Arithmetic

/-- What a step does with its instruction. -/
inductive StepMode (α : Type) where
  /-- Computes the results. -/
  | execute
  /-- Copies the operand at a place to the result. -/
  | copy (source : Nat)
  /-- Fills each result with one number. -/
  | constant (values : List α)

/-- A step of a run. -/
structure Step (α : Type) where
  index : Nat
  mode : StepMode α

/-- Why a run stops. -/
inductive RunError where
  | fault (cause : Fault)
  | noSamples
  /-- An input has neither one number nor one for every sample. -/
  | wrongLength (given expected : Nat)
  | noBuffer (address : Int) (count : Nat)

def RunError.message : RunError → String
  | .fault .integerTooLarge => "int too large to convert to float"
  | .fault .divisionByZero => "float division by zero"
  | .fault .malformed => "malformed operands"
  | .noSamples => "Buffers need at least one sample"
  | .wrongLength given expected =>
    "could not broadcast input array from shape (" ++ toString given ++ ",) into shape (" ++
      toString expected ++ ",)"
  | .noBuffer address count =>
    "Buffer address " ++ toString address ++ " out of range (" ++ toString count ++ " buffers)"

/-- The buffers of a program. -/
structure Machine (α : Type) where
  serial : Option Nat := none
  buffers : List (List α) := []
  size : Nat := 0

/-- A computation on a machine. What it did before it stopped stays done. -/
abbrev Running (α : Type) := Fallible RunError (Machine α)

/-- The functions that operations compute, sample by sample. -/
class Kernels (R α : Type) where
  /-- What an operation computes from one sample of each operand. -/
  compute : Operation → List (Literal R) → List α → Except Fault (List α)
  /-- Whether an operation can be computed does not depend on the samples. -/
  isOk_compute : ∀ (op : Operation) (params : List (Literal R)) {a b : List α},
    a.length = b.length → (compute op params a).isOk = (compute op params b).isOk

instance {R α : Type} [Arithmetic R] [Arithmetic α] [Precision R α] : Kernels R α where
  compute := Operation.kernel
  isOk_compute op params := op.isOk_kernel params

def Instruction.apply {R α : Type} [Kernels R α] (instruction : Instruction R)
    (operands : List α) : Except Fault (List α) :=
  Kernels.compute instruction.operation instruction.params operands

/-- The samples of some columns, row by row. A column that is too short is continued
with zeros. -/
def rows {α : Type} [Arithmetic α] (columns : List (List α)) : Nat → List (List α)
  | 0 => []
  | count + 1 => columns.map (·.headD zero) :: rows (columns.map List.tail) count

def column {α : Type} [Arithmetic α] (table : List (List α)) (place : Nat) : List α :=
  table.map (·.getD place zero)

namespace Machine

variable {R α : Type}

def buffer (machine : Machine α) (address : Nat) : List α := machine.buffers.getD address []

def write (machine : Machine α) (address : Nat) (samples : List α) : Machine α :=
  { machine with buffers := machine.buffers.set address samples }

def fill (machine : Machine α) (address : Nat) (value : α) : Machine α :=
  machine.write address (List.replicate machine.size value)

def writeAll (machine : Machine α) (addresses : List Nat) (columns : List (List α)) : Machine α :=
  (addresses.zip columns).foldl (fun machine (address, samples) => machine.write address samples)
    machine

/-- New buffers for a program: constants in theirs, zeros in the others. -/
def allocate [Arithmetic α] [Precision R α] (serial : Nat) (program : Program R) (size : Nat) :
    Machine α :=
  let empty : Machine α :=
    { serial := some serial, size
      buffers := List.replicate program.bufferCount (List.replicate size zero) }
  program.constants.foldl (fun machine (address, value) =>
    machine.fill address (Precision.narrow value)) empty

/-- Whether the buffers can be kept for a program and a number of samples. -/
def isReady (machine : Machine α) (serial : Nat) (program : Program R) (size : Nat) : Bool :=
  machine.serial == some serial && machine.buffers.length == program.bufferCount &&
    machine.size == size

variable [Arithmetic α] [Kernels R α]

/-- The results of an instruction for all samples, written to its buffers. -/
def runInstruction (machine : Machine α) (instruction : Instruction R) :
    Except Fault (Machine α) := do
  let operands := rows (instruction.inputs.map machine.buffer) machine.size
  let results ← operands.mapM instruction.apply
  return machine.writeAll instruction.outputs
    ((List.range instruction.outputs.length).map (column results))

def runStep (program : Program R) (machine : Machine α) (step : Step α) :
    Except Fault (Machine α) :=
  match program.instructions[step.index]? with
  | none => .ok machine
  | some instruction =>
    match step.mode with
    | .execute => machine.runInstruction instruction
    | .copy source =>
      .ok (machine.writeAll (instruction.outputs.take 1)
        [machine.buffer (instruction.inputs.getD source 0)])
    | .constant values =>
      .ok (machine.writeAll instruction.outputs (values.map (List.replicate machine.size)))

def runSteps (program : Program R) : List (Step α) → Machine α → Except Fault Unit × Machine α
  | [], machine => (.ok (), machine)
  | step :: steps, machine =>
    match machine.runStep program step with
    | .ok next => runSteps program steps next
    | .error fault => (.error fault, machine)

end Machine

/-- The steps that execute every instruction. -/
def Program.allSteps {R α : Type} (program : Program R) : List (Step α) :=
  (List.range program.instructions.length).map fun index => ⟨index, .execute⟩

namespace Running

variable {R α : Type}

/-- Makes a machine ready for a program and a number of samples. -/
def prepare [Arithmetic α] [Precision R α] (serial : Nat) (program : Program R) (size : Nat) :
    Running α Unit := do
  if size = 0 then throw .noSamples
  let machine ← get
  if !machine.isReady serial program size then
    set (Machine.allocate serial program size : Machine α)

def setInput (program : Program R) (coordinate : Coordinate) (values : List α) :
    Running α Unit := do
  let machine ← get
  match program.inputAddress? coordinate with
  | none => return
  | some address =>
    if values.length = machine.size then set (machine.write address values)
    else
      match values with
      | [value] => set (machine.fill address value)
      | _ => throw (.wrongLength values.length machine.size)

def execute [Arithmetic α] [Kernels R α] (program : Program R) (steps : List (Step α)) :
    Running α Unit :=
  Fallible.ofOutcome fun machine =>
    match Machine.runSteps program steps machine with
    | (.ok (), after) => (.ok (), after)
    | (.error fault, after) => (.error (.fault fault), after)

end Running

def Machine.bufferAt {α : Type} (machine : Machine α) (address : Int) :
    Except RunError (List α) :=
  match atPlace? machine.buffers address with
  | some samples => .ok samples
  | none => .error (.noBuffer address machine.buffers.length)

end FieldGraph
