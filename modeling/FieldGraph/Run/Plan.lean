import FieldGraph.Run.Machine

/-! # Plans

Given an interval for each input, every buffer of a program gets an interval that holds all values
it can take. A plan lists the steps that requested buffers need, found from the last instruction to
the first. An instruction whose results are known numbers becomes a constant, one whose result
equals one of its operands becomes a copy, and any other is executed and needs all its operands.

The known numbers come from the instruction itself, run on samples.
-/

namespace FieldGraph

open Arithmetic

/-- Intervals for the inputs of a program. -/
abbrev Box (R : Type) := Coordinate → Option (Interval R)

namespace Box

variable {R : Type} [Arithmetic R]

def along (lower upper : List R) (axis : Nat) : Option (Interval R) :=
  match lower[axis]?, upper[axis]? with
  | some a, some b => some (.between a b)
  | _, _ => none

def between (lower upper : List R) : Box R
  | .x => along lower upper 0
  | .y => along lower upper 1
  | .z => along lower upper 2
  | .sdf => none

end Box

namespace Program

variable {R : Type} [Arithmetic R]

/-- The intervals of the buffers before any instruction. An input without an interval
can take any value. -/
def inputRanges (program : Program R) (box : Box R) : List (Interval R) :=
  let withInputs := program.inputs.foldl (fun ranges (coordinate, address) =>
    ranges.set address ((box coordinate).getD .whole))
    (List.replicate program.bufferCount .whole)
  program.constants.foldl (fun ranges (address, value) => ranges.set address (.single value))
    withInputs

def rangesAt (ranges : List (Interval R)) (addresses : List Nat) : List (Interval R) :=
  addresses.map fun address => ranges.getD address .whole

def rangeStep (ranges : List (Interval R)) (instruction : Instruction R) :
    Except Fault (List (Interval R)) := do
  let results ← instruction.operation.range instruction.params (rangesAt ranges instruction.inputs)
  return (instruction.outputs.zip results).foldl
    (fun ranges (address, result) => ranges.set address result) ranges

def ranges (program : Program R) (box : Box R) : Except Fault (List (Interval R)) :=
  program.instructions.foldlM rangeStep (program.inputRanges box)

/-- The intervals of the output ports of the compiled graph. -/
def portRanges (program : Program R) (ranges : List (Interval R)) : List (Port × Interval R) :=
  program.ports.map fun (port, address) => (port, ranges.getD address .whole)

end Program

/-- Numbers that are known for some buffers. -/
abbrev Known (α : Type) := Table Nat α

namespace Known

variable {R α : Type}

/-- The numbers of constants, and of inputs that take one value only. -/
def initial [Arithmetic R] [Precision R α] (program : Program R) (ranges : List (Interval R)) :
    Known α :=
  let constants : Known α := program.constants.foldl (fun known (address, value) =>
    known.insert address (Precision.narrow value)) {}
  program.inputs.foldl (fun known (_, address) =>
    let range := ranges.getD address .whole
    if range.isSingle then known.insert address (Precision.narrow range.lower) else known)
    constants

/-- The numbers known after an instruction: its results, if its operands are known. -/
def step [Kernels R α] (known : Known α) (instruction : Instruction R) :
    Except Fault (Known α) := do
  match instruction.inputs.mapM known.get? with
  | none => return known
  | some operands =>
    let results ← instruction.apply operands
    return (instruction.outputs.zip results).foldl
      (fun known (address, value) => known.insert address value) known

/-- The buffers that hold the same known number for every sample. -/
def ofProgram [Arithmetic R] [Precision R α] [Kernels R α] (program : Program R)
    (ranges : List (Interval R)) : Except Fault (Known α) :=
  program.instructions.foldlM step (initial program ranges)

/-- The numbers to try for a buffer: the known one, or the ends of its interval. -/
def corners [Arithmetic R] [Precision R α] (known : Known α) (ranges : List (Interval R))
    (address : Nat) : List α :=
  match known.get? address with
  | some value => [value]
  | none =>
    let range := ranges.getD address .whole
    [Precision.narrow range.lower, Precision.narrow range.upper]

end Known

/-- All ways to choose one element of each list, the last list varying fastest. -/
def choices {α : Type} : List (List α) → List (List α)
  | [] => [[]]
  | first :: rest => first.flatMap fun item => (choices rest).map (item :: ·)

/-- The number that all elements of a list are, if it is finite. -/
def agreed? {α : Type} [Arithmetic α] : List α → Option α
  | [] => none
  | first :: rest => if isFinite first && rest.all (eq · first) then some first else none

namespace Program

variable {R α : Type} [Arithmetic R] [Arithmetic α] [Precision R α] [Kernels R α]

/-- The results of an instruction that are the same for all corners of its operands' intervals. -/
def saturated? (instruction : Instruction R) (ranges : List (Interval R)) (known : Known α) :
    Except Fault (Option (List α)) := do
  let operands := choices (instruction.inputs.map (known.corners ranges))
  let results ← operands.mapM instruction.apply
  return (List.range instruction.outputs.length).mapM fun place => agreed? (column results place)

/-- The results of an instruction, if their intervals are single numbers and the corners
agree. -/
def settled? (instruction : Instruction R) (ranges : List (Interval R)) (known : Known α) :
    Except Fault (Option (List α)) :=
  if (rangesAt ranges instruction.outputs).all Interval.isSingle then
    saturated? instruction ranges known
  else .ok none

/-- The place of the operand that the only result of an instruction equals, if any. -/
def copied? (instruction : Instruction R) (ranges : List (Interval R)) : Option Nat :=
  if instruction.outputs.length = 1 then
    instruction.operation.passthrough? instruction.params (rangesAt ranges instruction.inputs)
  else none

/-- What to do with an instruction whose results are needed. -/
def stepMode (instruction : Instruction R) (ranges : List (Interval R)) (known : Known α) :
    Except Fault (StepMode α) :=
  match instruction.outputs.mapM known.get? with
  | some values => .ok (.constant values)
  | none => do
      match ← settled? instruction ranges known with
      | some values => return .constant values
      | none =>
        match copied? instruction ranges with
        | some place => return .copy place
        | none => return .execute

def operandsOf (instruction : Instruction R) : StepMode α → List Nat
  | .execute => instruction.inputs
  | .copy source => instruction.inputs.drop source |>.take 1
  | .constant _ => []

/-- The steps for needed buffers, from instructions given with their places, last
first. -/
def planBackward (ranges : List (Interval R)) (known : Known α) :
    List (Instruction R × Nat) → List Nat → List (Step α) → Except Fault (List (Step α))
  | [], _, steps => .ok steps
  | (instruction, index) :: earlier, needed, steps =>
    if instruction.outputs.any needed.contains then do
      let mode ← stepMode instruction ranges known
      planBackward ranges known earlier (operandsOf instruction mode ++ needed)
        (⟨index, mode⟩ :: steps)
    else planBackward ranges known earlier needed steps

/-- The steps that some buffers need when every buffer stays in its interval. -/
def plan (program : Program R) (ranges : List (Interval R)) (needed : List Nat) :
    Except Fault (List (Step α)) := do
  let known ← Known.ofProgram program ranges
  planBackward ranges known program.instructions.zipIdx.reverse needed []

end Program

end FieldGraph
