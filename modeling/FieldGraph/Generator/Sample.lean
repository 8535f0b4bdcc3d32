import FieldGraph.Generator.Basic

/-! # Samples

Values at single positions and at lists of positions. Positions are integers;
fractions are cut off. The previous signed distance is zero.
-/

namespace FieldGraph

/-- A number in single precision, rounded to a double first. -/
def sampleOfNumber : Number Float → Except ConversionError Float32
  | .integer n =>
    if Double.admits n then .ok (Float32.ofInt (Double.roundInt n))
    else .error .tooLarge
  | .real x => .ok x.toFloat32

def integers? (numbers : List (Number Float)) : Option (List Int) :=
  numbers.mapM fun number => match number with
    | .integer n => some n
    | .real _ => none

/-- Whether some integers are all signed words of 64 bits, or all unsigned ones too large for those.
-/
def fitWords (integers : List Int) : Bool :=
  integers.all (fun n => -Int.pow 2 63 ≤ n && n < Int.pow 2 63) ||
    integers.all fun n => Int.pow 2 63 ≤ n && n < Int.pow 2 64

/-- Some numbers in single precision. Integers that fit one kind of machine words are rounded once,
other numbers to doubles first. -/
def samplesOf (numbers : List (Number Float)) : Except ConversionError (List Float32) :=
  match integers? numbers with
  | some integers =>
    if fitWords integers then .ok (integers.map Float32.ofInt)
    else numbers.mapM sampleOfNumber
  | none => numbers.mapM sampleOfNumber

structure Position where
  x : Int
  y : Int
  z : Int
  deriving DecidableEq, Repr

def Position.ofNumbers : List (Number Float) → Except GenerateError Position
  | [x, y, z] => Except.mapError .conversion do
      return ⟨← x.truncate, ← y.truncate, ← z.truncate⟩
  | given => .error (.notAPosition given)

namespace Generating

def position (given : List (Number Float)) : Generating Position :=
  Fallible.ofExcept (Position.ofNumbers given)

/-- Sets an input. It is only asked for if the program has it. -/
def loadInput (program : Program Float)
    (inputs : Coordinate → Except ConversionError (List Float32)) (coordinate : Coordinate) :
    Generating Unit := do
  if (program.inputAddress? coordinate).isSome then
    let values ← ofConversion (inputs coordinate)
    onMachine (Running.setInput program coordinate values)

def runProgram (serial : Nat) (program : Program Float) (size : Nat)
    (inputs : Coordinate → Except ConversionError (List Float32))
    (steps : List (Step Float32)) : Generating Unit := do
  onMachine (Running.prepare serial program size)
  Coordinate.all.forM (loadInput program inputs)
  onMachine (Running.execute program steps)

def inputsAt (position : Position) : Coordinate → Except ConversionError (List Float32)
  | .x => samplesOf [.integer position.x]
  | .y => samplesOf [.integer position.y]
  | .z => samplesOf [.integer position.z]
  | .sdf => return [0]

def inputsAlong (xs ys zs : List Float32) : Coordinate → Except ConversionError (List Float32)
  | .x => return xs
  | .y => return ys
  | .z => return zs
  | .sdf => return [0]

def outputSamples (output : Output) : Generating (List Float32) := do
  return (← get).machine.buffer output.address

def channelKind (channel : Voxel.Channel) : Generating Kind :=
  match channel with
  | .sdf => return .outputSdf
  | .type => return .outputType
  | .indices | .weights => throw (.notSingle channel)

/-- The value of a channel at a position; zero if there is no program, or none for the
channel. -/
def single (given : List (Number Float)) (channel : Voxel.Channel) : Generating Float32 := do
  match (← get).program with
  | none => return 0
  | some (serial, program) =>
    let kind ← channelKind channel
    let place ← position given
    runProgram serial program 1 (inputsAt place) program.allSteps
    match program.output? kind with
    | none => return 0
    | some output => return (← outputSamples output).headD 0

def singleOutputs (given : List (Number Float)) : Generating (List (Int × Float32)) := do
  match (← get).program with
  | none => return []
  | some (serial, program) =>
    let place ← position given
    runProgram serial program 1 (inputsAt place) program.allSteps
    program.outputs.mapM fun output => do
      return (output.node, (← outputSamples output).headD 0)

/-- The values of a channel at many positions. -/
def series (xs ys zs : List (Number Float)) (channel : Voxel.Channel) :
    Generating (List Float32) := do
  let xs ← xs.mapM fun x => ofConversion (sampleOfNumber x)
  let ys ← ys.mapM fun y => ofConversion (sampleOfNumber y)
  let zs ← zs.mapM fun z => ofConversion (sampleOfNumber z)
  if xs.length ≠ ys.length ∨ ys.length ≠ zs.length then
    throw (.lengthsDiffer xs.length ys.length zs.length)
  if xs.isEmpty then return []
  let zeros := List.replicate xs.length (0 : Float32)
  match (← get).program with
  | none => return zeros
  | some (serial, program) =>
    let kind ← channelKind channel
    runProgram serial program xs.length (inputsAlong xs ys zs) program.allSteps
    match program.output? kind with
    | none => return zeros
    | some output => outputSamples output

/-- The extent of the cube of samples that is evaluated to measure a program. -/
def measuredSide (singular : Bool) : Nat := if singular then 4 else 16

def measuredSamples (side : Nat) : List (Float32 × Float32 × Float32) :=
  let axis := (List.range side).map Float32.ofNat
  axis.flatMap fun x => axis.flatMap fun y => axis.map fun z => (x, y, z)

/-- Evaluates the measured samples once: one by one, or all at once. -/
def measureOnce (serial : Nat) (program : Program Float) (singular : Bool) : Generating Unit := do
  let samples := measuredSamples (measuredSide singular)
  if singular then
    samples.forM fun (x, y, z) =>
      runProgram serial program 1 (inputsAlong [x] [y] [z]) program.allSteps
  else
    runProgram serial program samples.length
      (inputsAlong (samples.map (·.1)) (samples.map (·.2.1)) (samples.map (·.2.2)))
      program.allSteps

/-- Evaluates samples a number of times to measure them. The result says whether time passed, and
lists the nodes of a debug program. -/
def measure (singular : Bool) (iterations : Int) : Generating (Bool × List Int) := do
  match (← get).program with
  | none => return (false, [])
  | some (serial, program) =>
    (List.range iterations.toNat).forM fun _ => measureOnce serial program singular
    if iterations = 0 then throw .noIterations
    if iterations < 0 then return (false, [])
    let nodes := program.instructions.filterMap (·.node)
    return (true, (distinct nodes).foldr Graph.insertAscending [])

end Generating

end FieldGraph
