import FieldGraph.Compile.Schedule
import FieldGraph.Program.Basic

/-! # Compilation

From a schedule to a program, and from a function to a program. Debug programs know for each
instruction the node it was made for, and compute what previews show too.
-/

namespace FieldGraph

namespace Schedule

def operands (schedule : Schedule) (node : ExpandedNode) : Except Defect (List Nat) :=
  node.inputs.mapM fun ref =>
    match schedule.address? ref with
    | some address => .ok address
    | none => .error (.noBuffer ref.quote node.id)

def instruction (schedule : Schedule) (debug : Bool) (node : ExpandedNode) (op : Operation)
    (params : List (Literal Float)) : Except Defect (Instruction Float) := do
  let inputs ← schedule.operands node
  let outputs := node.results.filterMap schedule.address?
  return { operation := op, inputs, outputs, params, node := if debug then node.origin else none }

def instructions (schedule : Schedule) (debug : Bool) : Except Defect (List (Instruction Float)) :=
  schedule.order.filterMapM fun node =>
    match node.role with
    | .compute op params => do return some (← schedule.instruction debug node op params)
    | _ => return none

/-- The weight layer of a node that hands a value out; minus one for other nodes. -/
def layer (kind : Kind) (params : List (Literal Float)) : Int :=
  match kind, params with
  | .outputWeight, .integer layer :: _ => layer
  | _, _ => -1

def output (schedule : Schedule) (node : ExpandedNode) : Except Defect Output := do
  let id := node.origin.getD 0
  match node.inputs.head?.bind schedule.address? with
  | some address =>
    return { kind := node.kind, name := node.name, address, node := id
             layer := layer node.kind node.params }
  | none => throw (.outputWithoutBuffer id)

/-- The buffers of the output ports of the compiled function that have one. -/
def portAddresses (schedule : Schedule) : List (Port × Nat) :=
  schedule.topLevel.flatMap fun (id, refs) =>
    refs.zipIdx.filterMap fun (ref, index) =>
      (schedule.address? ref).map fun address => (⟨id, index⟩, address)

def program (schedule : Schedule) (debug : Bool) : Except Defect (Program Float) := do
  let instructions ← schedule.instructions debug
  let outputs ← schedule.outputs.mapM schedule.output
  return {
    instructions, outputs, debug
    bufferCount := schedule.bufferCount
    constants := schedule.constants.map fun (x, address) => (address, x)
    inputs := schedule.inputs
    ports := schedule.portAddresses
    expandedNodes := schedule.expandedNodes }

end Schedule

def Library.compile (library : Library) (id : FunctionId) (debug : Bool) :
    Except CompileError (Program Float) := do
  let expansion ← library.expand id debug
  match expansion.schedule.program debug with
  | .ok program => return program
  | .error defect => throw (.broken (.defect defect))

/-- What is said about a compilation that was not broken off. -/
inductive Verdict where
  | compiled (expandedNodes : Nat)
  | rejected (node : Option Int) (cause : Rejection)

namespace Verdict

def isGood : Verdict → Bool
  | .compiled _ => true
  | .rejected _ _ => false

def node? : Verdict → Option Int
  | .compiled _ => none
  | .rejected node _ => node

def message : Verdict → String
  | .compiled _ => ""
  | .rejected _ cause => cause.message

def expandedNodes : Verdict → Nat
  | .compiled count => count
  | .rejected _ _ => 0

def quote : Verdict → String
  | .compiled count => "CompilationResult(ok, expanded_nodes=" ++ toString count ++ ")"
  | .rejected node cause =>
    let blamed := match node with
      | some id => toString id
      | none => "None"
    "CompilationResult(failed at node " ++ blamed ++ ": " ++ cause.message ++ ")"

end Verdict

/-- Compiles a function: a verdict, with a program if it is good, unless the
compilation breaks off. -/
def Library.judge (library : Library) (id : FunctionId) (debug : Bool) :
    Except Breakdown (Verdict × Option (Program Float)) :=
  match library.compile id debug with
  | .ok program => .ok (.compiled program.expandedNodes, some program)
  | .error (.rejected node cause) => .ok (.rejected node cause, none)
  | .error (.broken cause) => .error cause

end FieldGraph
