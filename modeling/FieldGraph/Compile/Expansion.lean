import FieldGraph.Compile.Error
import FieldGraph.Compile.Frame
import FieldGraph.Operation.Range

/-! # Expansions

The expansion of a function has operations, coordinates and outputs as its only nodes. Values
between them are ports of nodes or constants. Nodes are numbered in the order of their creation, an
order in which they can be evaluated.

Operations on constants are computed at once, in single precision like at run time, and operations
with a simpler form for their constant operands are replaced by it.
-/

namespace FieldGraph

/-- A value in an expansion. -/
inductive Ref where
  | port (node : Nat) (index : Nat)
  | constant (x : Float)

namespace Ref

/-- Whether two values are equal or both undefined constants, or the same port. Undefined constants
have no identity by which they could be told apart. -/
def same : Ref → Ref → Bool
  | .port n i, .port m j => n == m && i == j
  | .constant x, .constant y => Arithmetic.eq x y || (Arithmetic.isNaN x && Arithmetic.isNaN y)
  | _, _ => false

def constant? : Ref → Option Float
  | .constant x => some x
  | .port _ _ => none

def node? : Ref → Option Nat
  | .port node _ => some node
  | .constant _ => none

def quote : Ref → String
  | .port node index => toString node ++ ":" ++ toString index
  | .constant x => Decimal.text x

end Ref

/-- What an expanded node does. -/
inductive Role where
  | coordinate (c : Coordinate)
  | compute (op : Operation) (params : List (Literal Float))
  /-- Hands a value out: an output or preview node with its name. -/
  | sink (kind : Kind) (name : String) (params : List (Literal Float))

/-- A node of an expansion. -/
structure ExpandedNode where
  id : Nat
  role : Role
  inputs : List Ref := []
  /-- The node of the compiled function that this one was made for. -/
  origin : Option Int := none

namespace ExpandedNode

def kind (node : ExpandedNode) : Kind :=
  match node.role with
  | .coordinate c => .input c
  | .compute op _ => .operation op
  | .sink kind _ _ => kind

def params (node : ExpandedNode) : List (Literal Float) :=
  match node.role with
  | .coordinate _ => []
  | .compute _ params => params
  | .sink _ _ params => params

def name (node : ExpandedNode) : String :=
  match node.role with
  | .sink _ name _ => name
  | _ => ""

def outputCount (node : ExpandedNode) : Nat :=
  match node.role with
  | .coordinate _ => 1
  | .compute op _ => op.entry.outputs.length
  | .sink _ _ _ => 0

def results (node : ExpandedNode) : List Ref :=
  (List.range node.outputCount).map (.port node.id)

end ExpandedNode

/-- Where the values of a node are kept: the path of its frame, and its number. -/
abbrev Site := List Int × Int

/-- An expansion in the making. -/
structure Expansion where
  nodes : List ExpandedNode := []
  inputs : Table Coordinate Nat := {}
  /-- The nodes that hand values out, in order of creation. -/
  outputs : List Nat := []
  /-- The values of the output ports of the nodes that are expanded. -/
  values : Table Site (List Ref) := {}
  /-- The values of the nodes of the compiled function; those handed out at outputs and previews. -/
  topLevel : Table Int (List Ref) := {}

abbrev Expanding := StateT Expansion (Except CompileError)

namespace Expanding

def reject {α : Type} (node : Int) (cause : Rejection) : Expanding α :=
  throw (.rejected (some node) cause)

def breakOff {α : Type} (cause : Breakdown) : Expanding α := throw (.broken cause)

def addNode (role : Role) (inputs : List Ref) (origin : Option Int) : Expanding ExpandedNode := do
  let expansion ← get
  let node : ExpandedNode := { id := expansion.nodes.length + 1, role, inputs, origin }
  set { expansion with nodes := expansion.nodes ++ [node] }
  return node

/-- The value of a coordinate, which gets a node when it is first asked for. -/
def coordinate (c : Coordinate) : Expanding Ref := do
  match (← get).inputs.get? c with
  | some id => return .port id 0
  | none =>
    let node ← addNode (.coordinate c) [] none
    modify fun expansion => { expansion with inputs := expansion.inputs.insert c node.id }
    return .port node.id 0

/-- The results of an operation on constants, in single precision. -/
def fold (op : Operation) (params : List (Literal Float)) (inputs : List Float) :
    Except Fault (List Ref) := do
  let results ← op.single params (inputs.map Precision.narrow)
  return results.map fun x => .constant (Precision.widen x)

/-- The form of an operation that is used: the simpler one, if its constant operands allow it. -/
def simplified (op : Operation) (inputs : List Ref) (params : List (Literal Float)) :
    Operation × List Ref × List (Literal Float) :=
  match op.simplify? (inputs.map Ref.constant?) with
  | some simpler => (simpler.operation, simpler.kept.filterMap (inputs[·]?), simpler.params)
  | none => (op, inputs, params)

/-- The constants that some values are, if all of them are. -/
def constants? (inputs : List Ref) : Option (List Float) := inputs.mapM Ref.constant?

/-- The results of an operation: computed, if all operands are constant, or those of
a new node. -/
def emit (op : Operation) (inputs : List Ref) (params : List (Literal Float)) (origin : Int) :
    Expanding (List Ref) := do
  let (op, inputs, params) := simplified op inputs params
  let known := if op.isPure && !inputs.isEmpty then constants? inputs else none
  match known with
  | some constants =>
    match fold op params constants with
    | .ok results => return results
    | .error cause => breakOff (.fault cause)
  | none => return (← addNode (.compute op params) inputs (some origin)).results

def addOutput (node : Node) (params : List (Literal Float)) (value : Ref) : Expanding Unit := do
  let added ← addNode (.sink node.kind node.definitionName params) [value] (some node.id)
  modify fun expansion => { expansion with
    outputs := expansion.outputs ++ [added.id]
    topLevel := expansion.topLevel.insert node.id [value] }

end Expanding

end FieldGraph
