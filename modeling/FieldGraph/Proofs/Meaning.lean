import FieldGraph.Compile.Expand
import FieldGraph.Proofs.Results

/-! # What a graph means

The values of the nodes of a graph at one point, found by following connections back to
where they start, through the functions that are embedded on the way. Nothing is
expanded, merged or scheduled here: this is what a program has to compute.

Numbers that do not depend on the point are literals. Literals stay in double precision
until an operation takes them, and what an operation makes of literals only is a literal
again. They are told apart from samples because of one rule: a power to a literal that
is an integer is the power to that integer.

The values of a node are found by recursion on a depth; they do not depend on it, once
it is large enough.
-/

namespace FieldGraph

/-- A point, by its coordinates. -/
abbrev Point := Coordinate → Float32

/-- A number that a graph denotes at a point. -/
inductive Quantity where
  /-- A number that is the same at all points. -/
  | literal (x : Float)
  /-- A number that belongs to the point. -/
  | sample (x : Float32)

namespace Quantity

/-- The number in single precision. -/
def single : Quantity → Float32
  | literal x => Precision.narrow x
  | sample x => x

def isLiteral : Quantity → Bool
  | literal _ => true
  | sample _ => false

end Quantity

namespace Operation

/-- The results of an operation, which are literals if all operands are and no noise is
sampled. -/
def resultsOf (op : Operation) (params : List (Literal Float)) (operands : List Quantity) :
    Option (List Quantity) := do
  let results ← (op.single params (operands.map Quantity.single)).toOption
  if op.isPure && !operands.isEmpty && operands.all Quantity.isLiteral then
    return results.map fun x => .literal (Precision.widen x)
  else return results.map .sample

/-- What an operation makes of its operands. -/
def denote (op : Operation) (params : List (Literal Float)) (operands : List Quantity) :
    Option (List Quantity) :=
  match op, operands with
  | .pow, [base, .literal exp] =>
    match Arithmetic.toInt? exp with
    | some n => resultsOf .powInt [.integer n] [base]
    | none => resultsOf .pow params [base, .literal exp]
  | _, _ => resultsOf op params operands

end Operation

namespace Expression.Tree

mutual

/-- The value of a tree whose variables have values. -/
def denote (bindings : Table String Quantity) : Tree → Option Quantity
  | .number x => some (.literal x)
  | .var name => bindings.get? name
  | .binary op left right => do
      (← op.operation.denote [] [← denote bindings left, ← denote bindings right]).head?
  | .call fn args => do
      (← fn.operation.denote [] (← denoteAll bindings args)).head?

/-- The values of some trees. -/
def denoteAll (bindings : Table String Quantity) : List Tree → Option (List Quantity)
  | [] => some []
  | tree :: trees => do return (← denote bindings tree) :: (← denoteAll bindings trees)

end

end Expression.Tree

namespace Node

/-- The value of an expression node, from those of its input ports. An empty expression
is zero. -/
def expressionValue (node : Node) (operands : List Quantity) : Option Quantity :=
  match Expression.parse Expression.Callable.catalog node.expressionText with
  | .ok (some tree) =>
    tree.denote ((node.inputs.zip operands).foldl
      (fun table (port, value) => table.insert port.name value) {})
  | .ok none => some (.literal 0)
  | .error _ => none

/-- The values of the output ports of a node, from the values it is made of. -/
def results (lib : Library) (node : Node) (operands : List Quantity) :
    Option (List Quantity) :=
  match node.kind with
  | .constant =>
    match node.params.head? with
    | some (.real x) => some [.literal x]
    | _ => some [.literal 0]
  | .input _ | .customInput | .relay => some (operands.take 1)
  | .function => some operands
  | .expression => do return [← node.expressionValue operands]
  | .outputSdf | .outputWeight | .outputType | .customOutput | .preview => some []
  | .operation op => op.denote (node.params.map (Setting.freeze lib)) operands
  | .comment => none

end Node

/-- Whether nodes of a kind hand a value out of a program. -/
def Kind.handsOut (kind : Kind) : Bool := kind.isOutput || kind == .preview

/-- The values of the output ports of nodes, as far as they are known. -/
abbrev Valuation := Frame → Int → Option (List Quantity)

namespace Frame

/-- The function of a frame has a node. -/
abbrev Has (frame : Frame) (node : Node) : Prop := frame.function.graph.node? node.id = some node

/-- The frame of the function that a node embeds. -/
def inner? (lib : Library) (frame : Frame) (node : Node) : Option Frame := do
  let embedding ← node.embedding
  let fn ← lib.function? embedding.function
  return .embedded frame node embedding.function fn

section Values

variable (point : Point) (known : Valuation)

/-- The value that a connection brings. -/
def sourceValue (frame : Frame) (source : Port) : Option Quantity := do
  atPlace? (← known frame source.node) source.index

/-- The value of a port: the one connected to it, else the coordinate it is bound to as
an input of the frame, else its default. -/
def receives (frame : Frame) (input : Kind → String → Option Quantity) (place : Port)
    (port : Option InputPort) : Option Quantity :=
  match frame.function.graph.incoming? place with
  | some edge => frame.sourceValue known edge.source
  | none =>
    match port with
    | none => some (.literal 0)
    | some port =>
      match port.binding with
      | some c => input (.input c) ""
      | none => some (.literal port.default)

/-- The value of an input that is given from outside. -/
def outerValue (kind : Kind) : Quantity :=
  match kind.coordinate? with
  | some c => .sample (point c)
  | none => .literal 0

/-- The value of an input of a frame: that of the port which the embedding node has for
it. A coordinate that is not declared is the point's own, any other input zero. -/
def inputValue : Frame → Kind → String → Option Quantity
  | .root _ _, kind, _ => some (outerValue point kind)
  | .embedded parent site _ fn, kind, name =>
    match fn.inputPlace? kind name with
    | none => some (outerValue point kind)
    | some index => parent.receives known parent.inputValue ⟨site.id, index⟩ site.inputs[index]?

/-- The value that an input port of a node gets. -/
def portValue (frame : Frame) (place : Port) (port : InputPort) : Option Quantity :=
  frame.receives known (frame.inputValue point known) place (some port)

/-- The value of a declared output: the one its node gets. An output without a node is
zero. -/
def outputValue (frame : Frame) (defn : Definition) : Option Quantity :=
  match frame.function.graph.nodeFor? defn with
  | none => some (.literal 0)
  | some node =>
    match node.inputPorts.zip node.inputs with
    | (place, port) :: _ => frame.portValue point known place port
    | [] => some (.literal 0)

/-- The values that a node is made of: those of its input ports, of the input it stands
for, or of the outputs of the function it embeds. -/
def operands (lib : Library) (frame : Frame) (node : Node) : Option (List Quantity) :=
  match node.kind with
  | .constant => some []
  | .input _ | .customInput => do
      return [← frame.inputValue point known node.kind node.definitionName]
  | .function => do
      let inner ← frame.inner? lib node
      inner.function.outputs.mapM (inner.outputValue point known)
  | _ => (node.inputPorts.zip node.inputs).mapM fun (place, port) =>
    frame.portValue point known place port

/-- The values that are shown for a node: that which it hands out, if it is an output or
a preview, and those of its output ports otherwise. -/
def shown (lib : Library) (frame : Frame) (id : Int) : Option (List Quantity) := do
  let node ← frame.function.graph.node? id
  if node.kind.handsOut then
    return [(← frame.operands point known lib node).headD (.literal 0)]
  else known frame id

end Values

end Frame

/-- The values of nodes, as far as they can be found by following connections a number
of times. -/
def Library.valuation (lib : Library) (point : Point) : Nat → Valuation
  | 0 => fun _ _ => none
  | depth + 1 => fun frame id => do
      let node ← frame.function.graph.node? id
      node.results lib (← frame.operands point (lib.valuation point depth) lib node)

/-- A value is the one that a graph denotes for a port of a node: for an output port its
value, and for an output or preview node, at place zero, the value it hands out. -/
def Library.Shows (lib : Library) (point : Point) (frame : Frame) (port : Port)
    (value : Quantity) : Prop :=
  ∃ depth values, frame.shown point (lib.valuation point depth) lib port.node =
    some values ∧ atPlace? values port.index = some value

end FieldGraph
