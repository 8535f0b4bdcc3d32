import FieldGraph.Compile.Expansion
import FieldGraph.Expression.Depth

/-! # Expanding a function

Function nodes are replaced by what they embed, expressions by the operations they
call, and relays and input nodes by the values they stand for. The nodes that an
output depends on are expanded before it, those of its last input first.

An input node inside an embedded function stands for what the function node's port
gets: the value connected to it, else the coordinate the port is bound to as seen
from further out, else its default. A coordinate that the function does not declare
is the sample's own.
-/

namespace FieldGraph

namespace Setting

/-- A param as programs hold it, with the noise as it is now. -/
def freeze (library : Library) : Setting → Literal Float
  | .real x => .real x
  | .integer n => .integer n
  | .text s => .text s
  | .noise source => .noise (source.bind fun id => (library.noise? id).map fun noise => ⟨id, noise⟩)

end Setting

def Node.expressionText (node : Node) : String :=
  match node.params.head? with
  | some (.text s) => s
  | _ => ""

/-- A value, or the node that has to be expanded before the value is known. -/
inductive Resolved where
  | value (ref : Ref)
  | pending (frame : Frame) (node : Int)

namespace Resolved

def pending? : Resolved → Option (Frame × Int)
  | .pending frame node => some (frame, node)
  | .value _ => none

def value? : Resolved → Option Ref
  | .value ref => some ref
  | .pending _ _ => none

end Resolved

namespace Expanding

def resolveSource (frame : Frame) (source : Port) : Expanding Resolved := do
  match (← get).values.get? (frame.path, source.node) with
  | none => return .pending frame source.node
  | some refs =>
    match atPlace? refs source.index with
    | some ref => return .value ref
    | none => breakOff (.defect (.noSuchOutput source))

def outerInput (kind : Kind) : Expanding Resolved :=
  match kind.coordinate? with
  | some c => do return .value (← coordinate c)
  | none => return .value (.constant 0)

def resolveInput : Frame → Kind → String → Expanding Resolved
  | .root _ _, kind, _ => outerInput kind
  | .embedded parent site _ function, kind, name =>
    match function.inputPlace? kind name with
    | none => outerInput kind
    | some index =>
      match parent.function.graph.incoming? ⟨site.id, index⟩ with
      | some connection => resolveSource parent connection.source
      | none =>
        match site.inputs[index]? with
        | none => return .value (.constant 0)
        | some port =>
          match port.binding with
          | some c => resolveInput parent (.input c) ""
          | none => return .value (.constant port.default)

def resolvePort (frame : Frame) (place : Port) (port : InputPort) : Expanding Resolved :=
  match frame.function.graph.incoming? place with
  | some connection => resolveSource frame connection.source
  | none =>
    match port.binding with
    | some c => resolveInput frame (.input c) ""
    | none => return .value (.constant port.default)

def resolvePorts (frame : Frame) (node : Node) : Expanding (List Resolved) :=
  (node.inputPorts.zip node.inputs).mapM fun (place, port) => resolvePort frame place port

/-- The value of a declared output of a frame. An output that no node stands for is
zero. -/
def resolveOutput (frame : Frame) (definition : Definition) : Expanding Resolved := do
  match frame.function.graph.nodeFor? definition with
  | none => return .value (.constant 0)
  | some node =>
    match node.inputPorts.zip node.inputs with
    | (place, port) :: _ => resolvePort frame place port
    | [] => return .value (.constant 0)

def enter (library : Library) (frame : Frame) (node : Node) : Expanding Frame := do
  let origin := frame.origin node.id
  match node.embedding with
  | none => reject origin .noFunction
  | some embedding =>
    match library.function? embedding.function with
    | none => reject origin .noFunction
    | some function =>
      if frame.chain.contains embedding.function then
        reject origin (.selfEmbedding function.name)
      if library.isStale node then reject origin (.stalePorts function.name)
      return .embedded frame node embedding.function function

/-- The values of a node's input ports, of the input it stands for, or of the outputs of what it
embeds. -/
def gather (library : Library) (frame : Frame) (node : Node) : Expanding (List Resolved) := do
  match node.kind with
  | .constant => return []
  | .input _ | .customInput => return [← resolveInput frame node.kind node.definitionName]
  | .function =>
    let inner ← enter library frame node
    inner.function.outputs.mapM (resolveOutput inner)
  | _ => resolvePorts frame node

mutual

def expandTree (bindings : Table String Ref) (origin : Int) :
    Expression.Tree → Expanding Ref
  | .number x => return .constant x
  | .var name =>
    match bindings.get? name with
    | some ref => return ref
    | none => reject origin (.unknownVariable name)
  | .binary op left right => do
      let a ← expandTree bindings origin left
      let b ← expandTree bindings origin right
      return (← emit op.operation [a, b] [] origin).headD (.constant 0)
  | .call function args => do
      let inputs ← expandTrees bindings origin args
      return (← emit function.operation inputs [] origin).headD (.constant 0)

def expandTrees (bindings : Table String Ref) (origin : Int) :
    List Expression.Tree → Expanding (List Ref)
  | [] => return []
  | tree :: trees => do
      let ref ← expandTree bindings origin tree
      return ref :: (← expandTrees bindings origin trees)

end

def expandExpression (node : Node) (refs : List Ref) (origin : Int) : Expanding Ref := do
  match Expression.parseWithin Expression.compileRoom Expression.Callable.catalog
      node.expressionText with
  | .error (.rejected error) => reject origin (.badExpression node.expressionText error)
  | .error (.malformedNumber lexeme) => breakOff (.malformedNumber lexeme)
  | .error .nestedTooDeep => breakOff .nestedTooDeep
  | .ok none => return .constant 0
  | .ok (some tree) =>
    let bindings : Table String Ref := (node.inputs.zip refs).foldl
      (fun table (port, ref) => table.insert port.name ref) {}
    expandTree bindings origin tree

/-- The values of the output ports of a node, from the values it is made of. -/
def expandNode (library : Library) (frame : Frame) (node : Node) (refs : List Ref) :
    Expanding (List Ref) := do
  let origin := frame.origin node.id
  let params := node.params.map (Setting.freeze library)
  match node.kind with
  | .constant =>
    match node.params.head? with
    | some (.real x) => return [.constant x]
    | _ => return [.constant 0]
  | .input _ | .customInput | .relay => return refs.take 1
  | .function => return refs
  | .expression => return [← expandExpression node refs origin]
  | .outputSdf | .outputWeight | .outputType | .customOutput | .preview =>
    if frame.isRoot then
      addOutput node params (refs.headD (.constant 0))
      return []
    else breakOff (.defect (.nestedOutput node.id))
  | .operation op => emit op refs params origin
  | .comment => reject origin (.notCompilable node.kind.entry.title)

/-- Expands a node from the values it is made of, and records its values. -/
def finish (library : Library) (frame : Frame) (node : Node) (refs : List Ref) :
    Expanding Unit := do
  let values ← expandNode library frame node refs
  modify fun expansion => { expansion with
    values := expansion.values.insert (frame.path, node.id) values
    topLevel :=
      if frame.isRoot then expansion.topLevel.insertIfNew node.id values
      else expansion.topLevel }

/-- Expands a node and, before it, the nodes it depends on. None of the nodes `waiting` for this one
may be waited for again; a chain of them is not longer than `depth`. -/
def visit (library : Library) (depth : Nat) (waiting : List Site) (frame : Frame) (id : Int) :
    Expanding Unit :=
  match depth with
  | 0 => reject (frame.origin id) .cycle
  | depth + 1 => do
      if (← get).values.contains (frame.path, id) then return
      match frame.function.graph.find id with
      | .error cause => breakOff (.missing cause)
      | .ok node =>
        let found ← gather library frame node
        match found.mapM Resolved.value? with
        | some refs => finish library frame node refs
        | none =>
          if waiting.contains (frame.path, id) then reject (frame.origin id) .cycle
          (found.filterMap Resolved.pending?).reverse.forM fun (source, sourceId) =>
            visit library depth ((frame.path, id) :: waiting) source sourceId
          let again ← gather library frame node
          match again.mapM Resolved.value? with
          | some refs => finish library frame node refs
          | none => reject (frame.origin id) .cycle

end Expanding

/-- What has been seen of the outputs of a function. -/
structure OutputCheck where
  distance : Bool := false
  type : Bool := false
  layers : List Int := []

namespace OutputCheck

def add (seen : OutputCheck) (node : Node) : Except Rejection OutputCheck :=
  match node.kind, node.params with
  | .outputSdf, _ =>
    if seen.distance then .error .manyDistances else .ok { seen with distance := true }
  | .outputType, _ => if seen.type then .error .manyTypes else .ok { seen with type := true }
  | .outputWeight, .integer layer :: _ =>
    if layer < 0 ∨ Rejection.layerCount ≤ layer then .error (.layerOutOfRange layer)
    else if seen.layers.contains layer then .error (.layerTaken layer)
    else .ok { seen with layers := layer :: seen.layers }
  | _, _ => .ok seen

end OutputCheck

namespace Function

def checkOutputs (function : Function) : Except CompileError Unit := do
  let _ ← function.outputIds.foldlM (fun seen id =>
    match function.graph.find id with
    | .error cause => throw (.broken (.missing cause))
    | .ok node =>
      match seen.add node with
      | .ok next => pure next
      | .error cause => throw (.rejected (some id) cause)) ({} : OutputCheck)

/-- The nodes that an expansion starts from: the output nodes and, in debug mode, the
previews. -/
def expansionRoots (function : Function) (debug : Bool) : Except CompileError (List Int) := do
  function.checkOutputs
  if function.outputIds.isEmpty then throw (.rejected none .noOutput)
  let previews := (function.graph.nodes.filter (·.kind == .preview)).map (·.id)
  return function.outputIds ++ (if debug then previews else [])

end Function

namespace Library

def nodeCount (library : Library) : Nat :=
  library.functions.foldl (fun count function => count + function.graph.nodes.length) 0

/-- A bound for the nodes that can wait for each other. -/
def expansionDepth (library : Library) : Nat :=
  Nat.pow (library.nodeCount + 1) (library.functions.length + 2)

def expand (library : Library) (id : FunctionId) (debug : Bool) :
    Except CompileError Expansion := do
  match library.find id with
  | .error cause => throw (.broken (.missing cause))
  | .ok function =>
    let roots ← function.expansionRoots debug
    let walk := roots.forM (Expanding.visit library library.expansionDepth [] (.root id function))
    return (← walk.run {}).2

end Library

end FieldGraph
