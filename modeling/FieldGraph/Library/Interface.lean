import FieldGraph.Library.Edit

/-! # Declared inputs and outputs

What a function declares, how nodes of its graph are found for it, and the function
nodes that have a port for each declared input and output of the function they embed.
-/

namespace FieldGraph

namespace Node

/-- The name under which an input or output node is declared. -/
def definitionName (node : Node) : String :=
  match node.kind.fixedName? with
  | some name => name
  | none =>
    if node.kind = .outputWeight ∧ node.name.isEmpty then
      match node.params.head? with
      | some (.integer layer) => "weight" ++ toString layer
      | _ => "weight"
    else node.name

def definition (node : Node) : Definition := ⟨node.kind, node.definitionName⟩

end Node

/-- Whether a node is of a definition's kind and, unless the kind alone decides, has its name. -/
def Definition.isStoodForBy (definition : Definition) (node : Node) : Bool :=
  definition.kind == node.kind &&
    (node.kind.fixedName?.isSome || definition.name == node.definitionName)

/-- The elements of a list without repetitions, each at its first place. -/
def distinct {α : Type} [BEq α] (items : List α) : List α :=
  items.foldl (fun found item => if found.contains item then found else found ++ [item]) []

namespace Graph

/-- The coordinates that a node reads: its own, and those of its unconnected input ports. -/
def coordinatesRead (graph : Graph) (node : Node) : List Coordinate :=
  node.kind.coordinate?.toList ++
    (node.inputPorts.zip node.inputs).filterMap fun (place, port) =>
      if graph.incoming.contains place then none else port.binding

/-- The inputs that the nodes of a graph suggest: the coordinates read, then the
custom inputs. -/
def suggestedInputs (graph : Graph) : List Definition :=
  let read := graph.nodes.flatMap graph.coordinatesRead
  let coordinates := Coordinate.all.filter read.contains
  distinct (coordinates.map (fun c => ⟨.input c, (Kind.input c).fixedName?.getD ""⟩) ++
    (graph.nodes.filter (·.kind == .customInput)).map Node.definition)

def suggestedOutputs (graph : Graph) : List Definition :=
  distinct (Kind.outputs.flatMap fun kind =>
    (graph.nodes.filter (·.kind == kind)).map Node.definition)

def nodeFor? (graph : Graph) (definition : Definition) : Option Node :=
  graph.nodes.find? definition.isStoodForBy

def insertAscending (number : Int) : List Int → List Int
  | [] => [number]
  | other :: rest =>
    if number ≤ other then number :: other :: rest else other :: insertAscending number rest

end Graph

namespace Function

/-- The nodes that stand for the declared outputs, ascending, or all output nodes if none is
declared. -/
def outputIds (function : Function) : List Int :=
  if function.outputs.isEmpty then
    (function.graph.nodes.filter (·.kind.isOutput)).map (·.id)
  else
    let found := function.outputs.filterMap fun definition =>
      (function.graph.nodeFor? definition).map (·.id)
    (distinct found).foldr Graph.insertAscending []

def inputPlace? (function : Function) (kind : Kind) (name : String) : Option Nat :=
  function.inputs.findIdx? fun definition =>
    definition.kind == kind && (kind.fixedName?.isSome || definition.name == name)

/-- The ports of a node that embeds a function with the given declarations. -/
def portsOf (inputs outputs : List Definition) : List InputPort × List String :=
  (inputs.map fun definition =>
    { name := definition.name, binding := definition.kind.coordinate? },
    outputs.map (·.name))

end Function

namespace Node

def embed (node : Node) (id : FunctionId) (function : Function) : Node :=
  let (inputs, outputs) := Function.portsOf function.inputs function.outputs
  { node with
    inputs, outputs
    embedding := some ⟨id, function.inputs, function.outputs⟩ }

end Node

namespace Library

/-- Creates a node that embeds a function, which notes the surrounding one. -/
def createFunctionNode (around : FunctionId) (embedded : Option FunctionId)
    (asked : Option Int) : Editing Library Int := do
  match embedded with
  | none => throw .notAFunction
  | some inner =>
    let function ← getFunction inner
    let id ← onGraph around (Graph.reserveId asked)
    let node : Node := { id, kind := .function, name := function.name }
    onGraph around (Graph.addNode (node.embed inner function))
    modify (·.modifyFunction inner fun function =>
      { function with dependents := distinct (function.dependents ++ [around]) })
    return id

/-- Declares the inputs and outputs of a function, and marks the functions that embed
it. -/
def setInterface (id : FunctionId) (inputs outputs : List Definition) : Editing Library Unit := do
  let function ← getFunction id
  match inputs.find? (!·.kind.isInput) with
  | some definition => throw (.notAnInput definition.kind)
  | none =>
    match outputs.find? (!·.kind.isOutput) with
    | some definition => throw (.notAnOutput definition.kind)
    | none =>
      modify (·.modifyFunction id fun function => { function with inputs, outputs })
      modify fun library => function.dependents.foldl (fun library dependent =>
        library.modifyFunction dependent fun other => { other with marked := true }) library

/-- Declares the inputs and outputs that the nodes of a function suggest. -/
def suggestInterface (id : FunctionId) : Editing Library Unit := do
  let function ← getFunction id
  setInterface id function.graph.suggestedInputs function.graph.suggestedOutputs

/-- Whether a node embeds a function that declares something else than it has ports
for. -/
def isStale (library : Library) (node : Node) : Bool :=
  match node.embedding with
  | none => false
  | some embedding =>
    match library.function? embedding.function with
    | none => false
    | some function => embedding.inputs != function.inputs || embedding.outputs != function.outputs

/-- Whether the function nodes of a function have to be brought up to date. -/
def needsUpdate (library : Library) (function : Function) : Bool :=
  function.marked || function.graph.nodes.any library.isStale

end Library

namespace Graph

/-- What is bound to the input ports of a function node, by definition; the first port for each
counts. -/
def boundDefinitions (graph : Graph) (node : Node) (definitions : List Definition) :
    Table Definition (Option Connection × Float) :=
  (definitions.zip (node.inputPorts.zip node.inputs)).foldl
    (fun table (definition, place, port) =>
      table.insertIfNew definition (graph.incoming? place, port.default)) {}

/-- What the output ports of a function node feed, by definition. -/
def fedDefinitions (graph : Graph) (node : Node) (definitions : List Definition) :
    Table Definition (List Connection) :=
  (definitions.zip node.outputPorts).foldl
    (fun table (definition, place) =>
      table.insertIfNew definition (graph.outgoingFrom place)) {}

/-- Connects two ports if that is possible. -/
def tryLink (graph : Graph) (connection : Connection) : Graph :=
  if graph.canConnect connection then graph.link connection else graph

/-- Gives input ports back what was bound under their definitions, each binding to the first such
port. -/
def rebindInputs (id : Int) (graph : Graph)
    (bound : Table Definition (Option Connection × Float)) (definitions : List Definition) :
    Graph :=
  (definitions.zipIdx.foldl (fun (graph, bound) (definition, index) =>
    match bound.get? definition with
    | none => (graph, bound)
    | some (connection, default) =>
      let restored := graph.modifyNode id (withDefault index default)
      let linked := match connection with
        | some old => restored.tryLink ⟨old.source, ⟨id, index⟩⟩
        | none => restored
      (linked, bound.erase definition)) (graph, bound)).1

/-- Gives output ports back what they fed under their definitions. -/
def rebindOutputs (id : Int) (graph : Graph) (fed : Table Definition (List Connection))
    (definitions : List Definition) : Graph :=
  (definitions.zipIdx.foldl (fun (graph, fed) (definition, index) =>
    let connections := (fed.get? definition).getD []
    (connections.foldl (fun graph old => graph.tryLink ⟨⟨id, index⟩, old.target⟩) graph,
      fed.erase definition)) (graph, fed)).1

/-- Derives the ports of a function node anew. Bindings of ports whose definition is
still declared move to its new place, the others are dropped. -/
def updateFunctionNode (graph : Graph) (node : Node) (embedding : Embedding)
    (function : Function) : Graph :=
  let bound := graph.boundDefinitions node embedding.inputs
  let fed := graph.fedDefinitions node embedding.outputs
  let renewed := (graph.isolate node.id).modifyNode node.id
    (·.embed embedding.function function)
  let withInputs := rebindInputs node.id renewed bound function.inputs
  rebindOutputs node.id withInputs fed function.outputs

end Graph

namespace Library

/-- Brings one node of a function up to date, if it embeds a function and, when one is
named, that function. -/
def updateNode (around : FunctionId) (only : Option FunctionId) (library : Library) (id : Int) :
    Library :=
  match library.function? around with
  | none => library
  | some function =>
    match function.graph.node? id with
    | none => library
    | some node =>
      match node.embedding with
      | none => library
      | some embedding =>
        if only.all (· == embedding.function) then
          match library.function? embedding.function with
          | none => library
          | some inner =>
            library.modifyFunction around fun function =>
              { function with
                graph := function.graph.updateFunctionNode node embedding inner }
        else library

/-- Brings the function nodes of a function up to date: all of them, or those that
embed one function. -/
def updateFunctionNodes (around : FunctionId) (only : Option FunctionId) :
    Editing Library Unit := do
  let function ← getFunction around
  modify fun library =>
    let updated := function.graph.nodeIds.foldl (updateNode around only) library
    updated.modifyFunction around fun function => { function with marked := false }

end Library

end FieldGraph
