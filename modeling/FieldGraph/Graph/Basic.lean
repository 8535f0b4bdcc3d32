import FieldGraph.Param
import FieldGraph.Catalog
import FieldGraph.Table

/-! # Graphs

A graph holds nodes, addressed by number, and connections from output ports to input ports. An input
port takes at most one connection. Connections are kept once in order of creation, once by target
and once by source.
-/

namespace FieldGraph

abbrev FunctionId := Nat

/-- A port of a node: an input or an output, as the context has it. -/
structure Port where
  node : Int
  /-- The place of the port in its node. -/
  index : Int
  deriving DecidableEq, Repr, Inhabited

def Port.quote (port : Port) : String := toString port.node ++ ":" ++ toString port.index

/-- A connection from an output port to an input port. -/
structure Connection where
  source : Port
  target : Port
  deriving DecidableEq, Repr, Inhabited

namespace Connection

def quote (connection : Connection) : String :=
  "Connection(" ++ connection.source.quote ++ " -> " ++ connection.target.quote ++ ")"

def touches (connection : Connection) (id : Int) : Bool :=
  connection.source.node == id || connection.target.node == id

end Connection

structure InputPort where
  name : String
  /-- The value of the port while nothing is connected. -/
  default : Float := 0
  /-- The coordinate the port reads instead while nothing is connected. -/
  binding : Option Coordinate := none

/-- A declared input or output of a function. -/
structure Definition where
  /-- The kind of node that stands for it inside the function. -/
  kind : Kind
  name : String
  deriving DecidableEq, Repr, Inhabited

/-- The function a node embeds, with what it declared when the ports of the node were last derived.
-/
structure Embedding where
  function : FunctionId
  inputs : List Definition
  outputs : List Definition

/-- A node of a graph. -/
structure Node where
  id : Int
  kind : Kind
  name : String := ""
  inputs : List InputPort := []
  outputs : List String := []
  params : List Setting := []
  embedding : Option Embedding := none

namespace Node

/-- A new node of a kind with the ports of the catalog. -/
def ofKind (id : Int) (kind : Kind) (params : List Setting) : Node :=
  { id, kind, params,
    inputs := kind.entry.inputs.map fun port => ⟨port.name, port.default, port.binding⟩
    outputs := kind.entry.outputs }

def inputPorts (node : Node) : List Port :=
  (List.range node.inputs.length).map fun (index : Nat) => ⟨node.id, index⟩

def outputPorts (node : Node) : List Port :=
  (List.range node.outputs.length).map fun (index : Nat) => ⟨node.id, index⟩

def quote (node : Node) : String :=
  "GraphNode(" ++ toString node.id ++ ", " ++ node.kind.name ++ ")"

end Node

/-- An element of a list by a place that may be negative or too large. -/
def atPlace? {α : Type} (items : List α) (place : Int) : Option α :=
  if 0 ≤ place then items[place.toNat]? else none

/-- Nodes and the connections between them. -/
structure Graph where
  nodes : List Node := []
  connections : List Connection := []
  incoming : Table Port Connection := {}
  /-- The connections out of each connected output port, oldest first. -/
  outgoing : Table Port (List Connection) := {}
  /-- The number the next node gets unless another is asked for. -/
  nextId : Int := 1

namespace Graph

def node? (graph : Graph) (id : Int) : Option Node := graph.nodes.find? (·.id == id)

def hasNode (graph : Graph) (id : Int) : Bool := (graph.node? id).isSome

def nodeIds (graph : Graph) : List Int := graph.nodes.map (·.id)

def hasOutput (graph : Graph) (port : Port) : Bool :=
  match graph.node? port.node with
  | some node => (atPlace? node.outputs port.index).isSome
  | none => false

def hasInput (graph : Graph) (port : Port) : Bool :=
  match graph.node? port.node with
  | some node => (atPlace? node.inputs port.index).isSome
  | none => false

def incoming? (graph : Graph) (target : Port) : Option Connection := graph.incoming.get? target

def outgoingFrom (graph : Graph) (source : Port) : List Connection :=
  (graph.outgoing.get? source).getD []

def hasConnection (graph : Graph) (connection : Connection) : Bool :=
  match graph.incoming? connection.target with
  | some found => found.source == connection.source
  | none => false

/-- The nodes that feed a node, by input port. -/
def sources (graph : Graph) (node : Node) : List Int :=
  node.inputPorts.filterMap fun port => (graph.incoming? port).map (·.source.node)

/-- The nodes that a node feeds, by output port. -/
def targets (graph : Graph) (node : Node) : List Int :=
  node.outputPorts.flatMap fun port => (graph.outgoingFrom port).map (·.target.node)

def quote (graph : Graph) : String :=
  "ProgramGraph(" ++ toString graph.nodes.length ++ " nodes, " ++
    toString graph.connections.length ++ " connections)"

end Graph

end FieldGraph
