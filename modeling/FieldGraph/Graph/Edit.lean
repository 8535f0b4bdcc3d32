import FieldGraph.Graph.Walk

/-! # Edits of a graph

Adding and removing nodes and connections, defaults of input ports, and the variables of expression
nodes. `link` and `unlink` keep the three records of the connections in step.
-/

namespace FieldGraph.Graph

/-- Puts a node into a list of nodes before the first one with a larger number. -/
def placeNode (node : Node) : List Node → List Node
  | [] => [node]
  | other :: rest =>
    if node.id < other.id then node :: other :: rest else other :: placeNode node rest

def modifyNode (graph : Graph) (id : Int) (change : Node → Node) : Graph :=
  { graph with nodes := graph.nodes.map fun node => if node.id == id then change node else node }

/-- Adds a connection to all records, without asking whether it is possible. -/
def link (graph : Graph) (connection : Connection) : Graph :=
  { graph with
    connections := graph.connections ++ [connection]
    incoming := graph.incoming.insert connection.target connection
    outgoing := graph.outgoing.insert connection.source
      (graph.outgoingFrom connection.source ++ [connection]) }

/-- Takes a connection out of all records, if it is there. -/
def unlink (graph : Graph) (connection : Connection) : Graph :=
  if graph.hasConnection connection then
    let left := (graph.outgoingFrom connection.source).erase connection
    { graph with
      connections := graph.connections.erase connection
      incoming := graph.incoming.erase connection.target
      outgoing :=
        if left.isEmpty then graph.outgoing.erase connection.source
        else graph.outgoing.insert connection.source left }
  else graph

/-- Takes out every connection that starts or ends at a node. -/
def isolate (graph : Graph) (id : Int) : Graph :=
  (graph.connections.filter (·.touches id)).foldl unlink graph

/-- The number for a new node: the one asked for, which has to be free, or the next
one. -/
def reserveId (asked : Option Int) : Editing Graph Int := do
  let graph ← get
  match asked with
  | some id =>
    if graph.hasNode id then throw (.nodeExists id)
    return id
  | none =>
    set { graph with nextId := graph.nextId + 1 }
    return graph.nextId

/-- Adds a node whose number is not taken. Numbers given out later are larger. -/
def addNode (node : Node) : Editing Graph Unit := do
  let graph ← get
  if graph.hasNode node.id then throw (.nodeExists node.id)
  set { graph with
    nodes := placeNode node graph.nodes
    nextId := if graph.nextId ≤ node.id then node.id + 1 else graph.nextId }

def removeNode (id : Int) : Editing Graph Unit := do
  let graph ← get
  let _ ← Fallible.ofExcept (graph.find id)
  let isolated := graph.isolate id
  set { isolated with nodes := isolated.nodes.filter (·.id != id) }

def connect (connection : Connection) : Editing Graph Unit := do
  let graph ← get
  if graph.canConnect connection then set (graph.link connection)
  else throw (.cannotConnect connection)

/-- Takes out a connection and says whether it was there. -/
def disconnect (connection : Connection) : Editing Graph Bool := do
  let graph ← get
  set (graph.unlink connection)
  return graph.hasConnection connection

def setName (id : Int) (name : String) : Editing Graph Unit := do
  let graph ← get
  let _ ← Fallible.ofExcept (graph.find id)
  set (graph.modifyNode id fun node => { node with name })

def withDefault (index : Nat) (value : Float) (node : Node) : Node :=
  { node with inputs := node.inputs.modify index fun port => { port with default := value } }

def setDefault (port : Port) (value : Value) (quote : Value → String) : Editing Graph Unit := do
  let graph ← get
  let found ← Fallible.ofExcept (graph.inputPort port)
  let number ← match value with
    | .integer n => pure (Number.integer n)
    | .real x => pure (Number.real x)
    | _ => throw (.defaultRejected found.name (quote value))
  let default ← Editing.ofConversion number.toReal
  set (graph.modifyNode port.node (withDefault port.index.toNat default))

/-- Gives a node back the default and the connection that a port had, if any. -/
def restorePort (target : Port) (default : Float) (connection : Option Connection) :
    Editing Graph Unit := do
  modify fun graph => graph.modifyNode target.node (withDefault target.index.toNat default)
  match connection with
  | some old => connect ⟨old.source, target⟩
  | none => return

/-- What the input ports of a node hold, by name: their connections and defaults. -/
def boundInputs (graph : Graph) (node : Node) : Table String (Option Connection × Float) :=
  (node.inputPorts.zip node.inputs).foldl (fun table (place, port) =>
    table.insert port.name (graph.incoming? place, port.default)) {}

/-- Declares the variables of an expression node. A port that keeps its name keeps its connection
and default. -/
def setVariables (id : Int) (names : List String) : Editing Graph Unit := do
  let graph ← get
  let node ← Fallible.ofExcept (graph.find id)
  if node.kind != .expression then throw (.notExpression id)
  if !decide names.Nodup then throw (.duplicateVariables names)
  let bound := graph.boundInputs node
  let released := (bound.values.filterMap (·.1)).foldl unlink graph
  set (released.modifyNode id fun node => { node with inputs := names.map fun name => { name } })
  names.zipIdx.forM fun (name, index) =>
    match bound.get? name with
    | some (connection, default) => restorePort ⟨id, index⟩ default connection
    | none => return

def clear : Editing Graph Unit := set ({} : Graph)

end FieldGraph.Graph
