import FieldGraph.Graph.Error

/-! # Walks through a graph

Reachability along connections, and the dependencies of some nodes in an order in which every node
comes after the nodes that feed it. Both walks carry the list of nodes they may still enter, which
gets shorter with every node they enter.
-/

namespace FieldGraph.Graph

def find (graph : Graph) (id : Int) : Except EditError Node :=
  match graph.node? id with
  | some node => .ok node
  | none => .error (.nodeMissing id)

/-- Whether a walk from one of the nodes `frontier` meets `target`, entering only nodes of
`unvisited`. -/
def reaches (graph : Graph) (target : Int) (unvisited : List Int) (frontier : List Int) : Bool :=
  match frontier with
  | [] => false
  | id :: rest =>
    if id = target then true
    else if _ : id ∈ unvisited then
      let next := match graph.node? id with
        | some node => graph.targets node
        | none => []
      reaches graph target (unvisited.erase id) (next ++ rest)
    else reaches graph target unvisited rest
termination_by (unvisited.length, frontier.length)
decreasing_by
  · apply Prod.Lex.left
    rw [List.length_erase_of_mem ‹_›]
    have := List.length_pos_of_mem ‹id ∈ unvisited›
    omega
  · apply Prod.Lex.right
    simp

/-- Whether a node is reached from another along connections. Every node is reached
from itself. -/
def hasPath (graph : Graph) (start target : Int) : Bool :=
  graph.reaches target graph.nodeIds [start]

/-- What a walk to dependencies has still to do. -/
inductive Task where
  /-- A node is to be listed behind its dependencies, unless it is listed already. -/
  | enter (id : Int)
  /-- A node is to be listed, as its dependencies are. -/
  | leave (id : Int)

/-- Carries out tasks, which may come to the same node more than once. The nodes in `order` have
been left again; the others outside `unseen` depend on the node that the walk is at. -/
def walk (graph : Graph) (unseen order : List Int) (tasks : List Task) :
    Except EditError (List Int) :=
  match tasks with
  | [] => .ok order
  | .leave id :: rest => walk graph unseen (order ++ [id]) rest
  | .enter id :: rest =>
    if order.contains id then walk graph unseen order rest
    else if _ : id ∈ unseen then
      match graph.find id with
      | .ok node =>
        walk graph (unseen.erase id) order
          ((graph.sources node).map .enter ++ .leave id :: rest)
      | .error error => .error error
    else if graph.hasNode id then .error (.cycle id)
    else .error (.nodeMissing id)
termination_by (unseen.length, tasks.length)
decreasing_by
  · apply Prod.Lex.right
    simp
  · apply Prod.Lex.right
    simp
  · apply Prod.Lex.left
    rw [List.length_erase_of_mem ‹_›]
    have := List.length_pos_of_mem ‹id ∈ unseen›
    omega

/-- The nodes that the roots depend on, roots included, every node behind the nodes
that feed it. -/
def dependencies (graph : Graph) (roots : List Int) : Except EditError (List Int) :=
  graph.walk graph.nodeIds [] (roots.map .enter)

def inputNodes (graph : Graph) (id : Int) : Except EditError (List Int) :=
  graph.sources <$> graph.find id

def outputNodes (graph : Graph) (id : Int) : Except EditError (List Int) :=
  graph.targets <$> graph.find id

def inputPort (graph : Graph) (port : Port) : Except EditError InputPort := do
  let node ← graph.find port.node
  match atPlace? node.inputs port.index with
  | some found => return found
  | none => throw (.inputMissing port node.kind)

/-- The name of an output port of a node, which has to exist. -/
def outputPort (graph : Graph) (port : Port) : Except EditError String := do
  let node ← graph.find port.node
  match atPlace? node.outputs port.index with
  | some found => return found
  | none => throw (.outputMissing port node.kind)

def nodeNamed? (graph : Graph) (name : String) : Option Int :=
  (graph.nodes.find? (·.name == name)).map (·.id)

/-- Whether two ports exist, the input port is free, and no node would come to depend on itself. -/
def canConnect (graph : Graph) (connection : Connection) : Bool :=
  graph.hasOutput connection.source && graph.hasInput connection.target &&
    connection.source.node != connection.target.node &&
    !graph.incoming.contains connection.target &&
    !graph.hasPath connection.target.node connection.source.node

end FieldGraph.Graph
