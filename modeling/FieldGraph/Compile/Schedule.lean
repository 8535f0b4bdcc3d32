import FieldGraph.Compile.Expand

/-! # Schedules

A schedule lists the nodes of an expansion that are left to evaluate, with a buffer for every value.
Nodes that compute the same from the same values are merged into the first of them, nodes that no
output depends on are left out, and every used coordinate, distinct constant and result gets a
buffer of its own.

Constants are told apart by value, so zero and negative zero share a buffer.
-/

namespace FieldGraph

namespace ExpandedNode

/-- Whether two nodes compute the same: the same operation on the same values with
the same params. -/
def computesSame (a b : ExpandedNode) : Bool :=
  match a.role, b.role with
  | .compute op params, .compute other others =>
    op == other && a.inputs.length == b.inputs.length && params.length == others.length &&
      (a.inputs.zip b.inputs).all (fun (x, y) => x.same y) &&
      (params.zip others).all fun (x, y) => x.same y
  | _, _ => false

end ExpandedNode

/-- The result of merging the nodes of an expansion that compute the same. -/
structure Merging where
  nodes : List ExpandedNode := []
  /-- The nodes that replace merged ones. -/
  renamed : Table Nat Nat := {}

namespace Merging

def ref (merging : Merging) : Ref → Ref
  | .port node index => .port ((merging.renamed.get? node).getD node) index
  | .constant x => .constant x

/-- Takes the next node in; it is merged into an earlier one that computes the same. -/
def add (merging : Merging) (node : ExpandedNode) : Merging :=
  let node := { node with inputs := node.inputs.map merging.ref }
  match merging.nodes.find? node.computesSame with
  | some first =>
    { nodes := merging.nodes ++ [node]
      renamed := merging.renamed.insert node.id first.id }
  | none => { merging with nodes := merging.nodes ++ [node] }

def ofNodes (nodes : List ExpandedNode) : Merging := nodes.foldl add {}

/-- The nodes that are needed for some of them, found from the last to the first. -/
def needed (nodes : List ExpandedNode) (roots : List Nat) : List Nat :=
  nodes.foldr (fun node needed =>
    if needed.contains node.id then node.inputs.filterMap Ref.node? ++ needed else needed) roots

/-- The nodes that some of them depend on, themselves included. -/
def prune (nodes : List ExpandedNode) (roots : List Nat) : List ExpandedNode :=
  let needed := needed nodes roots
  nodes.filter fun node => needed.contains node.id

end Merging

/-- The nodes left to evaluate, with a buffer for every value. -/
structure Schedule where
  /-- The nodes that compute, in evaluation order. -/
  order : List ExpandedNode := []
  outputs : List ExpandedNode := []
  inputs : List (Coordinate × Nat) := []
  constants : List (Float × Nat) := []
  ports : Table (Nat × Nat) Nat := {}
  topLevel : List (Int × List Ref) := []
  bufferCount : Nat := 0
  /-- The number of nodes that are left, outputs and coordinates included. -/
  expandedNodes : Nat := 0
  mergedNodes : Nat := 0

namespace Schedule

def address? (schedule : Schedule) : Ref → Option Nat
  | .port node index => schedule.ports.get? (node, index)
  | .constant x =>
    (schedule.constants.find? fun entry => (Ref.constant entry.1).same (.constant x)).map (·.2)

def addInput (schedule : Schedule) (node : ExpandedNode) : Schedule :=
  match node.role with
  | .coordinate c =>
    { schedule with
      inputs := schedule.inputs ++ [(c, schedule.bufferCount)]
      ports := schedule.ports.insert (node.id, 0) schedule.bufferCount
      bufferCount := schedule.bufferCount + 1 }
  | _ => schedule

/-- Gives a constant a buffer, unless an equal one has one. -/
def addConstant (schedule : Schedule) (ref : Ref) : Schedule :=
  match ref with
  | .port _ _ => schedule
  | .constant x =>
    if (schedule.address? ref).isSome then schedule
    else
      { schedule with
        constants := schedule.constants ++ [(x, schedule.bufferCount)]
        bufferCount := schedule.bufferCount + 1 }

def addResult (id : Nat) (schedule : Schedule) (index : Nat) : Schedule :=
  { schedule with
    ports := schedule.ports.insert (id, index) schedule.bufferCount
    bufferCount := schedule.bufferCount + 1 }

def addNode (schedule : Schedule) (node : ExpandedNode) : Schedule :=
  match node.role with
  | .coordinate _ => schedule
  | .sink _ _ _ => { schedule with outputs := schedule.outputs ++ [node] }
  | .compute _ _ =>
    (List.range node.outputCount).foldl (addResult node.id)
      { schedule with order := schedule.order ++ [node] }

/-- Gives buffers to coordinates, then to constants, then to results. -/
def allocate (live : List ExpandedNode) : Schedule :=
  let withInputs := live.foldl addInput {}
  let withConstants := (live.flatMap (·.inputs)).foldl addConstant withInputs
  live.foldl addNode withConstants

end Schedule

def Expansion.schedule (expansion : Expansion) : Schedule :=
  let merging := Merging.ofNodes expansion.nodes
  let live := Merging.prune merging.nodes expansion.outputs
  { Schedule.allocate live with
    topLevel := expansion.topLevel.entries.map fun (id, refs) => (id, refs.map merging.ref)
    expandedNodes := live.length
    mergedNodes := merging.renamed.size }

end FieldGraph
