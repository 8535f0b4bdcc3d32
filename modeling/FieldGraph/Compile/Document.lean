import FieldGraph.Compile.Compile
import FieldGraph.Program.Document

/-! # Documents of compilations

Expansions, schedules and verdicts, for looking into a compilation.
-/

namespace FieldGraph

def Ref.document : Ref → Value
  | .port node index => .list [.text "port", .ofNat node, .ofNat index]
  | .constant x => .list [.text "const", .real x]

def ExpandedNode.document (node : ExpandedNode) : Value :=
  .record [
    ("id", .ofNat node.id),
    ("type", .text node.kind.name),
    ("inputs", .list (node.inputs.map Ref.document)),
    ("params", .list (node.params.map Literal.document)),
    ("output_count", .ofNat node.outputCount),
    ("origin", .ofInt? node.origin),
    ("name", .text node.name)]

def topLevelDocument (values : List (Int × List Ref)) : Value :=
  .list ((ascendingBy (fun (id, _) => [id]) values).map fun (id, refs) =>
    .list [.integer id, .list (refs.map Ref.document)])

def Expansion.document (expansion : Expansion) : Value :=
  .record [
    ("nodes", .list (expansion.nodes.map ExpandedNode.document)),
    ("inputs", .record (expansion.inputs.entries.map fun (coordinate, id) =>
      ((Kind.input coordinate).name, .ofNat id))),
    ("outputs", .ofNats expansion.outputs),
    ("values", topLevelDocument expansion.topLevel.entries)]

def Schedule.document (schedule : Schedule) : Value :=
  let constants := ascendingBy (fun (_, address) => [Int.ofNat address]) schedule.constants
  let ports := ascendingBy (fun ((id, index), _) => [Int.ofNat id, Int.ofNat index])
    schedule.ports.entries
  .record [
    ("order", .list (schedule.order.map ExpandedNode.document)),
    ("outputs", .list (schedule.outputs.map ExpandedNode.document)),
    ("inputs", .record (schedule.inputs.map fun (coordinate, address) =>
      ((Kind.input coordinate).name, .ofNat address))),
    ("constants", .list (constants.map fun (x, address) => .list [.ofNat address, .real x])),
    ("ports", .list (ports.map fun ((id, index), address) => .ofNats [id, index, address])),
    ("buffer_count", .ofNat schedule.bufferCount),
    ("expanded_nodes_count", .ofNat schedule.expandedNodes),
    ("merged_count", .ofNat schedule.mergedNodes)]

def Verdict.fields (verdict : Verdict) : List (String × Value) :=
  [
    ("success", .bool verdict.isGood),
    ("node_id", .ofInt? verdict.node?),
    ("message", .text verdict.message),
    ("expanded_nodes_count", .ofNat verdict.expandedNodes)]

def Verdict.document (verdict : Verdict) : Value :=
  .record (verdict.fields ++ [("repr", .text verdict.quote)])

end FieldGraph
