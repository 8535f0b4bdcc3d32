import FieldGraph.Operation.Document
import FieldGraph.Program.Basic

/-! # Documents of programs

The document of a program is what an editor is shown. An inspection also has params and port
addresses.
-/

namespace FieldGraph

def Output.document (output : Output) : Value :=
  .record [
    ("type", .text output.kind.name),
    ("name", .text output.name),
    ("address", .ofNat output.address),
    ("node_id", .integer output.node),
    ("layer", .integer output.layer)]

def Instruction.fields (instruction : Instruction Float) : List (String × Value) :=
  [("type", .text instruction.operation.entry.name),
    ("inputs", .ofNats instruction.inputs),
    ("outputs", .ofNats instruction.outputs),
    ("node_id", .ofInt? instruction.node)]

def Instruction.document (instruction : Instruction Float) : Value := .record instruction.fields

def Instruction.inspection (instruction : Instruction Float) : Value :=
  .record (instruction.fields ++ [("params", .list (instruction.params.map Literal.document))])

/-- The fields of the document of a program, given the documents of its instructions and
of a constant. -/
def Program.fields (program : Program Float) (instructions : List Value)
    (constantDocument : Float → Value) : List (String × Value) :=
  [
    ("debug", .bool program.debug),
    ("buffer_count", .ofNat program.bufferCount),
    ("expanded_nodes_count", .ofNat program.expandedNodes),
    ("inputs", .record (program.inputs.map fun (coordinate, address) =>
      ((Kind.input coordinate).name, .ofNat address))),
    ("constants", .record (program.constants.map fun (address, value) =>
      (toString address, constantDocument value))),
    ("instructions", .list instructions),
    ("outputs", .list (program.outputs.map Output.document))]

/-- The document of a program, in which infinite and undefined constants are null. -/
def Program.document (program : Program Float) : Value :=
  .record (program.fields (program.instructions.map Instruction.document) .ofFinite)

def Program.portDocument (program : Program Float) : Value :=
  .list ((ascendingBy (fun (port, _) => [port.node, port.index]) program.ports).map
    fun (port, address) => .list [.integer port.node, .integer port.index, .ofNat address])

def Program.inspection (program : Program Float) : Value :=
  .record (program.fields (program.instructions.map Instruction.inspection) .real ++
    [("ports", program.portDocument)])

def portRangesDocument (ranges : List (Port × Interval Float)) : Value :=
  .list ((ascendingBy (fun (port, _) => [port.node, port.index]) ranges).map
    fun (port, range) => .list [.integer port.node, .integer port.index, .ofInterval range])

end FieldGraph
