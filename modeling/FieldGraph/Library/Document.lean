import FieldGraph.Library.Interface

/-! # Documents of functions

Nodes and functions as they are shown to an editor. A noise is shown quoted.
-/

namespace FieldGraph

def Setting.document (library : Library) : Setting → Value
  | .real x => .real x
  | .integer n => .integer n
  | .text s => .text s
  | .noise none => .null
  | .noise (some id) => .text (library.quoteNoise id)

/-- The value of a param, with a noise by all that its values depend on. -/
def Setting.value (library : Library) : Setting → Value
  | .real x => .real x
  | .integer n => .integer n
  | .text s => .text s
  | .noise source =>
    match source.bind library.noise? with
    | some noise => .ofNoise noise
    | none => .null

def InputPort.document (port : InputPort) : Value :=
  .record ([("name", .text port.name), ("direction", .text "input"),
      ("default_value", .real port.default)] ++
    match port.binding with
    | some c => [("autoconnect", .text (Catalog.bindingName (some c)))]
    | none => [])

def Node.fields (library : Library) (node : Node) : List (String × Value) :=
  [
    ("id", .integer node.id),
    ("type", .text node.kind.name),
    ("name", .text node.name),
    ("inputs", .list (node.inputs.map InputPort.document)),
    ("outputs", .list (node.outputs.map fun name =>
      .record [("name", .text name), ("direction", .text "output")])),
    ("params", .list (node.params.map (Setting.document library)))]

def Node.document (library : Library) (node : Node) : Value := .record (node.fields library)

def Connection.document (connection : Connection) : Value :=
  .record [
    ("src_node_id", .integer connection.source.node),
    ("src_port", .integer connection.source.index),
    ("dst_node_id", .integer connection.target.node),
    ("dst_port", .integer connection.target.index)]

def Definition.document (definition : Definition) : Value :=
  .record [("type", .text definition.kind.name), ("name", .text definition.name)]

/-- The declared inputs and outputs of a function, kinds with names. -/
def Function.interface (function : Function) : List Value :=
  [function.inputs, function.outputs].map fun definitions =>
    .list (definitions.map fun definition =>
      .list [.text definition.kind.name, .text definition.name])

def Function.fields (nodeDocument : Node → Value) (function : Function) :
    List (String × Value) :=
  [
    ("name", .text function.name),
    ("nodes", .list (function.graph.nodes.map nodeDocument)),
    ("connections", .list (function.graph.connections.map Connection.document)),
    ("inputs", .list (function.inputs.map Definition.document)),
    ("outputs", .list (function.outputs.map Definition.document))]

def Function.document (library : Library) (function : Function) : Value :=
  .record (function.fields (Node.document library))

end FieldGraph
