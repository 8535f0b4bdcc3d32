import FieldGraph.Digest
import FieldGraph.Library.Interface

/-! # Fingerprints

A number that depends on exactly what the outputs of a function depend on: kinds, params, defaults,
ports and connections of the nodes that feed the outputs. Nodes are written as texts that refer to
each other by their place in dependency order, and the digest of the texts is taken. An embedded
function enters with its declarations and its own fingerprint.

The digest is a parameter; `fingerprint` takes the one in use.
-/

namespace FieldGraph

def Definition.quote (definition : Definition) : String :=
  "PortDefinition(type_id=<NodeTypeID." ++ definition.kind.name ++ ": " ++
    toString definition.kind.number ++ ">, name=" ++ Text.quoted definition.name ++ ")"

namespace Fingerprint

def paramText (noises : NoiseId → Option (ValueNoise Float)) : Setting → String
  | .real x => Decimal.text x
  | .integer n => toString n
  | .text s => Text.quoted s
  | .noise source =>
    match source.bind noises with
    | some noise => tuple [Text.quoted "ValueNoise", toString noise.seed, Decimal.text noise.period]
    | none => "None"

/-- The place and port that an input port reads from, if it is connected. -/
abbrev Source := Option (Nat × Int)

def sourceText : Source → String
  | some (place, port) => tuple [toString place, toString port]
  | none => "None"

def defaultText (port : InputPort) (source : Source) : String :=
  if source.isNone && port.binding.isSome then "None" else Decimal.text port.default

/-- The sources of the input ports of a node, by place in an order of nodes. -/
def sources (graph : Graph) (order : List Int) (node : Node) : List Source :=
  node.inputPorts.map fun port =>
    (graph.incoming? port).map fun connection =>
      (order.idxOf connection.source.node, connection.source.index)

/-- The parts of a node's text, without those for an embedded function. -/
def nodeParts (noises : NoiseId → Option (ValueNoise Float)) (node : Node)
    (sources : List Source) : List String :=
  let name := if node.kind.isInput || node.kind.isOutput then node.definitionName else ""
  [Text.quoted node.kind.name, Text.quoted name,
    tuple (node.params.map (paramText noises)),
    tuple ((node.inputs.zip sources).map fun (port, source) => defaultText port source),
    tuple (node.inputs.map fun port => Text.quoted port.name),
    tuple (sources.map sourceText)]

def functionText (function : Function) (fingerprint : Nat) : String :=
  tuple [tuple (function.inputs.map Definition.quote),
    tuple (function.outputs.map Definition.quote), toString fingerprint]

end Fingerprint

namespace Library

/-- The fingerprint of a function by a digest. Functions outside `free` are being visited further
up, and enter by name. How deep functions may be nested is left open. -/
def fingerprintWith (digest : String → Nat) (library : Library) (free : List FunctionId)
    (function : Function) : Except EditError Nat := do
  let order ← function.graph.dependencies function.outputIds
  let texts ← order.mapM fun id => do
    let node ← function.graph.find id
    let parts := Fingerprint.nodeParts library.noise? node
      (Fingerprint.sources function.graph order node)
    match node.embedding with
    | none => return tuple parts
    | some embedding =>
      let inner ← library.find embedding.function
      if _ : embedding.function ∈ free then
        let fingerprint ← fingerprintWith digest library (free.erase embedding.function) inner
        return tuple (parts ++ [Fingerprint.functionText inner fingerprint])
      else return tuple (parts ++ [Text.quoted "recursive", Text.quoted inner.name])
  return digest (String.join texts)
termination_by free.length
decreasing_by
  rw [List.length_erase_of_mem ‹_›]
  have := List.length_pos_of_mem ‹embedding.function ∈ free›
  omega

/-- The functions that are entered while a function is fingerprinted: all but itself. -/
def others (library : Library) (id : FunctionId) : List FunctionId :=
  (List.range library.functions.length).erase id

def fingerprint (library : Library) (id : FunctionId) : Except EditError Nat := do
  fingerprintWith Digest.ofText library (library.others id) (← library.find id)

def fingerprintText (fingerprint : Nat) : String := Text.hexadecimal 16 fingerprint

end Library

end FieldGraph
