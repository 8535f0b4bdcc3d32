import FieldGraph.Compile.Document
import FieldGraph.Library.Document
import FieldGraph.Library.Fingerprint
import FieldGraph.Service.Basic
import FieldGraph.Text.Uppercase

/-! # Answering requests

One action for each request. An expression is read before it is stored, so that a rejected one
leaves its node as it is.
-/

namespace FieldGraph

namespace Serving

/-- The document of a node with the place where it is drawn. -/
def nodeDocument (service : Service) (node : Node) : Value :=
  let place := match service.places.get? node.id with
    | some place => place.document
    | none => .null
  .record (node.fields service.library ++ [("position", place)])

def showGraph : Serving Response := do
  let service ← get
  let function ← edit (Library.getFunction Service.edited)
  let fingerprint ← edit (Fallible.ofExcept (service.library.fingerprint Service.edited))
  return .done .ok (.record (function.fields (nodeDocument service) ++
    [("hash", .text (Library.fingerprintText fingerprint))]))

def coordinate (position : List (String × Float)) (name : String) : Serving Float :=
  match position.lookup name with
  | some x => return x
  | none => refuse .invalid (Text.quoted name)

def setPlace (id : Int) (position : List (String × Float)) : Serving Unit := do
  let x ← coordinate position "x"
  let y ← coordinate position "y"
  modify fun service => { service with places := service.places.insert id ⟨x, y⟩ }

/-- Creates a node. It stays if its position turns out to be incomplete. -/
def createNode (kindName : String) (name : Option String)
    (position : Option (List (String × Float))) : Serving Response := do
  match Catalog.kindNamed? kindName with
  | none => failEdit (.unknownKind kindName)
  | some kind =>
    let id ← edit (Library.createNode Service.edited kind none)
    let title := name.getD ""
    if title ≠ "" then edit (Library.setName Service.edited id title)
    let coordinates := position.getD []
    if !coordinates.isEmpty then setPlace id coordinates
    return .done .created (.record [
      ("id", .integer id), ("type", .text kind.name), ("name", .text title)])

def removeNode (id : Int) : Serving Response := do
  let _ ← requireNode id
  edit (Library.removeNode Service.edited id)
  modify fun service => { service with places := service.places.erase id }
  return .done .noContent .null

def accepted : Value := .record [("ok", .bool true)]

def connect (connection : Connection) : Serving Response := do
  let _ ← requireNode connection.source.node
  let _ ← requireNode connection.target.node
  if (← graph).canConnect connection then
    edit (Library.connect Service.edited connection)
    return .done .created accepted
  else refuse .invalid "Connection is not allowed"

def disconnect (connection : Connection) : Serving Response := do
  if ← edit (Library.disconnect Service.edited connection) then
    return .done .noContent .null
  else refuse .missing "Connection not found"

/-- The variables of the expression that a value gives to a node, if it does so. -/
def newVariables (node : Node) (value : Value) : Serving (Option (List String)) :=
  match node.kind, value with
  | .expression, .text text =>
    match Expression.parseWithin Expression.requestRoom Expression.Callable.catalog text with
    | .ok root => return some (Expression.variablesOf root)
    | .error (.rejected error) =>
      throw (.refused .invalid (.record [
        ("error", .text error.cause.name), ("position", .ofNat error.position)]))
    | .error (.malformedNumber lexeme) => breakOff (.compile (.malformedNumber lexeme))
    | .error .nestedTooDeep => breakOff (.compile .nestedTooDeep)
  | _, _ => return none

def setParam (id : Int) (name : String) (value : Value) : Serving Response := do
  let node ← requireNode id
  let declared ← newVariables node value
  edit (Library.setParam Service.edited id (.name name) value)
  if let some names := declared then edit (Library.setVariables Service.edited id names)
  let changed ← requireNode id
  return .done .ok (.record [
    ("ok", .bool true), ("node", changed.document (← get).library)])

def setDefault (port : Port) (value : Float) : Serving Response := do
  let _ ← requireNode port.node
  edit (Library.setDefault Service.edited port (.real value))
  return .done .ok accepted

def verdictFields (verdict : Verdict) (program : Option (Program Float)) :
    List (String × Value) :=
  verdict.fields ++
    match program with
    | some program => [("program", program.document)]
    | none => []

def compile (debug : Bool) : Serving Response := do
  let service ← get
  match service.generator.compile service.library Service.edited debug with
  | .error cause => breakOff (.compile cause)
  | .ok (verdict, generator) =>
    set { service with generator }
    let program := if verdict.isGood then generator.program.map Prod.snd else none
    return .done .ok (.record (verdictFields verdict program))

def single (position : List Int) (channel : String) : Serving Response := do
  requireProgram
  let name := Text.uppercase channel
  match Voxel.Channel.ofName? name with
  | none => refuse .invalid (Text.quoted name)
  | some channel =>
    let value ← generate (Generating.single (position.map .integer) channel)
    return .done .ok (.record [("value", .real value.toFloat)])

def rangeDocument (port : Port) (range : Interval Float) : Value :=
  .record [
    ("node_id", .integer port.node),
    ("port", .integer port.index),
    ("min", .ofFinite range.lower),
    ("max", .ofFinite range.upper)]

/-- The ranges of the output ports between two corners, by port. -/
def analyze (lower upper : List Float) : Serving Response := do
  if lower.length ≠ 3 ∨ upper.length ≠ 3 then
    refuse .invalid "min and max must have 3 components"
  requireProgram
  let ranges ← generate (do Generating.ofFault ((← get).analyze (Box.between lower upper)))
  return .done .ok (.list ((ascendingBy (fun (port, _) => [port.node, port.index]) ranges).map
    fun (port, range) => rangeDocument port range))

def answer : Request → Serving Response
  | .health => return .done .ok (.record [("status", .text "ok")])
  | .kinds => return .done .ok (.list (Kind.all.map Kind.document))
  | .graph => showGraph
  | .createNode kind name position => createNode kind name position
  | .removeNode id => removeNode id
  | .connect connection => connect connection
  | .disconnect connection => disconnect connection
  | .setParam id name value => setParam id name value
  | .setDefault port value => setDefault port value
  | .compile debug => compile debug
  | .single position channel => single position channel
  | .analyze lower upper => analyze lower upper

end Serving

def Service.respond (service : Service) (request : Request) : Response × Service :=
  let (result, next) := (Serving.answer request).outcome service
  match result with
  | .ok response => (response, next)
  | .error response => (response, next)

end FieldGraph
