import FieldGraph.Graph.Basic
import FieldGraph.Service.Form

/-! # Requests

What an editor asks of the service, and what the service answers. `Request.read?` reads
a request from a method, a path and a body.
-/

namespace FieldGraph

/-- What an editor asks of the service. -/
inductive Request where
  | health
  | kinds
  | graph
  | createNode (kind : String) (name : Option String) (position : Option (List (String × Float)))
  | removeNode (id : Int)
  | connect (connection : Connection)
  | disconnect (connection : Connection)
  | setParam (id : Int) (name : String) (value : Value)
  | setDefault (port : Port) (value : Float)
  | compile (debug : Bool)
  | single (position : List Int) (channel : String)
  /-- The ranges of the output ports between two corners. -/
  | analyze (lower upper : List Float)

/-- How a request succeeds. -/
inductive Success where
  | ok
  | created
  | noContent
  deriving DecidableEq, Repr

def Success.code : Success → Nat
  | .ok => 200
  | .created => 201
  | .noContent => 204

/-- How a request is refused. -/
inductive Refusal where
  | invalid
  | missing
  deriving DecidableEq, Repr

def Refusal.code : Refusal → Nat
  | .invalid => 400
  | .missing => 404

/-- The status code for a body whose fields are missing or of wrong types. -/
def unreadableCode : Nat := 422

namespace Request

open Form

def connection? (body : Value) : Option Connection := do
  let sourceNode ← required? body "src_node_id" integer?
  let sourceIndex ← required? body "src_port" integer?
  let targetNode ← required? body "dst_node_id" integer?
  let targetIndex ← required? body "dst_port" integer?
  return ⟨⟨sourceNode, sourceIndex⟩, ⟨targetNode, targetIndex⟩⟩

def newNode? (body : Value) : Option Request := do
  let kind ← required? body "type" text?
  let name ← optional? body "name" text?
  let position ← optional? body "position" reals?
  return .createNode kind name position

def readParts? (method : String) (path : List String) (body : Value) : Option Request :=
  match method, path with
  | "GET", ["health"] => some .health
  | "GET", ["node-types"] => some .kinds
  | "GET", ["graph"] => some .graph
  | "POST", ["graph", "nodes"] => newNode? body
  | "DELETE", ["graph", "nodes", id] => id.toInt?.map .removeNode
  | "POST", ["graph", "connections"] => (connection? body).map .connect
  | "DELETE", ["graph", "connections"] => (connection? body).map .disconnect
  | "PUT", ["graph", "nodes", id, "params", name] => do
      let value ← required? body "value" some
      return .setParam (← id.toInt?) name value
  | "PUT", ["graph", "nodes", id, "inputs", index] => do
      let value ← required? body "value" real?
      return .setDefault ⟨← id.toInt?, ← index.toInt?⟩ value
  | "POST", ["compile"] => (withDefault? body "debug" false bool?).map .compile
  | "POST", ["generate", "single"] => do
      let position ← required? body "position" (list? integer?)
      let channel ← withDefault? body "channel" "SDF" text?
      return .single position channel
  | "POST", ["analyze-range"] => do
      let lower ← required? body "min" (list? real?)
      let upper ← required? body "max" (list? real?)
      return .analyze lower upper
  | _, _ => none

def read? (method path : String) (body : Value) : Option Request :=
  readParts? method ((path.splitOn "/").drop 1) body

end Request

end FieldGraph
