import FieldGraph.Library.Basic

/-! # Edits of functions

Creating nodes and setting params. A node of a kind with a noise gets a new noise of
its own; setting a noise param shares the noise that is given.
-/

namespace FieldGraph

inductive ParamKey where
  | index (place : Int)
  | name (text : String)

namespace Node

def paramPlace (node : Node) : ParamKey → Except EditError Nat
  | .name text =>
    match node.kind.entry.paramIndex? text with
    | some place => .ok place
    | none => .error (.paramUnknown text node.id node.kind)
  | .index place =>
    if 0 ≤ place ∧ place < node.params.length then .ok place.toNat
    else .error (.paramMissing place node.id node.kind)

def param (node : Node) (key : ParamKey) : Except EditError Setting := do
  return node.params.getD (← node.paramPlace key) default

end Node

/-- The value a param of a type takes when it is set. The first text quotes a value that is refused.
-/
def ParamSpec.setting (spec : ParamSpec) (node : Int) (quote : Value → String) (value : Value) :
    Except EditError Setting :=
  let refused := EditError.paramRejected (quote value) spec.name spec.type node
  match spec.type, value with
  | .real, .real x => .ok (.real x)
  | .real, .integer n =>
    match (Number.integer n : Number Float).toReal with
    | .ok x => .ok (.real x)
    | .error cause => .error (.conversion cause)
  | .integer, .integer n => .ok (.integer n)
  | .text, .text s => .ok (.text s)
  | .resource, .null => .ok (.noise none)
  | .resource, .noise id => .ok (.noise (some id))
  | _, _ => .error refused

namespace Library

def newSetting : ParamDefault → Editing Library Setting
  | .real x => return .real x
  | .integer n => return .integer n
  | .text s => return .text s
  | .freshNoise => do return .noise (some (← newNoise .standard))

def createNode (function : FunctionId) (kind : Kind) (asked : Option Int) :
    Editing Library Int := do
  if kind = .function then throw .functionKind
  let id ← onGraph function (Graph.reserveId asked)
  let params ← kind.entry.params.mapM fun spec => newSetting spec.default
  onGraph function (Graph.addNode (Node.ofKind id kind params))
  return id

def removeNode (function : FunctionId) (id : Int) : Editing Library Unit :=
  onGraph function (Graph.removeNode id)

/-- Removes all nodes and all that the function declares. The functions that embed it
are not marked. -/
def clear (function : FunctionId) : Editing Library Unit := do
  onGraph function Graph.clear
  modify (·.modifyFunction function fun function => { function with inputs := [], outputs := [] })

def connect (function : FunctionId) (connection : Connection) : Editing Library Unit :=
  onGraph function (Graph.connect connection)

def disconnect (function : FunctionId) (connection : Connection) : Editing Library Bool :=
  onGraph function (Graph.disconnect connection)

def setName (function : FunctionId) (id : Int) (name : String) : Editing Library Unit :=
  onGraph function (Graph.setName id name)

def setParam (function : FunctionId) (id : Int) (key : ParamKey) (value : Value) :
    Editing Library Unit := do
  let library ← get
  let node ← askGraph function (·.find id)
  let place ← Fallible.ofExcept (node.paramPlace key)
  match node.kind.entry.params[place]? with
  | none => throw (.paramMissing place id node.kind)
  | some spec =>
    let setting ← Fallible.ofExcept (spec.setting id library.quoteValue value)
    onGraph function (modify (·.modifyNode id fun node =>
      { node with params := node.params.set place setting }))

def param (function : FunctionId) (id : Int) (key : ParamKey) : Editing Library Setting := do
  let node ← askGraph function (·.find id)
  Fallible.ofExcept (node.param key)

def setDefault (function : FunctionId) (port : Port) (value : Value) : Editing Library Unit := do
  let library ← get
  onGraph function (Graph.setDefault port value library.quoteValue)

def setVariables (function : FunctionId) (id : Int) (names : List String) :
    Editing Library Unit :=
  onGraph function (Graph.setVariables id names)

end Library

end FieldGraph
