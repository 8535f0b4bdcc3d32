import FieldGraph.Generator.Sample
import FieldGraph.Service.Request

/-! # The service

The state behind an editor: one generator with the function it samples, and where the editor draws
the nodes. `Serving` is an action on it that may end with an answer early.
-/

namespace FieldGraph

/-- Why a request is broken off without an answer. -/
inductive Breakage where
  | edit (cause : EditError)
  | compile (cause : Breakdown)
  | generate (cause : GenerateError)

/-- What the service answers. -/
inductive Response where
  | done (status : Success) (body : Value)
  | refused (status : Refusal) (detail : Value)
  | broken (cause : Breakage)

/-- Where an editor draws a node. -/
structure Place where
  x : Float
  y : Float

def Place.document (place : Place) : Value := .record [("x", .real place.x), ("y", .real place.y)]

/-- The state behind an editor. -/
structure Service where
  library : Library := { functions := [{ name := "main" }] }
  generator : Generator := {}
  places : Table Int Place := {}

/-- An action on the service that may end early with an answer. -/
abbrev Serving := Fallible Response Service

namespace Service

def edited : FunctionId := 0

def graph (service : Service) : Graph :=
  match service.library.function? edited with
  | some function => function.graph
  | none => {}

/-- Where the nodes of a new graph are drawn: in a row. -/
def rowOf (ids : List Int) : Table Int Place :=
  ids.zipIdx.foldl (fun places (id, index) =>
    places.insert id ⟨80 + 260 * index.toFloat, 180⟩) {}

/-- The service with flat ground as its graph, which is compiled. -/
def reset (service : Service) : Service :=
  let library := ((Library.loadPlane edited (.real 0)).outcome service.library).2
  let next := { service with library }
  let generator := match next.generator.compile library edited false with
    | .ok (_, generator) => generator
    | .error _ => next.generator
  { next with generator, places := rowOf next.graph.nodeIds }

/-- The service with a graph without nodes and a generator without a program; the places
stay. -/
def renewed (service : Service) : Service := { places := service.places }

def start : Service := ({} : Service).reset

end Service

namespace Serving

variable {α : Type}

def refuse (status : Refusal) (detail : String) : Serving α :=
  throw (.refused status (.text detail))

def breakOff (cause : Breakage) : Serving α := throw (.broken cause)

def graph : Serving Graph := do return (← get).graph

def requireNode (id : Int) : Serving Node := do
  match (← graph).node? id with
  | some node => return node
  | none => refuse .missing ("Node " ++ toString id ++ " not found")

end Serving

/-- How a failed conversion is told to an editor. One out of range is not told. -/
def ConversionError.detail? : ConversionError → Option String
  | .undefined => some ConversionError.undefined.message
  | .infinite | .tooLarge => none

/-- How a refused edit is told to an editor; one that breaks a request off is not told. -/
def EditError.detail? (error : EditError) : Option String :=
  match error with
  | .paramUnknown _ _ _ => some (Text.quoted error.message)
  | .conversion cause => cause.detail?
  | .cycle _ => none
  | _ => some error.message

/-- How a refusal of the generator is told to an editor. -/
def GenerateError.detail? (error : GenerateError) : Option String :=
  match error with
  | .conversion cause => cause.detail?
  | .run (.fault _) | .run .noSamples | .noIterations => none
  | _ => some error.message

namespace Serving

variable {α : Type}

def failEdit (error : EditError) : Serving α :=
  match error.detail? with
  | some detail => refuse .invalid detail
  | none => breakOff (.edit error)

def edit (change : Editing Library α) : Serving α := do
  let service ← get
  let (result, library) := change.outcome service.library
  set { service with library }
  match result with
  | .ok value => return value
  | .error error => failEdit error

def generate (action : Generating α) : Serving α := do
  let service ← get
  let (result, generator) := action.outcome service.generator
  set { service with generator }
  match result with
  | .ok value => return value
  | .error error =>
    match error.detail? with
    | some detail => refuse .invalid detail
    | none => breakOff (.generate error)

/-- Has the generator's program ready, or refuses. -/
def requireProgram : Serving Unit := do
  if !(← get).generator.isGood then refuse .invalid "Graph is not compiled"

end Serving

end FieldGraph
