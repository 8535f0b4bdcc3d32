import FieldGraph.Graph.Edit

/-! # Libraries of functions

A function is a graph with declared inputs and outputs. Functions embed each other through function
nodes, which refer to a function by its handle, and nodes share noises by theirs. When a function
changes what it declares, the functions that embed it are marked, and have to be brought up to date
before they compile again.
-/

namespace FieldGraph

/-- A graph with declared inputs and outputs. -/
structure Function where
  name : String
  graph : Graph := {}
  inputs : List Definition := []
  outputs : List Definition := []
  /-- The functions that have embedded this one. -/
  dependents : List FunctionId := []
  /-- Whether an embedded function has changed what it declares. -/
  marked : Bool := false

def Function.quote (function : Function) : String :=
  "GraphFunction('" ++ function.name ++ "', " ++ toString function.graph.nodes.length ++ " nodes)"

/-- Functions and noises by handle. -/
structure Library where
  functions : List Function := []
  noises : List (ValueNoise Float) := []

namespace Library

def function? (library : Library) (id : FunctionId) : Option Function := library.functions[id]?

def noise? (library : Library) (id : NoiseId) : Option (ValueNoise Float) := library.noises[id]?

def modifyFunction (library : Library) (id : FunctionId) (change : Function → Function) :
    Library :=
  { library with functions := library.functions.modify id change }

def quoteNoise (library : Library) (id : NoiseId) : String :=
  match library.noise? id with
  | some noise => noise.quote
  | none => "None"

def quoteValue (library : Library) (value : Value) : String := value.quote library.quoteNoise

def newFunction (name : String) : Editing Library FunctionId := do
  let library ← get
  set { library with functions := library.functions ++ [({ name } : Function)] }
  return library.functions.length

def newNoise (noise : ValueNoise Float) : Editing Library NoiseId := do
  let library ← get
  set { library with noises := library.noises ++ [noise] }
  return library.noises.length

def find (library : Library) (id : FunctionId) : Except EditError Function :=
  match library.function? id with
  | some function => .ok function
  | none => .error .notAFunction

def getFunction (id : FunctionId) : Editing Library Function := do
  Fallible.ofExcept ((← get).find id)

def onGraph {α : Type} (id : FunctionId) (edit : Editing Graph α) : Editing Library α :=
  Fallible.ofOutcome fun library =>
    match library.function? id with
    | none => (.error .notAFunction, library)
    | some function =>
      let (result, graph) := edit.outcome function.graph
      (result, library.modifyFunction id fun function => { function with graph })

def askGraph {α : Type} (id : FunctionId) (question : Graph → Except EditError α) :
    Editing Library α := do
  let function ← getFunction id
  Fallible.ofExcept (question function.graph)

end Library

namespace ValueNoise

/-- The noise with another period, which has to be above zero or undefined. -/
def withPeriod (noise : ValueNoise Float) (period : Number Float) :
    Except EditError (ValueNoise Float) :=
  if period.isPositive then
    match period.toReal with
    | .ok size => .ok { noise with period := size }
    | .error cause => .error (.conversion cause)
  else .error (.periodNotPositive period)

/-- The noise with another seed; a fraction is cut off. -/
def withSeed (noise : ValueNoise Float) (seed : Number Float) :
    Except EditError (ValueNoise Float) :=
  match seed.truncate with
  | .ok seed => .ok { noise with seed }
  | .error cause => .error (.conversion cause)

def standard : ValueNoise Float := { seed := 0, period := 64 }

def new (seed period : Number Float) : Except EditError (ValueNoise Float) := do
  (← standard.withSeed seed).withPeriod period

end ValueNoise

namespace Library

def changeNoise (id : NoiseId)
    (change : ValueNoise Float → Except EditError (ValueNoise Float)) : Editing Library Unit := do
  let library ← get
  match library.noise? id with
  | none => return
  | some noise =>
    let changed ← Fallible.ofExcept (change noise)
    set { library with noises := library.noises.set id changed }

end Library

end FieldGraph
