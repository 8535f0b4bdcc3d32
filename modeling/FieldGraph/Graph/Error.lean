import FieldGraph.Fallible
import FieldGraph.Graph.Basic
import FieldGraph.Value

/-! # Editing errors

Why an edit is refused. An edit is a computation over the edited state that may be
refused.
-/

namespace FieldGraph

/-- Why an edit, or a question about a graph, is refused. -/
inductive EditError where
  | unknownKind (text : String)
  | badKindNumber (number : Int)
  /-- Function nodes cannot be created from their kind alone. -/
  | functionKind
  | notAFunction
  | nodeExists (id : Int)
  | nodeMissing (id : Int)
  | cannotConnect (connection : Connection)
  | inputMissing (port : Port) (kind : Kind)
  | outputMissing (port : Port) (kind : Kind)
  | paramUnknown (name : String) (node : Int) (kind : Kind)
  | paramMissing (index : Int) (node : Int) (kind : Kind)
  | paramRejected (value : String) (name : String) (type : ParamType) (node : Int)
  | defaultRejected (port : String) (value : String)
  | notExpression (node : Int)
  | duplicateVariables (names : List String)
  | notAnInput (kind : Kind)
  | notAnOutput (kind : Kind)
  | periodNotPositive (period : Number Float)
  | conversion (cause : ConversionError)
  | cycle (node : Int)

namespace EditError

def nodeText (id : Int) (kind : Kind) : String :=
  "node " ++ toString id ++ " (" ++ kind.name ++ ")"

def message : EditError → String
  | .unknownKind text => "Unknown node type '" ++ text ++ "'"
  | .badKindNumber number => toString number ++ " is not a valid NodeTypeID"
  | .functionKind => "Function nodes must be created with create_function_node()"
  | .notAFunction => "Expected a GraphFunction, got None"
  | .nodeExists id => "Node with id '" ++ toString id ++ "' already exists in the graph"
  | .nodeMissing id => "Node with id '" ++ toString id ++ "' does not exist in the graph"
  | .cannotConnect connection =>
    "Cannot connect " ++ connection.source.quote ++ " to " ++ connection.target.quote
  | .inputMissing port kind =>
    "Input port " ++ toString port.index ++ " not found on " ++ nodeText port.node kind
  | .outputMissing port kind =>
    "Output port " ++ toString port.index ++ " not found on " ++ nodeText port.node kind
  | .paramUnknown name node kind => "Param '" ++ name ++ "' not found on " ++ nodeText node kind
  | .paramMissing index node kind =>
    "Param index " ++ toString index ++ " out of range on " ++ nodeText node kind
  | .paramRejected value name type node =>
    "Invalid value " ++ value ++ " for param '" ++ name ++ "' (" ++ type.name ++ ") of node " ++
      toString node
  | .defaultRejected port value =>
    "Default value of port '" ++ port ++ "' must be a number, got " ++ value
  | .notExpression node => "Node " ++ toString node ++ " is not an expression node"
  | .duplicateVariables names => "Duplicate variable names in " ++ bracketed (names.map Text.quoted)
  | .notAnInput kind => kind.name ++ " cannot be used as a function input"
  | .notAnOutput kind => kind.name ++ " cannot be used as a function output"
  | .periodNotPositive period => "Noise period must be positive, got " ++ period.quote
  | .conversion cause => cause.message
  | .cycle node => "Cycle detected at node " ++ toString node

end EditError

/-- An edit of a state `σ`. -/
abbrev Editing (σ : Type) := Fallible EditError σ

def Editing.ofConversion {σ α : Type} (result : Except ConversionError α) : Editing σ α :=
  Fallible.ofExcept (result.mapError .conversion)

end FieldGraph
