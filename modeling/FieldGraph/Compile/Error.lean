import FieldGraph.Expression.Parse
import FieldGraph.Graph.Error

/-! # Compilation errors

A graph that cannot be compiled is rejected with a cause and the node it is about. A compilation
breaks off when a number of an expression has digits without a decimal value, when an expression is
nested too deep, when an integer power is too large, and when the compiler finds its own records
inconsistent.
-/

namespace FieldGraph

/-- Why a graph cannot be compiled. -/
inductive Rejection where
  | noOutput
  | manyDistances
  | manyTypes
  | layerOutOfRange (layer : Int)
  | layerTaken (layer : Int)
  | cycle
  | noFunction
  | selfEmbedding (name : String)
  /-- A function node does not have the ports that its function declares. -/
  | stalePorts (name : String)
  | notCompilable (title : String)
  | badExpression (text : String) (error : Expression.SyntaxError)
  /-- An expression uses a variable that its node has no port for. -/
  | unknownVariable (name : String)

namespace Rejection

def layerCount : Nat := 16

def message : Rejection → String
  | .noOutput => "The graph has no output"
  | .manyDistances => "Only one SDF output is allowed"
  | .manyTypes => "Only one type output is allowed"
  | .layerOutOfRange layer =>
    "Weight layer " ++ toString layer ++ " is out of range [0, " ++
      toString (layerCount - 1) ++ "]"
  | .layerTaken layer => "Weight layer " ++ toString layer ++ " is used by more than one output"
  | .cycle => "Cycle detected while expanding the graph"
  | .noFunction => "Function node has no function"
  | .selfEmbedding name => "Function '" ++ name ++ "' cannot contain itself"
  | .stalePorts name =>
    "Ports of the function node do not match '" ++ name ++ "', function nodes need to be updated"
  | .notCompilable title => title ++ " nodes cannot be compiled"
  | .badExpression text error =>
    "Invalid expression '" ++ text ++ "': " ++ error.cause.name ++ " at position " ++
      toString error.position
  | .unknownVariable name => "Expression uses '" ++ name ++ "' but the node has no such input"

end Rejection

/-- An inconsistency in the compiler's records. -/
inductive Defect where
  | noSuchOutput (port : Port)
  /-- An output node was reached inside an embedded function. -/
  | nestedOutput (node : Int)
  | noBuffer (value : String) (node : Nat)
  | outputWithoutBuffer (node : Int)

def Defect.message : Defect → String
  | .noSuchOutput port => "Node " ++ toString port.node ++ " has no output " ++ toString port.index
  | .nestedOutput node => "Output node " ++ toString node ++ " expanded inside a function"
  | .noBuffer value node =>
    "Input " ++ value ++ " of expanded node " ++ toString node ++ " has no buffer"
  | .outputWithoutBuffer node => "Output node " ++ toString node ++ " has no buffer"

/-- Why a compilation breaks off without judging the graph. -/
inductive Breakdown where
  /-- A number of an expression has digits without a decimal value. -/
  | malformedNumber (lexeme : String)
  /-- Reading an expression nests more calls than there is room for. -/
  | nestedTooDeep
  | fault (cause : Fault)
  | missing (cause : EditError)
  | defect (cause : Defect)

/-- Why a compilation gives no program. -/
inductive CompileError where
  /-- The graph cannot be compiled because of a node, if one is to blame. -/
  | rejected (node : Option Int) (cause : Rejection)
  | broken (cause : Breakdown)

end FieldGraph
