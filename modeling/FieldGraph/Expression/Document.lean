import FieldGraph.Expression.Parse
import FieldGraph.Value

/-! # Documents of expressions

Tokens, syntax errors and trees, for looking into an expression.
-/

namespace FieldGraph.Expression

def TokenKind.label : TokenKind → String
  | .number => "NUMBER"
  | .name => "NAME"
  | .operator _ => "OPERATOR"
  | .opening => "PAREN_OPEN"
  | .closing => "PAREN_CLOSE"
  | .comma => "COMMA"
  | .stop => "END"

def Token.document (token : Token) : Value :=
  .list [.text token.kind.label, .text token.text, .ofNat token.position]

def errorDocument (error : Option SyntaxError) : Value :=
  let (id, position, symbol) := match error with
    | some error => (error.cause.name, error.position, error.symbol)
    | none => ("NONE", 0, "")
  .record [("id", .text id), ("position", .ofNat position), ("symbol", .text symbol)]

def tokensDocument : Except SyntaxError (List Token) → Value
  | .ok tokens =>
    .record [("tokens", .list (tokens.map Token.document)), ("parse_error", errorDocument none)]
  | .error error => .record [("tokens", .list []), ("parse_error", errorDocument (some error))]

mutual

def Tree.document : Tree → Value
  | .number x => .list [.text "num", .real x]
  | .var name => .list [.text "var", .text name]
  | .binary op left right =>
    .list [.text "op", .text op.symbol.toString, left.document, right.document]
  | .call function args => .list (.text "call" :: .text function.name :: documents args)

def documents : List Tree → List Value
  | [] => []
  | tree :: trees => tree.document :: documents trees

end

def parseDocument (root : Option Tree) (error : Option SyntaxError) : Value :=
  .record [
    ("ok", .bool error.isNone),
    ("parse_error", errorDocument error),
    ("tree", match root with
      | some tree => tree.document
      | none => .null),
    ("string", .text (renderRoot root)),
    ("variables", .list ((variablesOf root).map .text))]

def Callable.tableDocument (table : List Callable) : Value :=
  .list ((table.mergeSort fun a b => a.name ≤ b.name).map fun function =>
    .list [.text function.name, .ofNat function.arity, .text function.operation.entry.name])

end FieldGraph.Expression
