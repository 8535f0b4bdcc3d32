import FieldGraph.Expression.Tree

/-! # Reading expressions

Precedence climbing over tokens. Sums bind weaker than products, products weaker than the sign, and
the sign weaker than powers; powers associate to the right and the others to the left. A missing
operand is read as nothing, which is allowed only for a whole expression and inside plain
parentheses.

Every reader returns the tokens behind what it read, no more than it was given; this bounds the
recursion.
-/

namespace FieldGraph.Expression

open Text

/-- Why a text has no tree. -/
inductive ParseFailure where
  | rejected (error : SyntaxError)
  /-- A number is written with digits that have no place value. -/
  | malformedNumber (lexeme : String)
  /-- Reading the text nests more calls than there is room for. -/
  | nestedTooDeep
  deriving DecidableEq, Repr

namespace BinaryOperator

def strength : BinaryOperator → Nat
  | .add | .subtract => 1
  | .multiply | .divide => 2
  | .power => 4

def rightStrength : BinaryOperator → Nat
  | .power => 4
  | op => op.strength + 1

end BinaryOperator

def signStrength : Nat := 3

def fractionDigits (lexeme : List Char) : Nat := (lexeme.dropWhile (· != '.')).length - 1

def numberValue? (lexeme : String) : Option Float :=
  let chars := lexeme.toList
  match (chars.filter (· != '.')).mapM decimalValue? with
  | some digits =>
    some (Float.ofScientific (digits.foldl (fun n d => 10 * n + d) 0) true
      (fractionDigits chars))
  | none => none

/-- What is read from some tokens. -/
structure Portion (β : Type) (tokens : List Token) where
  value : β
  rest : List Token
  bound : rest.length ≤ tokens.length

abbrev Reading (β : Type) (tokens : List Token) := Except ParseFailure (Portion β tokens)

def peek (length : Nat) : List Token → Token
  | [] => .stop length
  | token :: _ => token

def refuse {β : Type} (cause : SyntaxCause) (token : Token) : Except ParseFailure β :=
  .error (.rejected (token.complaint cause))

mutual

/-- An operand followed by operators that bind at least as strongly as `level`. -/
def readExpression (table : List Callable) (length level : Nat) (tokens : List Token) :
    Reading (Option Tree) tokens :=
  match readOperand table length tokens with
  | .error failure => .error failure
  | .ok ⟨left, rest, bound⟩ =>
    match readOperators table length level left rest with
    | .error failure => .error failure
    | .ok ⟨value, final, further⟩ => .ok ⟨value, final, Nat.le_trans further bound⟩
termination_by (tokens.length, 2)
decreasing_by
  · exact Prod.Lex.right _ (by decide)
  · exact Prod.Lex.right' _ bound (by decide)

/-- The operators behind a left operand, each with its right operand. -/
def readOperators (table : List Callable) (length level : Nat) (left : Option Tree)
    (tokens : List Token) : Reading (Option Tree) tokens :=
  match tokens with
  | [] => .ok ⟨left, [], Nat.le_refl _⟩
  | token :: rest =>
    match token.kind with
    | .operator op =>
      if op.strength < level then .ok ⟨left, token :: rest, Nat.le_refl _⟩
      else
        match readExpression table length op.rightStrength rest with
        | .error failure => .error failure
        | .ok ⟨right, behind, bound⟩ =>
          match left, right with
          | some a, some b =>
            match readOperators table length level (some (a.combine op b)) behind with
            | .error failure => .error failure
            | .ok ⟨value, final, further⟩ =>
              .ok ⟨value, final, Nat.le_succ_of_le (Nat.le_trans further bound)⟩
          | _, _ => refuse .missingOperand token
    | .number | .name | .opening => refuse .multipleOperands token
    | _ => .ok ⟨left, token :: rest, Nat.le_refl _⟩
termination_by (tokens.length, 0)
decreasing_by
  · exact Prod.Lex.left _ _ (Nat.lt_succ_self _)
  · exact Prod.Lex.left _ _ (Nat.lt_succ_of_le bound)

/-- A number, a variable, a call, parentheses, or a signed operand; nothing if no operand starts
here. -/
def readOperand (table : List Callable) (length : Nat) (tokens : List Token) :
    Reading (Option Tree) tokens :=
  match tokens with
  | [] => .ok ⟨none, [], Nat.le_refl _⟩
  | token :: rest =>
    match token.kind with
    | .number =>
      match numberValue? token.text with
      | some value => .ok ⟨some (.number value), rest, Nat.le_succ _⟩
      | none => .error (.malformedNumber token.text)
    | .name =>
      match rest with
      | ⟨.opening, text, position⟩ :: behind =>
        match Callable.find? table token.text with
        | none => refuse .unknownFunction token
        | some function =>
          match readCall table length ⟨.opening, text, position⟩ behind with
          | .error failure => .error failure
          | .ok ⟨args, final, bound⟩ =>
            if function.arity < args.length then refuse .tooManyArguments token
            else if args.length < function.arity then refuse .tooFewArguments token
            else
              .ok ⟨some (.apply function args), final,
                Nat.le_succ_of_le (Nat.le_succ_of_le bound)⟩
      | behind => .ok ⟨some (.var token.text), behind, Nat.le_succ _⟩
    | .opening =>
      match readExpression table length 0 rest with
      | .error failure => .error failure
      | .ok ⟨_, [], _⟩ => refuse .unclosedParenthesis token
      | .ok ⟨inner, closing :: behind, bound⟩ =>
        if closing.kind = .closing then
          .ok ⟨inner, behind,
            Nat.le_succ_of_le (Nat.le_trans (Nat.le_succ _) bound)⟩
        else refuse .unexpectedToken closing
    | .operator .subtract =>
      match readExpression table length signStrength rest with
      | .error failure => .error failure
      | .ok ⟨some operand, behind, bound⟩ =>
        .ok ⟨some (Tree.combine .subtract (.number 0) operand), behind,
          Nat.le_succ_of_le bound⟩
      | .ok ⟨none, _, _⟩ => refuse .missingOperand token
    | _ => .ok ⟨none, token :: rest, Nat.le_refl _⟩
termination_by (tokens.length, 1)
decreasing_by
  · exact Prod.Lex.left _ _ (Nat.lt_succ_of_lt (Nat.lt_succ_self _))
  · exact Prod.Lex.left _ _ (Nat.lt_succ_self _)
  · exact Prod.Lex.left _ _ (Nat.lt_succ_self _)

/-- The arguments of a call behind its opening parenthesis, up to and with the
closing one. -/
def readCall (table : List Callable) (length : Nat) (opening : Token) (tokens : List Token) :
    Reading (List Tree) tokens :=
  match tokens with
  | ⟨.closing, _, _⟩ :: behind => .ok ⟨[], behind, Nat.le_succ _⟩
  | tokens => readArguments table length opening tokens
termination_by (tokens.length, 4)
decreasing_by exact Prod.Lex.right _ (by decide)

/-- One or more arguments separated by commas, up to and with the closing
parenthesis. -/
def readArguments (table : List Callable) (length : Nat) (opening : Token)
    (tokens : List Token) : Reading (List Tree) tokens :=
  match readExpression table length 0 tokens with
  | .error failure => .error failure
  | .ok ⟨none, behind, _⟩ => refuse .expectedArgument (peek length behind)
  | .ok ⟨some _, [], _⟩ => refuse .unclosedParenthesis opening
  | .ok ⟨some arg, token :: behind, bound⟩ =>
    match token.kind with
    | .comma =>
      match readArguments table length opening behind with
      | .error failure => .error failure
      | .ok ⟨args, final, further⟩ =>
        .ok ⟨arg :: args, final,
          Nat.le_trans further (Nat.le_trans (Nat.le_succ _) bound)⟩
    | .closing => .ok ⟨[arg], behind, Nat.le_trans (Nat.le_succ _) bound⟩
    | _ => refuse .unexpectedToken token
termination_by (tokens.length, 3)
decreasing_by
  · exact Prod.Lex.right _ (by decide)
  · exact Prod.Lex.left _ _ bound

end

def treeOfTokens (table : List Callable) (length : Nat) (tokens : List Token) :
    Except ParseFailure (Option Tree) :=
  match readExpression table length 0 tokens with
  | .error failure => .error failure
  | .ok ⟨root, [], _⟩ => .ok root
  | .ok ⟨_, trailing :: _, _⟩ => refuse .unexpectedToken trailing

/-- The tree of a text, none if the text is empty or holds nothing but empty
parentheses. -/
def parse (table : List Callable) (text : String) : Except ParseFailure (Option Tree) :=
  match scan text with
  | .error error => .error (.rejected error)
  | .ok tokens => treeOfTokens table text.length tokens

end FieldGraph.Expression
