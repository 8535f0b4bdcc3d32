import FieldGraph.Text.Blank
import FieldGraph.Text.Numeral

/-! # Tokens of expressions

An expression is scanned from left to right into numbers, names, operators, parentheses and commas.
Blanks separate tokens and are dropped. Positions count characters from the start of the text.

Number tokens are digits of any script with at most one point. A number's lexeme and the text behind
it make up the text (`splitNumber_append`), and a number takes at least one character
(`splitNumber_shorter`).
-/

namespace FieldGraph.Expression

open Text

inductive BinaryOperator where
  | add | subtract | multiply | divide | power
  deriving DecidableEq, Repr

namespace BinaryOperator

def symbol : BinaryOperator → Char
  | .add => '+'
  | .subtract => '-'
  | .multiply => '*'
  | .divide => '/'
  | .power => '^'

def ofChar? (c : Char) : Option BinaryOperator :=
  [.add, .subtract, .multiply, .divide, .power].find? (·.symbol == c)

end BinaryOperator

inductive TokenKind where
  | number
  | name
  | operator (op : BinaryOperator)
  | opening
  | closing
  | comma
  | stop
  deriving DecidableEq, Repr

/-- A piece of an expression with its place in the text. -/
structure Token where
  kind : TokenKind
  text : String
  position : Nat
  deriving DecidableEq, Repr

/-- The token behind a text with the given number of characters. -/
def Token.stop (length : Nat) : Token := ⟨.stop, "", length⟩

/-- Why an expression is refused. -/
inductive SyntaxCause where
  | invalidToken
  | unexpectedToken
  | unclosedParenthesis
  | missingOperand
  | multipleOperands
  | tooManyArguments
  | tooFewArguments
  | expectedArgument
  | unknownFunction
  deriving DecidableEq, Repr

def SyntaxCause.name : SyntaxCause → String
  | .invalidToken => "INVALID_TOKEN"
  | .unexpectedToken => "UNEXPECTED_TOKEN"
  | .unclosedParenthesis => "UNCLOSED_PARENTHESIS"
  | .missingOperand => "MISSING_OPERAND_ARGUMENTS"
  | .multipleOperands => "MULTIPLE_OPERANDS"
  | .tooManyArguments => "TOO_MANY_ARGUMENTS"
  | .tooFewArguments => "TOO_FEW_ARGUMENTS"
  | .expectedArgument => "EXPECTED_ARGUMENT"
  | .unknownFunction => "UNKNOWN_FUNCTION"

/-- A cause with the text it is about. -/
structure SyntaxError where
  cause : SyntaxCause
  position : Nat
  symbol : String
  deriving DecidableEq, Repr

def Token.complaint (token : Token) (cause : SyntaxCause) : SyntaxError :=
  ⟨cause, token.position, token.text⟩

def isNameStart (c : Char) : Bool := isLetter c || c == '_'

def isNamePart (c : Char) : Bool := isAlphanumeric c || c == '_'

/-- Whether a number starts here: a digit, or a point before a digit. -/
def startsNumber : List Char → Bool
  | [] => false
  | c :: rest => isDigit c || (c == '.' && rest.head?.any isDigit)

def splitNumber (text : List Char) : List Char × List Char :=
  let whole := text.takeWhile isDigit
  match text.dropWhile isDigit with
  | '.' :: rest => (whole ++ '.' :: rest.takeWhile isDigit, rest.dropWhile isDigit)
  | rest => (whole, rest)

/-- Nothing is lost between a number and the text behind it. -/
theorem splitNumber_append (text : List Char) :
    (splitNumber text).1 ++ (splitNumber text).2 = text := by
  have parts := List.takeWhile_append_dropWhile (p := isDigit) (l := text)
  unfold splitNumber
  split
  · rename_i rest tail
    rw [tail] at parts
    simp only [List.append_assoc, List.cons_append, List.takeWhile_append_dropWhile]
    exact parts
  · exact parts

/-- A number takes at least one character. -/
theorem splitNumber_ne_nil {text : List Char} (starts : startsNumber text = true) :
    (splitNumber text).1 ≠ [] := by
  cases text with
  | nil => simp [startsNumber] at starts
  | cons c rest =>
    unfold splitNumber
    cases digit : isDigit c with
    | true => split <;> simp [digit]
    | false =>
      have point : c = '.' := by
        simp only [startsNumber, digit, Bool.false_or, Bool.and_eq_true, beq_iff_eq] at starts
        exact starts.1
      subst point
      simp [digit]

theorem splitNumber_shorter {text : List Char} (starts : startsNumber text = true) :
    (splitNumber text).2.length < text.length := by
  have whole := congrArg List.length (splitNumber_append text)
  have nonempty := List.length_pos_iff.mpr (splitNumber_ne_nil starts)
  rw [List.length_append] at whole
  omega

theorem length_dropWhile_le (p : Char → Bool) (text : List Char) :
    (text.dropWhile p).length ≤ text.length := by
  induction text with
  | nil => simp
  | cons c rest ih =>
    cases hit : p c
    · simp [hit]
    · simp [hit]; omega

def symbolKind? (c : Char) : Option TokenKind :=
  match BinaryOperator.ofChar? c with
  | some op => some (.operator op)
  | none =>
    if c = '(' then some .opening
    else if c = ')' then some .closing
    else if c = ',' then some .comma
    else none

def scanFrom (position : Nat) : List Char → Except SyntaxError (List Token)
  | [] => .ok []
  | c :: rest =>
    if isBlank c then scanFrom (position + 1) rest
    else if startsNumber (c :: rest) = true then
      let lexeme := (splitNumber (c :: rest)).1
      (scanFrom (position + lexeme.length) (splitNumber (c :: rest)).2).map
        (⟨.number, String.ofList lexeme, position⟩ :: ·)
    else if isNameStart c then
      let lexeme := c :: rest.takeWhile isNamePart
      (scanFrom (position + lexeme.length) (rest.dropWhile isNamePart)).map
        (⟨.name, String.ofList lexeme, position⟩ :: ·)
    else
      match symbolKind? c with
      | some kind => (scanFrom (position + 1) rest).map (⟨kind, c.toString, position⟩ :: ·)
      | none => .error ⟨.invalidToken, position, c.toString⟩
termination_by text => text.length
decreasing_by
  · simp
  · exact splitNumber_shorter ‹_›
  · have := length_dropWhile_le isNamePart rest
    simp only [List.length_cons]
    omega
  · simp

/-- The tokens of a text, without the one that marks its end. -/
def scan (text : String) : Except SyntaxError (List Token) := scanFrom 0 text.toList

def tokenize (text : String) : Except SyntaxError (List Token) :=
  (scan text).map (· ++ [.stop text.length])

end FieldGraph.Expression
