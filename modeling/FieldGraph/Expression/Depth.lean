import FieldGraph.Expression.Parse

/-! # How deep the readers are nested

The readers call each other, and only so many calls may be nested in each other. A text whose
reading nests more is not read at all, whatever its tree.
-/

namespace FieldGraph.Expression

/-- The greater of two depths, the second that of what stands behind a portion that is read. -/
def Reading.deeper {β : Type} {tokens : List Token} (reading : Reading β tokens) (depth : Nat)
    (behind : Portion β tokens → Nat) : Nat :=
  match reading with
  | .error _ => depth
  | .ok portion => max depth (behind portion)

mutual

/-- How many calls are nested in each other while an expression is read, with its own. -/
def expressionDepth (table : List Callable) (length level : Nat) (tokens : List Token) : Nat :=
  1 + (readOperand table length tokens).deeper (operandDepth table length tokens)
    fun left => operatorsDepth table length level left.value left.rest
termination_by (tokens.length, 2)
decreasing_by
  · exact Prod.Lex.right _ (by decide)
  · exact Prod.Lex.right' _ left.bound (by decide)

/-- The operators behind a left operand are read in a loop, their right operands one call
deeper. -/
def operatorsDepth (table : List Callable) (length level : Nat) (left : Option Tree)
    (tokens : List Token) : Nat :=
  match tokens with
  | ⟨.operator op, _, _⟩ :: rest =>
    if op.strength < level then 0
    else (readExpression table length op.rightStrength rest).deeper
      (expressionDepth table length op.rightStrength rest) fun right =>
        match left, right.value with
        | some a, some b => operatorsDepth table length level (some (a.combine op b)) right.rest
        | _, _ => 0
  | _ => 0
termination_by (tokens.length, 0)
decreasing_by
  · exact Prod.Lex.left _ _ (Nat.lt_succ_self _)
  · exact Prod.Lex.left _ _ (Nat.lt_succ_of_le right.bound)

/-- A function's arguments are read one call deeper than an operand. -/
def operandDepth (table : List Callable) (length : Nat) (tokens : List Token) : Nat :=
  match tokens with
  | ⟨.name, _, _⟩ :: ⟨.opening, _, _⟩ :: ⟨.closing, _, _⟩ :: _ => 2
  | ⟨.name, text, _⟩ :: ⟨.opening, _, _⟩ :: rest =>
    match Callable.find? table text with
    | some _ => 2 + argumentsDepth table length rest
    | none => 2
  | ⟨.opening, _, _⟩ :: rest => 1 + expressionDepth table length 0 rest
  | ⟨.operator .subtract, _, _⟩ :: rest => 1 + expressionDepth table length signStrength rest
  | _ => 1
termination_by (tokens.length, 1)
decreasing_by
  · exact Prod.Lex.left _ _ (Nat.lt_succ_of_lt (Nat.lt_succ_self _))
  · exact Prod.Lex.left _ _ (Nat.lt_succ_self _)
  · exact Prod.Lex.left _ _ (Nat.lt_succ_self _)

def argumentsDepth (table : List Callable) (length : Nat) (tokens : List Token) : Nat :=
  (readExpression table length 0 tokens).deeper (expressionDepth table length 0 tokens) fun arg =>
    match arg with
    | ⟨some _, ⟨.comma, _, _⟩ :: behind, _⟩ => argumentsDepth table length behind
    | _ => 0
termination_by (tokens.length, 3)
decreasing_by
  · exact Prod.Lex.right _ (by decide)
  · exact Prod.Lex.left _ _ (by assumption)

end

/-- How many calls reading a text nests. -/
def depth (table : List Callable) (text : String) : Nat :=
  match scan text with
  | .error _ => 0
  | .ok tokens => expressionDepth table text.length 0 tokens

/-- The tree of a text, if reading it nests no more calls than there is room for. -/
def parseWithin (room : Nat) (table : List Callable) (text : String) :
    Except ParseFailure (Option Tree) :=
  if room < depth table text then .error .nestedTooDeep else parse table text

/-- The room for reading the text of a request. Assumed of the host: a thousand calls may be nested,
of which fourteen are taken. -/
def requestRoom : Nat := 986

/-- The room for reading in a compilation, seven calls further down. -/
def compileRoom : Nat := requestRoom - 7

end FieldGraph.Expression
