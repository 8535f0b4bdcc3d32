import FieldGraph.Expression.Parse
import FieldGraph.Proofs.Results

/-! # What the readers do

What each reader of expressions makes of the tokens in front of it: an equation for every
kind of first token, without the bounds that readers carry along.
-/

namespace FieldGraph.Expression

variable {table : List Callable} {length strength level : Nat} {β : Type} {tokens rest : List Token}
  {token opening : Token} {op : BinaryOperator} {reading : Reading β tokens}

/-- What was read and what is behind it. -/
def Reading.plain {β : Type} {tokens : List Token} (reading : Reading β tokens) :
    Except ParseFailure (β × List Token) :=
  reading.map fun portion => (portion.value, portion.rest)

theorem Reading.plain_eq_ok_iff {value : β} :
    reading.plain = .ok (value, rest) ↔ ∃ bound, reading = .ok ⟨value, rest, bound⟩ := by
  cases reading with
  | error failure => simp [plain, Except.map]
  | ok portion =>
    obtain ⟨found, behind, bound⟩ := portion
    simp only [plain, Except.map, Except.ok.injEq, Prod.mk.injEq, Portion.mk.injEq]
    constructor
    · rintro ⟨rfl, rfl⟩
      exact ⟨bound, rfl, rfl⟩
    · rintro ⟨-, rfl, rfl⟩
      exact ⟨rfl, rfl⟩

theorem Reading.length_le {value : β} (read : reading.plain = .ok (value, rest)) :
    rest.length ≤ tokens.length :=
  (plain_eq_ok_iff.mp read).1

theorem plain_readExpression (level : Nat) (tokens : List Token) :
    (readExpression table length level tokens).plain =
      (readOperand table length tokens).plain >>= fun (left, rest) =>
        (readOperators table length level left rest).plain := by
  rw [readExpression.eq_def]
  cases readOperand table length tokens with
  | error failure => rfl
  | ok portion =>
    obtain ⟨left, rest, bound⟩ := portion
    change _ = (readOperators table length level left rest).plain
    dsimp only
    cases readOperators table length level left rest <;> rfl

/-- A kind of token does not continue an operand: it is no operand, and no operator of some
strength. -/
def TokenKind.Ends (strength : Nat) : TokenKind → Prop
  | .operator op => op.strength < strength
  | .number | .name | .opening => False
  | .closing | .comma | .stop => True

/-- The next token, if there is one, does not continue an operand. -/
def Ends (strength : Nat) (rest : List Token) : Prop :=
  ∀ token ∈ rest.head?, token.kind.Ends strength

theorem ends_nil (strength : Nat) : Ends strength [] := by
  intro token none
  cases none

theorem ends_cons (rest : List Token) :
    Ends strength (token :: rest) ↔ token.kind.Ends strength := by
  constructor
  · intro ends
    exact ends token rfl
  · intro ends other same
    cases same
    exact ends

theorem Ends.mono {weak strong : Nat} (le : weak ≤ strong) (ends : Ends weak rest) :
    Ends strong rest := by
  intro token next
  have here := ends token next
  revert here
  cases token.kind with
  | operator op => exact fun weaker => Nat.lt_of_lt_of_le weaker le
  | number | name | opening => exact id
  | closing | comma | stop => exact id

theorem ends_sign (ends : Ends 4 rest) : Ends signStrength rest := by
  intro token next
  have here := ends token next
  revert here
  cases token.kind with
  | operator op =>
    intro weaker
    have apart : op.strength ≠ 3 := by cases op <;> decide
    exact Nat.lt_of_le_of_ne (Nat.le_of_lt_succ weaker) apart
  | number | name | opening => exact id
  | closing | comma | stop => exact id

theorem ends_closing (kind : token.kind = .closing) (strength : Nat) (rest : List Token) :
    Ends strength (token :: rest) := by
  rw [ends_cons, kind]
  trivial

theorem ends_comma (kind : token.kind = .comma) (strength : Nat) (rest : List Token) :
    Ends strength (token :: rest) := by
  rw [ends_cons, kind]
  trivial

theorem plain_readOperators_of_ends (ends : Ends level rest) (left : Option Tree) :
    (readOperators table length level left rest).plain = .ok (left, rest) := by
  rw [readOperators.eq_def]
  match rest with
  | [] => rfl
  | ⟨kind, text, pos⟩ :: rest =>
    rw [ends_cons] at ends
    cases kind with
    | operator op =>
      have weaker : op.strength < level := ends
      dsimp only
      rw [if_pos weaker]
      rfl
    | number | name | opening => exact ends.elim
    | closing | comma | stop => rfl

theorem plain_readOperators_operator (kind : token.kind = .operator op)
    (strong : level ≤ op.strength) (left : Option Tree) (rest : List Token) :
    (readOperators table length level left (token :: rest)).plain =
      (readExpression table length op.rightStrength rest).plain >>= fun (right, behind) =>
        match left, right with
        | some a, some b => (readOperators table length level (some (a.combine op b)) behind).plain
        | _, _ => refuse .missingOperand token := by
  rw [readOperators.eq_def]
  dsimp only
  rw [kind]
  dsimp only
  rw [if_neg (Nat.not_lt.mpr strong)]
  cases readExpression table length op.rightStrength rest with
  | error failure => rfl
  | ok portion =>
    obtain ⟨right, behind, bound⟩ := portion
    cases left with
    | none => rfl
    | some a =>
      cases right with
      | none => rfl
      | some b =>
        change _ = (readOperators table length level (some (a.combine op b)) behind).plain
        dsimp only
        cases readOperators table length level (some (a.combine op b)) behind <;> rfl

theorem plain_readOperand_of_ends (ends : Ends 0 rest) :
    (readOperand table length rest).plain = .ok (none, rest) := by
  rw [readOperand.eq_def]
  match rest with
  | [] => rfl
  | ⟨kind, text, pos⟩ :: rest =>
    rw [ends_cons] at ends
    cases kind with
    | operator op => exact (Nat.not_lt_zero _ ends).elim
    | number | name | opening => exact ends.elim
    | closing | comma | stop => rfl

theorem plain_readOperand_number (kind : token.kind = .number) {value : Float}
    (valued : numberValue? token.text = some value) (rest : List Token) :
    (readOperand table length (token :: rest)).plain = .ok (some (.number value), rest) := by
  rw [readOperand.eq_def]
  dsimp only
  rw [kind]
  rw [valued]
  rfl

theorem plain_readOperand_group (opens : opening.kind = .opening) (tokens : List Token) :
    (readOperand table length (opening :: tokens)).plain =
      (readExpression table length 0 tokens).plain >>= fun (inner, rest) =>
        match rest with
        | [] => refuse .unclosedParenthesis opening
        | closing :: behind =>
          if closing.kind = .closing then .ok (inner, behind)
          else refuse .unexpectedToken closing := by
  rw [readOperand.eq_def]
  dsimp only
  rw [opens]
  cases readExpression table length 0 tokens with
  | error failure => rfl
  | ok portion =>
    obtain ⟨inner, rest, bound⟩ := portion
    cases rest with
    | nil => rfl
    | cons closing behind =>
      change Reading.plain (if closing.kind = .closing then _ else _) = if _ then _ else _
      split <;> rfl

theorem plain_readOperand_sign {sign : Token} (kind : sign.kind = .operator .subtract)
    (tokens : List Token) :
    (readOperand table length (sign :: tokens)).plain =
      (readExpression table length signStrength tokens).plain >>= fun (operand, rest) =>
        match operand with
        | some tree => .ok (some (Tree.combine .subtract (.number 0) tree), rest)
        | none => refuse .missingOperand sign := by
  rw [readOperand.eq_def]
  dsimp only
  rw [kind]
  cases readExpression table length signStrength tokens with
  | error failure => rfl
  | ok portion =>
    obtain ⟨operand, rest, bound⟩ := portion
    cases operand <;> rfl

theorem plain_readOperand_call {name : Token} (named : name.kind = .name)
    (opens : opening.kind = .opening) (tokens : List Token) :
    (readOperand table length (name :: opening :: tokens)).plain =
      match Callable.find? table name.text with
      | none => refuse .unknownFunction name
      | some fn =>
        (readCall table length opening tokens).plain >>= fun (args, rest) =>
          if fn.arity < args.length then refuse .tooManyArguments name
          else if args.length < fn.arity then refuse .tooFewArguments name
          else .ok (some (.apply fn args), rest) := by
  obtain ⟨kind, text, pos⟩ := opening
  obtain rfl : kind = .opening := opens
  rw [readOperand.eq_def]
  dsimp only
  rw [named]
  cases Callable.find? table name.text with
  | none => rfl
  | some fn =>
    cases readCall table length ⟨.opening, text, pos⟩ tokens with
    | error failure => rfl
    | ok portion =>
      change Reading.plain (if fn.arity < portion.value.length then _ else _) =
        if _ then _ else _
      split
      · rfl
      split <;> rfl

theorem plain_readCall_of_ne (opening : Token)
    (goes : ∀ token ∈ tokens.head?, token.kind ≠ .closing) :
    (readCall table length opening tokens).plain =
      (readArguments table length opening tokens).plain := by
  rw [readCall.eq_def]
  split
  · exact (goes _ rfl rfl).elim
  · rfl

theorem plain_readArguments_eq (opening : Token) (tokens : List Token) :
    (readArguments table length opening tokens).plain =
      (readExpression table length 0 tokens).plain >>= fun (argument, rest) =>
        match argument, rest with
        | none, rest => refuse .expectedArgument (peek length rest)
        | some _, [] => refuse .unclosedParenthesis opening
        | some arg, token :: behind =>
          match token.kind with
          | .comma => (readArguments table length opening behind).plain >>= fun (args, final) =>
            .ok (arg :: args, final)
          | .closing => .ok ([arg], behind)
          | _ => refuse .unexpectedToken token := by
  rw [readArguments.eq_def]
  cases readExpression table length 0 tokens with
  | error failure => rfl
  | ok portion =>
    obtain ⟨argument, rest, bound⟩ := portion
    cases argument with
    | none => rfl
    | some arg =>
      cases rest with
      | nil => rfl
      | cons token behind =>
        obtain ⟨kind, text, pos⟩ := token
        cases kind with
        | comma =>
          dsimp only [Reading.plain, Except.map, bind, Except.bind]
          cases readArguments table length opening behind <;> rfl
        | number | name | operator op | opening | closing | stop => rfl

theorem treeOfTokens_eq (tokens : List Token) : treeOfTokens table length tokens =
      (readExpression table length 0 tokens).plain >>= fun (root, rest) =>
        match rest with
        | [] => .ok root
        | trailing :: _ => refuse .unexpectedToken trailing := by
  unfold treeOfTokens
  cases readExpression table length 0 tokens with
  | error failure => rfl
  | ok portion =>
    obtain ⟨root, rest, bound⟩ := portion
    cases rest <;> rfl

end FieldGraph.Expression
