import FieldGraph.Proofs.Expression.Plain

/-! # Numbers in expressions

Reading an expression judges its grammar, unless a number among its tokens has a digit without a
place value. Reading breaks off at the first such number, if no complaint comes before it.

What would be read otherwise is what is read from the mended tokens, with zero in place of every
such number: until it breaks off, a reading follows that of the mended tokens.
-/

namespace FieldGraph.Expression

open List

namespace Token

/-- A number token has a value. -/
def Valued (token : Token) : Prop := token.kind = .number → (numberValue? token.text).isSome = true

/-- Whether a token is a number with a digit that has no place value. -/
def lacksValue (token : Token) : Bool := token.kind == .number && (numberValue? token.text).isNone

/-- The token, with zero in place of a number that has no value. -/
def mend (token : Token) : Token :=
  { token with text := if token.lacksValue then "0" else token.text }

variable {token : Token} {rest : List Token} {opening : Token}

theorem lacksValue_eq_false_iff : token.lacksValue = false ↔ token.Valued := by
  unfold lacksValue Valued
  cases token.kind <;> simp

theorem mend_of_valued (valued : token.lacksValue = false) : token.mend = token := by
  rw [mend, if_neg (by rw [valued]; exact Bool.false_ne_true)]

theorem find?_lacksValue_eq_none_iff {tokens : List Token} :
    tokens.find? lacksValue = none ↔ ∀ token ∈ tokens, token.Valued := by
  rw [find?_eq_none]
  refine forall₂_congr fun token _ => ?_
  rw [Bool.not_eq_true, lacksValue_eq_false_iff]

theorem find?_lacksValue_cons (valued : token.lacksValue = false) :
    (token :: rest).find? lacksValue = rest.find? lacksValue :=
  find?_cons_of_neg (by rw [valued]; exact Bool.false_ne_true)

theorem find?_lacksValue_of_kind {kind : TokenKind} (same : token.kind = kind)
    (other : kind ≠ .number) : (token :: rest).find? lacksValue = rest.find? lacksValue :=
  find?_lacksValue_cons
    (lacksValue_eq_false_iff.mpr fun isNumber => (other (same.symm.trans isNumber)).elim)

end Token

open Token

variable {β γ : Type} {like : β → β → Prop} {like' : γ → γ → Prop} {first : Option Token}
  {among : Token → Prop} {token : Token} {table : List Callable} {length count : Nat}
  {tokens : List Token}

/-- A complaint is about a token from some class. -/
def Blames (among : Token → Prop) (error : SyntaxError) : Prop :=
  ∃ token cause, among token ∧ cause ≠ .invalidToken ∧ error = token.complaint cause

/-- A reading follows that of the mended tokens: it breaks off at the first number without
a value, or both are refused, with a complaint about a token from some class, or both leave the
same tokens of that class behind, with that number still among them. -/
inductive Follows (like : β → β → Prop) (first : Option Token) (among : Token → Prop) :
    Except ParseFailure (β × List Token) → Except ParseFailure (β × List Token) → Prop
  | breaks {token : Token} {model : Except ParseFailure (β × List Token)} : first = some token →
      Follows like first among (.error (.malformedNumber token.text)) model
  | refused {error complaint : SyntaxError} : Blames among error →
      Follows like first among (.error (.rejected error)) (.error (.rejected complaint))
  | read {value value' : β} {rest : List Token} : like value value' →
      rest.find? lacksValue = first → (∀ token ∈ rest, among token) →
        Follows like first among (.ok (value, rest)) (.ok (value', rest.map mend))

theorem follows_refuse {cause cause' : SyntaxCause} {token' : Token} (member : among token)
    (other : cause ≠ .invalidToken) :
    Follows like first among (refuse cause token) (refuse cause' token') :=
  .refused ⟨token, cause, member, other, rfl⟩

theorem Follows.bind {mended : List Token} {reading : Reading β tokens} {model : Reading β mended}
    {next next' : β × List Token → Except ParseFailure (γ × List Token)}
    (follows : Follows like first among reading.plain model.plain)
    (continues : ∀ {value value' rest}, like value value' → rest.length ≤ tokens.length →
      rest.find? lacksValue = first → (∀ token ∈ rest, among token) →
        Follows like' first among (next (value, rest)) (next' (value', rest.map mend))) :
    Follows like' first among (reading.plain >>= next) (model.plain >>= next') := by
  have bounded {value : β} {rest : List Token} :
    reading.plain = .ok (value, rest) → rest.length ≤ tokens.length := Reading.length_le
  generalize reading.plain = plain at follows bounded ⊢
  generalize model.plain = mended at follows ⊢
  cases follows with
  | breaks found => exact .breaks found
  | refused blames => exact .refused blames
  | read alike found kept => exact continues alike (bounded rfl) found kept

/-- Both are trees, or neither is. -/
abbrev SameOption : Option Tree → Option Tree → Prop := Option.Rel fun _ _ => True

/-- As many trees. -/
abbrev SameLength (left right : List Tree) : Prop := left.length = right.length

/-- Readings of fewer than `count` tokens from some class follow those of the mended tokens. -/
structure FollowsBelow (among : Token → Prop) (table : List Callable) (length count : Nat) :
    Prop where
  expression : ∀ (tokens : List Token) (level : Nat), tokens.length < count →
    (∀ token ∈ tokens, among token) → Follows SameOption (tokens.find? lacksValue) among
      (readExpression table length level tokens).plain
      (readExpression table length level (tokens.map mend)).plain
  operators : ∀ (tokens : List Token) (level : Nat) {left left' : Option Tree},
    tokens.length < count → (∀ token ∈ tokens, among token) → SameOption left left' →
      Follows SameOption (tokens.find? lacksValue) among
        (readOperators table length level left tokens).plain
        (readOperators table length level left' (tokens.map mend)).plain
  arguments : ∀ (tokens : List Token) (opening opening' : Token), tokens.length < count →
    (∀ token ∈ tokens, among token) → among opening →
      Follows SameLength (tokens.find? lacksValue) among
        (readArguments table length opening tokens).plain
        (readArguments table length opening' (tokens.map mend)).plain

namespace FollowsBelow

variable {opening : Token} (below : FollowsBelow among table length count)
  (members : ∀ token ∈ tokens, among token)

include below members

theorem readOperators (fewer : tokens.length ≤ count) (level : Nat) {left left' : Option Tree}
    (same : SameOption left left') :
    Follows SameOption (tokens.find? lacksValue) among
      (Expression.readOperators table length level left tokens).plain
      (Expression.readOperators table length level left' (tokens.map mend)).plain := by
  cases tokens with
  | nil =>
    rw [readOperators.eq_def, readOperators.eq_def]
    exact .read same rfl members
  | cons token rest =>
    obtain ⟨kind, text, pos⟩ := token
    obtain ⟨member, others⟩ := forall_mem_cons.mp members
    rw [length_cons] at fewer
    rw [map_cons]
    cases kind with
    | number | name | opening =>
      rw [readOperators.eq_def, readOperators.eq_def]
      exact follows_refuse member (by decide)
    | closing | comma | stop =>
      rw [readOperators.eq_def, readOperators.eq_def]
      exact .read same rfl members
    | operator op =>
      by_cases strong : level ≤ op.strength
      case neg =>
        rw [readOperators.eq_def, readOperators.eq_def]
        simp only [mend, if_pos (Nat.not_le.mp strong)]
        exact .read same rfl members
      rw [plain_readOperators_operator rfl strong, plain_readOperators_operator rfl strong]
      have operand := below.expression rest op.rightStrength (by omega) others
      refine operand.bind fun {right right' behind} alike bound found kept => ?_
      cases same with
      | none => exact follows_refuse member (by decide)
      | some _ =>
        cases alike with
        | none => exact follows_refuse member (by decide)
        | some _ => exact found ▸ below.operators behind level (by omega) kept (.some trivial)

theorem readCall (fewer : tokens.length < count) (opens : among opening) (opening' : Token) :
    Follows SameLength (tokens.find? lacksValue) among
      (Expression.readCall table length opening tokens).plain
      (Expression.readCall table length opening' (tokens.map mend)).plain := by
  have arguments := below.arguments tokens opening opening' fewer members opens
  cases tokens with
  | nil =>
    rw [readCall.eq_def, readCall.eq_def]
    exact arguments
  | cons token rest =>
    obtain ⟨kind, text, pos⟩ := token
    rw [readCall.eq_def, readCall.eq_def]
    cases kind with
    | closing => exact .read rfl rfl (forall_mem_cons.mp members).2
    | number | name | opening | operator op | comma | stop => exact arguments

omit below in
theorem readOperand_number (text : String) (pos : Nat) :
    Follows SameOption ((⟨.number, text, pos⟩ :: tokens).find? lacksValue) among
      (Expression.readOperand table length (⟨.number, text, pos⟩ :: tokens)).plain
      (Expression.readOperand table length ((⟨.number, text, pos⟩ :: tokens).map mend)).plain := by
  have kind : (⟨.number, text, pos⟩ : Token).kind = .number := rfl
  cases value : numberValue? text with
  | none =>
    have lacks : lacksValue ⟨.number, text, pos⟩ = true := by simp [lacksValue, value]
    rw [find?_cons_of_pos lacks, readOperand.eq_def]
    dsimp only
    rw [value]
    exact .breaks rfl
  | some x =>
    have valued : lacksValue ⟨.number, text, pos⟩ = false := by simp [lacksValue, value]
    rw [find?_lacksValue_cons valued, map_cons, mend_of_valued valued,
      plain_readOperand_number kind value, plain_readOperand_number kind value]
    exact .read (.some trivial) rfl members

theorem readOperand_name (text : String) (pos : Nat) (member : among ⟨.name, text, pos⟩)
    (fewer : tokens.length < count) :
    Follows SameOption (tokens.find? lacksValue) among
      (Expression.readOperand table length (⟨.name, text, pos⟩ :: tokens)).plain
      (Expression.readOperand table length (⟨.name, text, pos⟩ :: tokens.map mend)).plain := by
  match tokens with
  | [] =>
    rw [map_nil, readOperand.eq_def]
    exact .read (.some trivial) rfl members
  | ⟨kind, within, place⟩ :: behind =>
    cases kind with
    | number | name | operator op | closing | comma | stop =>
      rw [readOperand.eq_def, readOperand.eq_def]
      exact .read (.some trivial) rfl members
    | opening =>
      obtain ⟨opens, others⟩ := forall_mem_cons.mp members
      rw [length_cons] at fewer
      rw [map_cons,
        plain_readOperand_call rfl rfl, plain_readOperand_call rfl rfl]
      cases Callable.find? table text with
      | none => exact follows_refuse member (by decide)
      | some fn =>
        have call := below.readCall others (by omega) opens (mend ⟨.opening, within, place⟩)
        refine call.bind fun {args args' final} alike bound found kept => ?_
        have same : args.length = args'.length := alike
        dsimp only
        rw [same]
        split
        · exact follows_refuse member (by decide)
        split
        · exact follows_refuse member (by decide)
        · exact .read (.some trivial) found kept

section

variable (fewer : tokens.length ≤ count)

include fewer

theorem readOperand :
    Follows SameOption (tokens.find? lacksValue) among
      (Expression.readOperand table length tokens).plain
      (Expression.readOperand table length (tokens.map mend)).plain := by
  cases tokens with
  | nil =>
    rw [map_nil, readOperand.eq_def]
    exact .read .none rfl members
  | cons token rest =>
    obtain ⟨kind, text, pos⟩ := token
    obtain ⟨member, others⟩ := forall_mem_cons.mp members
    rw [length_cons] at fewer
    cases kind with
    | closing | comma | stop =>
      rw [readOperand.eq_def, readOperand.eq_def]
      exact .read .none rfl members
    | number => exact readOperand_number others text pos
    | name => exact below.readOperand_name others text pos member (by omega)
    | opening =>
      rw [map_cons,
        plain_readOperand_group rfl, plain_readOperand_group rfl]
      have inner := below.expression rest 0 (by omega) others
      refine inner.bind fun {_ _ behind} alike bound found kept => ?_
      cases behind with
      | nil => exact follows_refuse member (by decide)
      | cons closing behind =>
        obtain ⟨next, further⟩ := forall_mem_cons.mp kept
        change Follows _ _ _ (if closing.kind = .closing then _ else _)
          (if closing.kind = .closing then _ else _)
        split
        · rename_i closes
          rw [find?_lacksValue_of_kind closes (by rintro ⟨⟩)] at found
          exact .read alike found further
        · exact follows_refuse next (by decide)
    | operator op =>
      cases op with
      | add | multiply | divide | power =>
        rw [readOperand.eq_def, readOperand.eq_def]
        exact .read .none rfl members
      | subtract =>
        rw [map_cons,
          plain_readOperand_sign rfl, plain_readOperand_sign rfl]
        have operand := below.expression rest signStrength (by omega) others
        refine operand.bind fun alike bound found kept => ?_
        cases alike with
        | none => exact follows_refuse member (by decide)
        | some _ => exact .read (.some trivial) found kept

theorem readExpression (level : Nat) :
    Follows SameOption (tokens.find? lacksValue) among
      (Expression.readExpression table length level tokens).plain
      (Expression.readExpression table length level (tokens.map mend)).plain := by
  rw [plain_readExpression, plain_readExpression]
  refine (below.readOperand members fewer).bind fun {_ _ rest} alike bound found kept => ?_
  exact found ▸ below.readOperators kept (by omega) level alike

theorem readArguments (ends : among (.stop length)) (opens : among opening) (opening' : Token) :
    Follows SameLength (tokens.find? lacksValue) among
      (Expression.readArguments table length opening tokens).plain
      (Expression.readArguments table length opening' (tokens.map mend)).plain := by
  rw [plain_readArguments_eq, plain_readArguments_eq]
  refine (below.readExpression members fewer 0).bind fun {_ _ rest} alike bound found kept => ?_
  cases alike with
  | none =>
    cases rest with
    | nil => exact follows_refuse ends (by decide)
    | cons next behind => exact follows_refuse (kept next mem_cons_self) (by decide)
  | some _ =>
    match rest with
    | [] => exact follows_refuse opens (by decide)
    | ⟨kind, text, pos⟩ :: behind =>
      obtain ⟨next, further⟩ := forall_mem_cons.mp kept
      rw [length_cons] at bound
      cases kind with
      | number | name | operator op | opening | stop => exact follows_refuse next (by decide)
      | closing => exact .read rfl found further
      | comma =>
        rw [find?_lacksValue_of_kind rfl (by rintro ⟨⟩)] at found
        have others := below.arguments behind opening opening' (by omega) further opens
        rw [found] at others
        exact others.bind fun alike _ => .read (congrArg Nat.succ alike)

end

omit below members in
theorem all (ends : among (.stop length)) (table : List Callable) (count : Nat) :
    FollowsBelow among table length count := by
  induction count with
  | zero =>
    constructor
    all_goals intros; omega
  | succ count below =>
    constructor
    · exact fun _ level fewer members => below.readExpression members (by omega) level
    · exact fun _ level _ _ fewer members => below.readOperators members (by omega) level
    · exact fun _ _ opening' fewer members opens =>
        below.readArguments members (by omega) ends opens opening'

end FollowsBelow

theorem follows_readExpression (table : List Callable) (length : Nat) (tokens : List Token) :
    Follows SameOption (tokens.find? lacksValue) (· ∈ tokens ++ [.stop length])
      (readExpression table length 0 tokens).plain
      (readExpression table length 0 (tokens.map mend)).plain :=
  have ends : Token.stop length ∈ tokens ++ [.stop length] :=
    mem_append_right _ (mem_singleton_self _)
  (FollowsBelow.all ends table (tokens.length + 1)).expression tokens 0 (Nat.lt_succ_self _)
    fun _ => mem_append_left _

/-- **Readers complain about tokens.** -/
theorem blames_of_treeOfTokens {error : SyntaxError}
    (refused : treeOfTokens table length tokens = .error (.rejected error)) :
    Blames (· ∈ tokens ++ [.stop length]) error := by
  have follows := follows_readExpression table length tokens
  rw [treeOfTokens_eq] at refused
  generalize (readExpression table length 0 tokens).plain = reading at follows refused
  generalize (readExpression table length 0 (tokens.map mend)).plain = model at follows
  cases follows with
  | breaks => cases refused
  | refused blames =>
    cases refused
    exact blames
  | @read _ _ rest alike found kept =>
    cases rest with
    | nil => cases refused
    | cons trailing rest =>
      cases refused
      exact ⟨trailing, _, kept trailing mem_cons_self, by decide, rfl⟩

/-- **Reading breaks off at the first number without a value.** Otherwise the tokens and
the mended tokens are both refused, or both are expressions and all numbers have values. -/
theorem treeOfTokens_cases (table : List Callable) (length : Nat) (tokens : List Token) :
    (∃ token, tokens.find? lacksValue = some token ∧
      treeOfTokens table length tokens = .error (.malformedNumber token.text)) ∨
    (∃ error complaint, treeOfTokens table length tokens = .error (.rejected error) ∧
      treeOfTokens table length (tokens.map mend) = .error (.rejected complaint)) ∨
    (∃ root, treeOfTokens table length tokens = .ok root ∧ tokens.find? lacksValue = none) := by
  have follows := follows_readExpression table length tokens
  rw [treeOfTokens_eq, treeOfTokens_eq]
  generalize (readExpression table length 0 tokens).plain = reading at follows ⊢
  generalize (readExpression table length 0 (tokens.map mend)).plain = model at follows ⊢
  cases follows with
  | breaks found => exact .inl ⟨_, found, rfl⟩
  | @refused error complaint => exact .inr (.inl ⟨error, complaint, rfl, rfl⟩)
  | @read value _ rest alike found =>
    cases rest with
    | nil => exact .inr (.inr ⟨value, rfl, found.symm⟩)
    | cons trailing rest => exact .inr (.inl ⟨_, _, rfl, rfl⟩)

/-- **Numbers with values are read.** If all numbers among the tokens of a text have
values, only the grammar can refuse the text. -/
theorem exists_rejected_of_parse {text : String} {failure : ParseFailure}
    (valued : ∀ tokens, scan text = .ok tokens → ∀ token ∈ tokens, token.Valued)
    (failed : parse table text = .error failure) : ∃ error, failure = .rejected error := by
  unfold parse at failed
  split at failed
  · rename_i error scanned
    exact ⟨error, (Except.error.inj failed).symm⟩
  · rename_i tokens scanned
    rcases treeOfTokens_cases table text.length tokens with ⟨token, found, -⟩ |
      ⟨error, -, refused, -⟩ | ⟨root, read, -⟩
    · rw [find?_lacksValue_eq_none_iff.mpr (valued tokens scanned)] at found
      cases found
    · exact ⟨error, Except.error.inj (failed.symm.trans refused)⟩
    · rw [read] at failed
      cases failed

end FieldGraph.Expression
