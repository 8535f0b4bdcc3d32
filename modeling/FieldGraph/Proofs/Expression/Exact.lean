import FieldGraph.Proofs.Expression.Depth
import FieldGraph.Proofs.Expression.Numerals
import FieldGraph.Proofs.Expression.Readers

/-! # Reading is exact

The readers accept the expressions of the grammar and nothing else, and give the folded
tree of the derivation.

What a reader has read so far is a phrase of some category. The operator that comes next
never binds too strongly for it, since it would have been read into the last operand.
-/

namespace FieldGraph.Expression

open List Option Reading

variable {table : List Callable} {length level : Nat} {category : Category}
  {tokens rest : List Token} {root : Option Tree}

namespace Category

/-- The category of what is read at a level. -/
def ofLevel (level : Nat) : Category :=
  if level ≤ 1 then .sum else if level = 2 then .product else .unary

end Category

theorem Derives.ofLevel {tree : Tree} (derives : Derives table category tokens tree)
    (low : level ≤ category.level) : Derives table (.ofLevel level) tokens tree := by
  have unary : Derives table .unary tokens tree → Derives table (.ofLevel level) tokens tree := by
    intro phrase
    unfold Category.ofLevel
    split
    · exact .ofProduct (.ofUnary phrase)
    split
    · exact .ofUnary phrase
    · exact phrase
  cases category with
  | sum =>
    have first : level ≤ 1 := low
    rw [Category.ofLevel, if_pos first]
    exact derives
  | product =>
    unfold Category.ofLevel
    split
    · exact .ofProduct derives
    · have second : level = 2 := by
        simp only [Category.level] at low
        omega
      rw [if_pos second]
      exact derives
  | unary => exact unary derives
  | power => exact unary (.ofPower derives)
  | primary => exact unary (.ofPower (.ofPrimary derives))

/-- The next token is no operator that binds so strongly. -/
def Below (strength : Nat) (rest : List Token) : Prop :=
  ∀ token ∈ rest.head?, ∀ op, token.kind = .operator op → op.strength < strength

theorem Ends.below {strength : Nat} (ends : Ends strength rest) : Below strength rest := by
  intro token next op kind
  have here := ends token next
  rw [kind] at here
  exact here

theorem below_primary (rest : List Token) : Below Category.primary.bound rest := by
  intro token next op kind
  cases op <;> decide

theorem Derives.binary {left right : List Token} {a b : Tree} {token : Token}
    {op : BinaryOperator} (first : Derives table category left a)
    (kind : token.kind = .operator op) (weaker : op.strength < category.bound)
    (second : Derives table (.ofLevel op.rightStrength) right b) :
    ∃ result : Category, Derives table result (left ++ token :: right) (.binary op a b) ∧
      result.level = op.strength ∧ result.bound = op.rightStrength := by
  have low (tight : op.strength = BinaryOperator.multiply.strength) : 2 ≤ category.level := by
    rw [tight] at weaker
    cases category <;> simp only [Category.level, Category.bound, BinaryOperator.strength]
      at weaker ⊢ <;> omega
  cases op with
  | add => exact ⟨.sum, .sum (first.ofLevel (Nat.zero_le _)) kind (.inl rfl) second, rfl, rfl⟩
  | subtract => exact ⟨.sum, .sum (first.ofLevel (Nat.zero_le _)) kind (.inr rfl) second, rfl, rfl⟩
  | multiply =>
    exact ⟨.product, .product (first.ofLevel (low rfl)) kind (.inl rfl) second, rfl, rfl⟩
  | divide => exact ⟨.product, .product (first.ofLevel (low rfl)) kind (.inr rfl) second, rfl, rfl⟩
  | power =>
    cases category with
    | primary => exact ⟨.power, .power first kind second, rfl, rfl⟩
    | sum | product | unary | power => exact absurd weaker (by decide)

/-- The tokens that were read, and their phrase. -/
def Phrase (table : List Callable) (level : Nat) (tokens : List Token) (value : Option Tree)
    (rest : List Token) : Prop :=
  ∃ consumed, tokens = consumed ++ rest ∧
    match value with
    | some tree => ∃ derived, Derives table (.ofLevel level) consumed derived ∧ derived.fold = tree
    | none => Hollow consumed

/-- The arguments of a call, with the closing parenthesis behind them. -/
def ArgumentList (table : List Callable) (tokens : List Token) (values : List Tree)
    (rest : List Token) : Prop :=
  ∃ (args : List (List Token × Tree)) (joined : List Token) (closing : Token),
    tokens = joined ++ closing :: rest ∧ closing.kind = .closing ∧
      Joined (args.map (·.1)) joined ∧ (∀ arg ∈ args, Derives table .sum arg.1 arg.2) ∧
      values = args.map fun arg => arg.2.fold

theorem readOperators_cases {left value : Option Tree}
    (read : (readOperators table length level left tokens).plain = .ok (value, rest)) :
    Ends level tokens ∧ value = left ∧ rest = tokens ∨
      ∃ token op behind middle a b, tokens = token :: behind ∧ token.kind = .operator op ∧
        level ≤ op.strength ∧ left = some a ∧
        (readExpression table length op.rightStrength behind).plain = .ok (some b, middle) ∧
        (readOperators table length level (some (a.combine op b)) middle).plain =
          .ok (value, rest) := by
  by_cases ends : Ends level tokens
  · rw [plain_readOperators_of_ends ends] at read
    cases read
    exact .inl ⟨ends, rfl, rfl⟩
  right
  match tokens with
  | [] => exact (ends (ends_nil level)).elim
  | ⟨kind, text, pos⟩ :: behind =>
    rw [ends_cons] at ends
    cases kind with
    | number | name | opening =>
      rw [readOperators.eq_def] at read
      cases read
    | closing | comma | stop => exact (ends trivial).elim
    | operator op =>
      have strong : level ≤ op.strength := Nat.not_lt.mp ends
      rw [plain_readOperators_operator rfl strong] at read
      obtain ⟨⟨right, middle⟩, operand, further⟩ := bind_eq_ok_iff.mp read
      cases left with
      | none => cases further
      | some a =>
        cases right with
        | none => cases further
        | some b => exact ⟨_, op, behind, middle, a, b, rfl, rfl, strong, rfl, operand, further⟩

/-- What is read from fewer than `count` tokens is a phrase. -/
structure PhrasesBelow (table : List Callable) (length count : Nat) : Prop where
  expression : ∀ {tokens rest : List Token} {level : Nat} {value : Option Tree},
    tokens.length < count → level ≤ 4 →
      (readExpression table length level tokens).plain = .ok (value, rest) →
        Phrase table level tokens value rest ∧ Ends level rest
  operators : ∀ {tokens rest consumed : List Token} {level : Nat} {value : Option Tree}
    {category : Category} {derived : Tree}, tokens.length < count →
      Derives table category consumed derived → level ≤ category.level →
        Below category.bound tokens →
          (readOperators table length level (some derived.fold) tokens).plain = .ok (value, rest) →
            Ends level rest ∧ ∃ more final, tokens = more ++ rest ∧
              Derives table (.ofLevel level) (consumed ++ more) final ∧ value = some final.fold
  arguments : ∀ {tokens rest : List Token} {opening : Token} {values : List Tree},
    tokens.length < count → (readArguments table length opening tokens).plain = .ok (values, rest) →
        ArgumentList table tokens values rest ∧ values ≠ []

namespace PhrasesBelow

variable {count level : Nat} {tokens rest : List Token} {value : Option Tree} {opening : Token}
  {values : List Tree}

section

variable (below : PhrasesBelow table length count)

include below

theorem readOperators (fewer : tokens.length ≤ count) {consumed : List Token} {category : Category}
    {derived : Tree} (phrase : Derives table category consumed derived)
    (low : level ≤ category.level) (next : Below category.bound tokens)
    (read : (Expression.readOperators table length level (some derived.fold) tokens).plain =
      .ok (value, rest)) :
    Ends level rest ∧ ∃ more final, tokens = more ++ rest ∧
      Derives table (.ofLevel level) (consumed ++ more) final ∧ value = some final.fold := by
  rcases readOperators_cases read with ⟨ends, rfl, rfl⟩ |
    ⟨token, op, behind, middle, a, b, rfl, kind, strong, left, operand, further⟩
  · refine ⟨ends, [], derived, rfl, ?_, rfl⟩
    rw [append_nil]
    exact phrase.ofLevel low
  · cases left
    rw [length_cons] at fewer
    have inside : op.rightStrength ≤ 4 := by cases op <;> decide
    obtain ⟨⟨taken, rfl, right, second, rfl⟩, ends⟩ := below.expression (by omega) inside operand
    obtain ⟨result, combined, level_eq, bound_eq⟩ :=
      phrase.binary kind (next token rfl op kind) second
    rw [length_append] at fewer
    obtain ⟨stops, more, final, rfl, whole, same⟩ := below.operators (by omega) combined
      (level_eq ▸ strong) (bound_eq ▸ ends.below) further
    refine ⟨stops, token :: (taken ++ more), final, ?_, ?_, same⟩
    · rw [cons_append, append_assoc]
    · rw [append_assoc] at whole
      exact whole

variable (fewer : tokens.length ≤ count)

include fewer

/-- An operand is a phrase, and no operator behind it belongs to it. -/
theorem readOperand
    (outcome : (Expression.readOperand table length tokens).plain = .ok (value, rest)) :
    ∃ consumed, tokens = consumed ++ rest ∧
      match value with
      | some tree => ∃ category derived, Derives table category consumed derived ∧
          derived.fold = tree ∧ 4 ≤ category.level ∧ Below category.bound rest
      | none => Hollow consumed := by
  obtain ⟨bound, read⟩ := plain_eq_ok_iff.mp outcome
  rw [readOperand.eq_def] at read
  split at read
  · cases read
    exact ⟨[], rfl, .nil⟩
  · rename_i token behind
    rw [length_cons] at fewer
    split at read
    · rename_i isNumber
      split at read
      · rename_i number valued
        cases read
        exact ⟨[token], rfl, .primary, _, .number isNumber valued, rfl, by decide, below_primary _⟩
      · cases read
    · rename_i isName
      split at read
      · rename_i text pos further
        rw [length_cons] at fewer
        split at read
        · cases read
        · rename_i fn found
          split at read
          · cases read
          · rename_i args final within call
            have list : ArgumentList table further args final := by
              have called := plain_eq_ok_iff.mpr ⟨within, call⟩
              rw [readCall.eq_def] at called
              split at called
              · cases called
                exact ⟨[], [], _, rfl, rfl, .nil, by simp, rfl⟩
              · exact (below.arguments (by omega) called).1
            obtain ⟨parts, joined, closing, rfl, closes, commas, each, rfl⟩ := list
            split at read
            · cases read
            · split at read
              · cases read
              · cases read
                rw [length_map] at *
                refine ⟨token :: ⟨.opening, text, pos⟩ :: (joined ++ [closing]), ?_,
                  .primary, _, .call isName found rfl each commas (by omega) closes, ?_,
                  by decide, below_primary _⟩
                · rw [cons_append, cons_append, append_assoc, singleton_append]
                · rw [Tree.fold, Tree.foldAll_eq_map, List.map_map]
                  rfl
      · cases read
        exact ⟨[token], rfl, .primary, _, .var isName, rfl, by decide, below_primary _⟩
    · rename_i opens
      split at read
      · cases read
      · cases read
      · rename_i inner closing further within expression
        split at read
        · rename_i closes
          obtain ⟨rfl, rfl⟩ := Portion.mk.inj (Except.ok.inj read)
          obtain ⟨⟨taken, rfl, phrase⟩, -⟩ := below.expression (by omega) (Nat.zero_le _)
            (plain_eq_ok_iff.mpr ⟨within, expression⟩)
          refine ⟨token :: (taken ++ [closing]), ?_, ?_⟩
          · rw [cons_append, append_assoc, singleton_append]
          · cases inner with
            | none => exact .group opens phrase closes
            | some tree =>
              obtain ⟨derived, derives, rfl⟩ := phrase
              exact ⟨.primary, derived, .group opens derives closes, rfl, by decide,
                below_primary _⟩
        · cases read
    · rename_i negative
      split at read
      · cases read
      · rename_i operand further within expression
        cases read
        obtain ⟨⟨taken, rfl, derived, derives, rfl⟩, ends⟩ := below.expression (by omega)
          (by decide) (plain_eq_ok_iff.mpr ⟨within, expression⟩)
        exact ⟨token :: taken, rfl, .unary, _, .negative negative derives, rfl, by decide,
          (ends.mono (by decide)).below⟩
      · cases read
    · cases read
      exact ⟨[], rfl, .nil⟩

theorem readExpression (low : level ≤ 4)
    (read : (Expression.readExpression table length level tokens).plain = .ok (value, rest)) :
    Phrase table level tokens value rest ∧ Ends level rest := by
  rw [plain_readExpression] at read
  obtain ⟨⟨left, middle⟩, operand, operators⟩ := bind_eq_ok_iff.mp read
  obtain ⟨consumed, rfl, phrase⟩ := below.readOperand fewer operand
  rw [length_append] at fewer
  cases left with
  | none =>
    rcases readOperators_cases operators with ⟨ends, rfl, rfl⟩ |
      ⟨_, _, _, _, a, _, -, -, -, left, -⟩
    · exact ⟨⟨consumed, rfl, phrase⟩, ends⟩
    · cases left
  | some tree =>
    obtain ⟨category, derived, derives, rfl, high, next⟩ := phrase
    obtain ⟨ends, more, final, rfl, whole, rfl⟩ :=
      below.readOperators (by omega) derives (Nat.le_trans low high) next operators
    exact ⟨⟨consumed ++ more, (append_assoc _ _ _).symm, final, whole, rfl⟩, ends⟩

theorem readArguments
    (outcome : (Expression.readArguments table length opening tokens).plain = .ok (values, rest)) :
    ArgumentList table tokens values rest ∧ values ≠ [] := by
  obtain ⟨bound, read⟩ := plain_eq_ok_iff.mp outcome
  rw [readArguments.eq_def] at read
  split at read
  · cases read
  · cases read
  · cases read
  · rename_i arg token behind within expression
    obtain ⟨⟨taken, rfl, derived, derives, rfl⟩, -⟩ := below.readExpression fewer (Nat.zero_le _)
      (plain_eq_ok_iff.mpr ⟨within, expression⟩)
    rw [length_append, length_cons] at fewer
    split at read
    · rename_i isComma
      split at read
      · cases read
      · rename_i others final further more
        cases read
        obtain ⟨⟨args, joined, closing, rfl, closes, commas, each, rfl⟩, some⟩ :=
          below.arguments (by omega) (plain_eq_ok_iff.mpr ⟨further, more⟩)
        refine ⟨⟨(taken, derived) :: args, taken ++ token :: joined, closing, ?_, closes, ?_,
          ?_, rfl⟩, cons_ne_nil _ _⟩
        · rw [append_assoc, cons_append]
        · cases args with
          | nil => exact (some rfl).elim
          | cons next args => exact .cons taken isComma commas
        · exact forall_mem_cons.mpr ⟨derives, each⟩
    · rename_i closes
      cases read
      exact ⟨⟨[(taken, derived)], taken, token, rfl, closes, .last taken,
        forall_mem_singleton.mpr derives, rfl⟩, cons_ne_nil _ _⟩
    · cases read

end

theorem all (table : List Callable) (length count : Nat) : PhrasesBelow table length count := by
  induction count with
  | zero =>
    constructor
    all_goals intros; omega
  | succ count below =>
    constructor
    · exact fun fewer low read => below.readExpression (by omega) low read
    · exact fun fewer phrase low next read => below.readOperators (by omega) phrase low next read
    · exact fun fewer read => below.readArguments (by omega) read

end PhrasesBelow

/-! ## Whole expressions -/

theorem treeOfTokens_eq_ok_iff : treeOfTokens table length tokens = .ok root ↔
      (readExpression table length 0 tokens).plain = .ok (root, []) := by
  rw [treeOfTokens_eq]
  cases (readExpression table length 0 tokens).plain with
  | error failure => simp [bind, Except.bind]
  | ok read =>
    obtain ⟨value, rest⟩ := read
    cases rest with
    | nil => simp [bind, Except.bind]
    | cons trailing rest => simp [bind, Except.bind, refuse]

theorem root_iff : treeOfTokens table length tokens = .ok root ↔
      ∃ derived, Root table tokens derived ∧ root = derived.map Tree.fold := by
  rw [treeOfTokens_eq_ok_iff]
  constructor
  · intro read
    obtain ⟨⟨consumed, same, phrase⟩, -⟩ :=
      (PhrasesBelow.all table length (tokens.length + 1)).expression (Nat.lt_succ_self _)
        (Nat.zero_le _) read
    rw [append_nil] at same
    subst same
    cases root with
    | none => exact ⟨none, .hollow phrase, rfl⟩
    | some tree =>
      obtain ⟨derived, derives, rfl⟩ := phrase
      exact ⟨some derived, .sum derives, rfl⟩
  · rintro ⟨derived, derives, rfl⟩
    cases derives with
    | hollow nothing =>
      have read : (readExpression table length 0 (tokens ++ [])).plain = .ok (none, []) :=
        nothing.plain_readExpression (ends_nil 0)
      rwa [append_nil] at read
    | sum phrase =>
      have read : (readExpression table length 0 (tokens ++ [])).plain = .ok (some _, []) :=
        phrase.reads.whole (Nat.zero_le _) (ends_nil 0)
      rwa [append_nil] at read

theorem parse_eq_ok_iff {text : String} : parse table text = .ok root ↔ ∃ tokens derived,
    scan text = .ok tokens ∧ Root table tokens derived ∧ root = derived.map Tree.fold := by
  unfold parse
  cases scan text with
  | error error => simp
  | ok tokens => simp [root_iff]

/-- **Reading is exact.** A text is read exactly if its tokens are an expression of the
grammar and there is room for the calls that reading nests, and then as the folded tree of
any derivation; nothing in it is left to fold. If the numbers among the tokens have values,
the other texts that there is room for are rejected. No more than three calls for each token
are nested, but two for each parenthesis and sign in front. -/
theorem parse_exact (room : Nat) (table : List Callable) (text : String) :
    (∀ root, parseWithin room table text = .ok root ↔ depth table text ≤ room ∧
      ∃ tokens derived, scan text = .ok tokens ∧ Root table tokens derived ∧
        root = derived.map Tree.fold) ∧
    (∀ tree, parseWithin room table text = .ok (some tree) → tree.Folded) ∧
    ((∀ tokens, scan text = .ok tokens → ∀ token ∈ tokens, token.Valued) →
      (∀ tokens, scan text = .ok tokens → ¬ ∃ derived, Root table tokens derived) →
        depth table text ≤ room → ∃ error, parseWithin room table text = .error (.rejected error)) ∧
    (room < depth table text → parseWithin room table text = .error .nestedTooDeep) ∧
    ∀ tokens, scan text = .ok tokens → depth table text ≤ 3 * tokens.length + 2 ∧
      ∀ outer inner, tokens = outer ++ inner →
        (∀ token ∈ outer, token.kind = .opening ∨ token.kind = .operator .subtract) →
          2 * outer.length + 2 ≤ depth table text := by
  refine ⟨fun root => ?_, fun tree parsed => ?_, fun valued none shallow => ?_, fun deep => ?_,
    fun tokens scanned => ⟨depth_le scanned, ?_⟩⟩
  · rw [parseWithin_eq_ok_iff, parse_eq_ok_iff]
  · obtain ⟨tokens, derived, -, -, same⟩ :=
      parse_eq_ok_iff.mp (parseWithin_eq_ok_iff.mp parsed).2
    obtain ⟨raw, -, rfl⟩ := map_eq_some_iff.mp same.symm
    exact raw.folded_fold
  · rw [parseWithin, if_neg (Nat.not_lt.mpr shallow)]
    cases parsed : parse table text with
    | error failure =>
      obtain ⟨error, rfl⟩ := exists_rejected_of_parse valued parsed
      exact ⟨error, rfl⟩
    | ok root =>
      obtain ⟨tokens, derived, scanned, derives, -⟩ := parse_eq_ok_iff.mp parsed
      exact (none tokens scanned ⟨derived, derives⟩).elim
  · rw [parseWithin, if_pos deep]
  · rintro outer inner rfl opens
    rw [depth, scanned]
    exact le_expressionDepth table _ 0 opens inner

/-- A sign binds weaker than a power and stronger than a product, and the exponent is
folded. -/
theorem parse_exact_signed : parseWithin requestRoom [] "2*-x^(1+2)" =
    .ok (some (.binary .multiply (.number 2)
      (.binary .subtract (.number 0) (.binary .power (.var "x") (.number (1 + 2)))))) := by
  have scanned : scan "2*-x^(1+2)" = .ok [⟨.number, "2", 0⟩, ⟨.operator .multiply, "*", 1⟩,
      ⟨.operator .subtract, "-", 2⟩, ⟨.name, "x", 3⟩, ⟨.operator .power, "^", 4⟩,
      ⟨.opening, "(", 5⟩, ⟨.number, "1", 6⟩, ⟨.operator .add, "+", 7⟩, ⟨.number, "2", 8⟩,
      ⟨.closing, ")", 9⟩] := by decide +kernel
  have one : numberValue? "1" = some 1 := by decide +kernel
  have two : numberValue? "2" = some 2 := by decide +kernel
  have single {token : Token} {value : Float} (kind : token.kind = .number)
      (valued : numberValue? token.text = some value) :
      Derives [] .unary [token] (.number value) := .ofPower (.ofPrimary (.number kind valued))
  have first : Derives [] .product [⟨.number, "2", 0⟩] (.number 2) := .ofUnary (single rfl two)
  have base : Derives [] .primary [⟨.name, "x", 3⟩] (.var "x") := .var rfl
  have left : Derives [] .sum [⟨.number, "1", 6⟩] (.number 1) :=
    .ofProduct (.ofUnary (single rfl one))
  have right : Derives [] .product [⟨.number, "2", 8⟩] (.number 2) := .ofUnary (single rfl two)
  have exponent : Derives [] .primary [⟨.opening, "(", 5⟩, ⟨.number, "1", 6⟩,
      ⟨.operator .add, "+", 7⟩, ⟨.number, "2", 8⟩, ⟨.closing, ")", 9⟩]
      (.binary .add (.number 1) (.number 2)) := .group rfl (.sum left rfl (.inl rfl) right) rfl
  have power : Derives [] .power [⟨.name, "x", 3⟩, ⟨.operator .power, "^", 4⟩, ⟨.opening, "(", 5⟩,
      ⟨.number, "1", 6⟩, ⟨.operator .add, "+", 7⟩, ⟨.number, "2", 8⟩, ⟨.closing, ")", 9⟩]
      (.binary .power (.var "x") (.binary .add (.number 1) (.number 2))) :=
    .power base rfl (.ofPower (.ofPrimary exponent))
  exact ((parse_exact requestRoom [] "2*-x^(1+2)").1 _).mpr
    ⟨Nat.le_trans (depth_le scanned) (by decide), _, _, scanned,
      .sum (.ofProduct (.product first rfl (.inl rfl) (.negative rfl (.ofPower power)))), rfl⟩

end FieldGraph.Expression
