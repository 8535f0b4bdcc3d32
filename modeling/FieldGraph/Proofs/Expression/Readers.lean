import FieldGraph.Proofs.Expression.Grammar
import FieldGraph.Proofs.Expression.Plain

/-! # Expressions of the grammar are read

Every phrase of the grammar is read up to the tokens behind it, if no operator there binds
so strongly that it belongs to the phrase.
-/

namespace FieldGraph.Expression

open List

variable {table : List Callable} {length : Nat} {tokens : List Token}

namespace Category

/-- The highest level at which a phrase is read as a whole. -/
def level : Category → Nat
  | .sum => 1
  | .product => 2
  | .unary | .power | .primary => 4

/-- The least strength of an operator that would belong to a phrase in front of it. -/
def bound : Category → Nat
  | .sum => 2
  | .product => 3
  | .unary | .power => 4
  | .primary => 5

end Category

/-- A phrase is read at all levels up to that of its category, with the operators behind it
still to be read. -/
def Reads (table : List Callable) (length : Nat) (category : Category) (tokens : List Token)
    (tree : Tree) : Prop :=
  ∀ level ≤ category.level, ∀ rest, Ends category.bound rest →
    (readExpression table length level (tokens ++ rest)).plain =
      (readOperators table length level (some tree.fold) rest).plain

section Reads

variable {category : Category} {tokens rest : List Token} {tree : Tree}
  {args : List (List Token × Tree)} {closing : Token}

theorem Reads.whole (reads : Reads table length category tokens tree) {level : Nat}
    (low : level ≤ category.level) (ends : Ends level rest) :
    (readExpression table length level (tokens ++ rest)).plain = .ok (some tree.fold, rest) := by
  have within : level ≤ category.bound := by
    cases category <;> simp only [Category.level, Category.bound] at low ⊢ <;> omega
  rw [reads level low rest (ends.mono within), plain_readOperators_of_ends ends]

theorem reads_of_readOperand (single : ∀ rest, Ends category.bound rest →
      (readOperand table length (tokens ++ rest)).plain = .ok (some tree.fold, rest)) :
    Reads table length category tokens tree := by
  intro level _ rest ends
  rw [plain_readExpression, single rest ends]
  rfl

theorem Reads.weaken (reads : Reads table length category tokens tree) {weaker : Category}
    (level : weaker.level ≤ category.level) (bound : weaker.bound ≤ category.bound) :
    Reads table length weaker tokens tree := by
  intro low within rest ends
  exact reads low (Nat.le_trans within level) rest (ends.mono bound)

theorem Reads.binary {right : Category} {others : List Token} {a b : Tree} {token : Token}
    {op : BinaryOperator} (first : Reads table length category tokens a)
    (kind : token.kind = .operator op) (second : Reads table length right others b)
    (behind : op.strength < category.bound) (inside : op.rightStrength ≤ right.level)
    {result : Category} (outer : result.level ≤ category.level)
    (strong : result.level ≤ op.strength) (ends : result.bound ≤ op.rightStrength) :
    Reads table length result (tokens ++ token :: others) (.binary op a b) := by
  intro level low rest stops
  have weaker : Ends category.bound (token :: (others ++ rest)) := by
    rw [ends_cons, kind]
    exact behind
  rw [append_assoc, cons_append, first level (Nat.le_trans low outer) _ weaker,
    plain_readOperators_operator kind (Nat.le_trans low strong),
    second.whole inside (stops.mono ends)]
  rfl

theorem plain_readArguments (opening : Token)
    (each : ∀ arg ∈ args, Reads table length .sum arg.1 arg.2)
    (joined : Joined (args.map (·.1)) tokens) (some : args ≠ [])
    (closes : closing.kind = .closing) (rest : List Token) :
    (readArguments table length opening (tokens ++ closing :: rest)).plain =
      .ok (args.map fun arg => arg.2.fold, rest) := by
  induction args generalizing tokens with
  | nil => exact (some rfl).elim
  | cons arg args ih =>
    have first := each arg mem_cons_self
    rw [plain_readArguments_eq]
    cases args with
    | nil =>
      cases joined
      rw [first.whole (Nat.zero_le _) (ends_closing closes 0 rest)]
      simp only [bind, Except.bind, closes, map_cons, map_nil]
    | cons next args =>
      cases joined with
      | cons _ kind others =>
        rename_i comma joined
        rw [append_assoc, cons_append, first.whole (Nat.zero_le _)
          (ends_comma kind 0 (joined ++ closing :: rest))]
        simp only [bind, Except.bind, kind]
        rw [ih (fun other mem => each other (mem_cons_of_mem _ mem)) others (cons_ne_nil _ _)]
        rfl

theorem Reads.not_ends (reads : Reads table length .sum tokens tree) (ends : Ends 0 rest) :
    ¬ Ends 0 (tokens ++ rest) := by
  intro stops
  have whole := reads.whole (Nat.zero_le _) ends
  rw [plain_readExpression, plain_readOperand_of_ends stops] at whole
  change (readOperators table length 0 none (tokens ++ rest)).plain = _ at whole
  rw [plain_readOperators_of_ends stops] at whole
  cases whole

theorem plain_readCall (opening : Token) (each : ∀ arg ∈ args, Reads table length .sum arg.1 arg.2)
    (joined : Joined (args.map (·.1)) tokens) (closes : closing.kind = .closing)
    (rest : List Token) :
    (readCall table length opening (tokens ++ closing :: rest)).plain =
      .ok (args.map fun arg => arg.2.fold, rest) := by
  cases args with
  | nil =>
    cases joined
    obtain ⟨kind, text, pos⟩ := closing
    obtain rfl : kind = .closing := closes
    rw [nil_append, readCall.eq_def]
    rfl
  | cons arg args =>
    have first := each arg mem_cons_self
    have starts : ¬ Ends 0 (tokens ++ closing :: rest) := by
      cases args with
      | nil =>
        cases joined
        exact first.not_ends (ends_closing closes 0 rest)
      | cons next args =>
        cases joined with
        | cons _ kind others =>
          rw [append_assoc]
          exact first.not_ends (ends_comma kind 0 _)
    rw [plain_readCall_of_ne opening fun token next kind =>
      starts fun other same => by rw [Option.mem_unique same next, kind]; trivial]
    exact plain_readArguments opening each joined (cons_ne_nil _ _) closes rest

end Reads

/-- **Phrases are read.** -/
theorem Derives.reads {category : Category} {tree : Tree}
    (derives : Derives table category tokens tree) : Reads table length category tokens tree := by
  induction derives with
  | ofProduct _ ih => exact ih.weaken (by decide) (by decide)
  | sum _ kind additive _ first second =>
    obtain rfl | rfl := additive
    all_goals
      exact first.binary kind second (by decide) (by decide) (by decide) (by decide) (by decide)
  | ofUnary _ ih => exact ih.weaken (by decide) (by decide)
  | product _ kind multiplicative _ first second =>
    obtain rfl | rfl := multiplicative
    all_goals
      exact first.binary kind second (by decide) (by decide) (by decide) (by decide) (by decide)
  | negative kind _ ih =>
    refine reads_of_readOperand fun rest ends => ?_
    rw [cons_append, plain_readOperand_sign kind, ih.whole (by decide) (ends_sign ends)]
    rfl
  | ofPower _ ih => exact ih.weaken (by decide) (by decide)
  | ofPrimary _ ih => exact ih.weaken (by decide) (by decide)
  | power _ kind _ first second =>
    exact first.binary kind second (by decide) (by decide) (by decide) (by decide) (by decide)
  | number kind valued =>
    exact reads_of_readOperand fun rest _ => plain_readOperand_number kind valued rest
  | var kind =>
    refine reads_of_readOperand fun rest ends => ?_
    rw [singleton_append, readOperand.eq_def]
    dsimp only
    rw [kind]
    dsimp only
    split
    · exact ((ends_cons _).mp ends).elim
    · rfl
  | group opens _ closes ih =>
    refine reads_of_readOperand fun rest ends => ?_
    rw [cons_append, append_assoc, singleton_append,
      plain_readOperand_group opens, ih.whole (Nat.zero_le _) (ends_closing closes 0 rest)]
    exact if_pos closes
  | call named found opens _ joined fits closes each =>
    refine reads_of_readOperand fun rest ends => ?_
    rw [cons_append, cons_append, append_assoc, singleton_append,
      plain_readOperand_call named opens, found]
    rw [plain_readCall _ each joined closes, Tree.fold, Tree.foldAll_eq_map, map_map]
    simp only [bind, Except.bind, length_map, fits, Nat.lt_irrefl]
    rfl

theorem Hollow.plain_readExpression (hollow : Hollow tokens) {rest : List Token}
    (ends : Ends 0 rest) :
    (readExpression table length 0 (tokens ++ rest)).plain = .ok (none, rest) := by
  induction hollow generalizing rest with
  | nil =>
    rw [nil_append, Expression.plain_readExpression, plain_readOperand_of_ends ends]
    exact plain_readOperators_of_ends ends none
  | group opens _ closes ih =>
    have inner := ih (ends_closing closes 0 rest)
    rw [cons_append, append_assoc, singleton_append,
      Expression.plain_readExpression, plain_readOperand_group opens, inner]
    simp only [bind, Except.bind, closes]
    exact plain_readOperators_of_ends ends none

end FieldGraph.Expression
