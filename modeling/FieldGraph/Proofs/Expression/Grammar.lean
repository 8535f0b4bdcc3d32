import FieldGraph.Expression.Parse
import FieldGraph.Proofs.Results

/-! # The grammar of expressions

Which lists of tokens are expressions, and their trees, said without a reader: a sum of
products of signed powers of numbers, variables, calls and sums in parentheses. Sums and
products group to the left, powers to the right. Nothing at all, in any number of
parentheses, is an expression without a tree.

The tree of a derivation has an operator or a call wherever the text has one. `Tree.fold`
replaces those of nothing but numbers by the number they stand for, from the leaves up.
-/

namespace FieldGraph.Expression

/-! ## Folding -/

namespace Tree

mutual

/-- The tree with every operator and call of numbers replaced by its number. -/
def fold : Tree → Tree
  | .number x => .number x
  | .var name => .var name
  | .binary op left right => combine op (fold left) (fold right)
  | .call fn args => apply fn (foldAll args)

/-- Some trees, each of them folded. -/
def foldAll : List Tree → List Tree
  | [] => []
  | tree :: trees => fold tree :: foldAll trees

end

theorem foldAll_eq_map (trees : List Tree) : foldAll trees = trees.map fold := by
  induction trees with
  | nil => rfl
  | cons tree trees ih => rw [foldAll, ih, List.map_cons]

/-- Whether a tree is a number. -/
def IsNumber (tree : Tree) : Prop := ∃ x, tree = .number x

mutual

/-- No operator and no call in a tree has nothing but numbers for operands. -/
def Folded : Tree → Prop
  | .number _ => True
  | .var _ => True
  | .binary _ left right => ¬ (left.IsNumber ∧ right.IsNumber) ∧ Folded left ∧ Folded right
  | .call _ args => (∃ arg ∈ args, ¬ arg.IsNumber) ∧ FoldedAll args

/-- Each of some trees is folded. -/
def FoldedAll : List Tree → Prop
  | [] => True
  | tree :: trees => Folded tree ∧ FoldedAll trees

end

theorem folded_combine {op : BinaryOperator} {left right : Tree} (first : left.Folded)
    (second : right.Folded) : (combine op left right).Folded := by
  unfold combine
  split
  · trivial
  · rename_i apart
    refine ⟨fun both => ?_, first, second⟩
    obtain ⟨⟨a, here⟩, ⟨b, there⟩⟩ := both
    exact apart a b here there

theorem folded_apply {fn : Callable} {args : List Tree} (each : FoldedAll args) :
    (Tree.apply fn args).Folded := by
  unfold Tree.apply
  split
  · trivial
  · rename_i failed
    refine ⟨?_, each⟩
    by_contra numbers
    push Not at numbers
    have every : ∀ arg ∈ args, ∃ x, arg.number? = some x := by
      intro arg mem
      obtain ⟨x, rfl⟩ := numbers arg mem
      exact ⟨x, rfl⟩
    obtain ⟨values, found⟩ := exists_mapM_some every
    rw [failed] at found
    cases found

mutual

theorem folded_fold (tree : Tree) : tree.fold.Folded := by
  cases tree with
  | number x => trivial
  | var name => trivial
  | binary op left right => exact folded_combine (folded_fold left) (folded_fold right)
  | call fn args => exact folded_apply (foldedAll_foldAll args)

theorem foldedAll_foldAll (trees : List Tree) : FoldedAll (foldAll trees) := by
  cases trees with
  | nil => trivial
  | cons tree trees => exact ⟨folded_fold tree, foldedAll_foldAll trees⟩

end

end Tree

/-! ## Derivations -/

/-- The categories of the grammar, from the weakest binding to the strongest. -/
inductive Category where
  | sum
  | product
  | unary
  | power
  | primary

/-- Lists of tokens put together with commas between them. -/
inductive Joined : List (List Token) → List Token → Prop
  | nil : Joined [] []
  | last (tokens : List Token) : Joined [tokens] tokens
  | cons (tokens : List Token) {comma : Token} {next : List Token} {others : List (List Token)}
      {joined : List Token} : comma.kind = .comma → Joined (next :: others) joined →
        Joined (tokens :: next :: others) (tokens ++ comma :: joined)

/-- The rules of the grammar, with the tree of each derivation. No rule puts an opening
parenthesis behind an operand, so a variable is never followed by one. -/
inductive Derives (table : List Callable) : Category → List Token → Tree → Prop
  | ofProduct {tokens : List Token} {tree : Tree} :
      Derives table .product tokens tree → Derives table .sum tokens tree
  | sum {left right : List Token} {a b : Tree} {token : Token} {op : BinaryOperator} :
      Derives table .sum left a → token.kind = .operator op → op = .add ∨ op = .subtract →
        Derives table .product right b →
          Derives table .sum (left ++ token :: right) (.binary op a b)
  | ofUnary {tokens : List Token} {tree : Tree} :
      Derives table .unary tokens tree → Derives table .product tokens tree
  | product {left right : List Token} {a b : Tree} {token : Token} {op : BinaryOperator} :
      Derives table .product left a → token.kind = .operator op → op = .multiply ∨ op = .divide →
        Derives table .unary right b →
          Derives table .product (left ++ token :: right) (.binary op a b)
  | negative {tokens : List Token} {tree : Tree} {sign : Token} :
      sign.kind = .operator .subtract → Derives table .unary tokens tree →
        Derives table .unary (sign :: tokens) (.binary .subtract (.number 0) tree)
  | ofPower {tokens : List Token} {tree : Tree} :
      Derives table .power tokens tree → Derives table .unary tokens tree
  | ofPrimary {tokens : List Token} {tree : Tree} :
      Derives table .primary tokens tree → Derives table .power tokens tree
  | power {left right : List Token} {a b : Tree} {token : Token} :
      Derives table .primary left a → token.kind = .operator .power → Derives table .unary right b →
          Derives table .power (left ++ token :: right) (.binary .power a b)
  | number {token : Token} {value : Float} :
      token.kind = .number → numberValue? token.text = some value →
        Derives table .primary [token] (.number value)
  | var {token : Token} : token.kind = .name → Derives table .primary [token] (.var token.text)
  | group {tokens : List Token} {tree : Tree} {opening closing : Token} :
      opening.kind = .opening → Derives table .sum tokens tree → closing.kind = .closing →
        Derives table .primary (opening :: (tokens ++ [closing])) tree
  | call {args : List (List Token × Tree)} {tokens : List Token} {name opening closing : Token}
      {fn : Callable} :
      name.kind = .name → Callable.find? table name.text = some fn →
        opening.kind = .opening → (∀ arg ∈ args, Derives table .sum arg.1 arg.2) →
          Joined (args.map (·.1)) tokens → args.length = fn.arity → closing.kind = .closing →
              Derives table .primary (name :: opening :: (tokens ++ [closing]))
                (.call fn (args.map (·.2)))

/-- Nothing, in any number of parentheses. -/
inductive Hollow : List Token → Prop
  | nil : Hollow []
  | group {tokens : List Token} {opening closing : Token} : opening.kind = .opening →
      Hollow tokens → closing.kind = .closing → Hollow (opening :: (tokens ++ [closing]))

/-- A whole expression: a sum, or nothing. -/
inductive Root (table : List Callable) : List Token → Option Tree → Prop
  | hollow {tokens : List Token} : Hollow tokens → Root table tokens none
  | sum {tokens : List Token} {tree : Tree} :
      Derives table .sum tokens tree → Root table tokens (some tree)

end FieldGraph.Expression
