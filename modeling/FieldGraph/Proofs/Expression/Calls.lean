import FieldGraph.Proofs.Expression.Exact

/-! # Calls of expressions

An expression that is read calls functions of the table only, each with as many
arguments as it has.
-/

namespace FieldGraph.Expression

open List

namespace Tree

variable (allowed : Callable → Nat → Prop)

mutual

/-- Every call in a tree is allowed for its function and number of arguments. -/
def Calls : Tree → Prop
  | .number _ => True
  | .var _ => True
  | .binary _ left right => Calls left ∧ Calls right
  | .call fn args => allowed fn args.length ∧ CallsAll args

/-- Every call in some trees is allowed. -/
def CallsAll : List Tree → Prop
  | [] => True
  | tree :: trees => Calls tree ∧ CallsAll trees

end

variable {allowed}

theorem callsAll_iff {trees : List Tree} :
    CallsAll allowed trees ↔ ∀ tree ∈ trees, tree.Calls allowed := by
  induction trees with
  | nil => simp [CallsAll]
  | cons tree trees ih => rw [CallsAll, ih, forall_mem_cons]

mutual

theorem calls_fold {tree : Tree} (calls : tree.Calls allowed) : tree.fold.Calls allowed := by
  cases tree with
  | number x => trivial
  | var name => trivial
  | binary op left right =>
    rw [fold, combine.eq_def]
    split
    · trivial
    · exact ⟨calls_fold calls.1, calls_fold calls.2⟩
  | call fn args =>
    rw [fold, Tree.apply.eq_def]
    split
    · trivial
    · refine ⟨?_, callsAll_foldAll calls.2⟩
      rw [foldAll_eq_map, length_map]
      exact calls.1

theorem callsAll_foldAll {trees : List Tree} (calls : CallsAll allowed trees) :
    CallsAll allowed (foldAll trees) := by
  cases trees with
  | nil => trivial
  | cons tree trees => exact ⟨calls_fold calls.1, callsAll_foldAll calls.2⟩

end

end Tree

variable {allowed : Callable → Nat → Prop} {table : List Callable} {tree : Tree}

theorem Derives.calls (fits : ∀ fn ∈ table, allowed fn fn.arity) {category : Category}
    {tokens : List Token} (derives : Derives table category tokens tree) : tree.Calls allowed := by
  induction derives with
  | ofProduct _ ih | ofUnary _ ih | ofPower _ ih | ofPrimary _ ih | group _ _ _ ih => exact ih
  | sum _ _ _ _ left right | product _ _ _ _ left right | power _ _ _ left right =>
    exact ⟨left, right⟩
  | negative _ _ ih => exact ⟨trivial, ih⟩
  | number | var => trivial
  | call _ found _ _ _ arity _ each =>
    refine ⟨?_, Tree.callsAll_iff.mpr fun tree mem => ?_⟩
    · rw [length_map, arity]
      exact fits _ (mem_of_find?_eq_some found)
    · obtain ⟨arg, listed, rfl⟩ := mem_map.mp mem
      exact each arg listed

/-- **Calls have the right number of arguments.** A tree that is read calls functions of
the table, each with as many arguments as it has. -/
theorem calls_parse (fits : ∀ fn ∈ table, allowed fn fn.arity) {text : String}
    (parsed : parse table text = .ok (some tree)) : tree.Calls allowed := by
  obtain ⟨tokens, derived, -, root, same⟩ := parse_eq_ok_iff.mp parsed
  obtain ⟨raw, rfl, rfl⟩ := Option.map_eq_some_iff.mp same.symm
  cases root with
  | sum derives => exact Tree.calls_fold (derives.calls fits)

end FieldGraph.Expression
