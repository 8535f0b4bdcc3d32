import FieldGraph.Proofs.Expression.Exact

/-! # Numbers of expressions that are read

The grammar takes a number only for its value, so all numbers among the tokens of an
expression that is read have one.
-/

namespace FieldGraph.Expression

open List

variable {table : List Callable} {tokens : List Token}

theorem valued_of_kind {token : Token} {kind : TokenKind} (same : token.kind = kind)
    (other : kind ≠ .number) : token.Valued :=
  fun isNumber => (other (same.symm.trans isNumber)).elim

theorem Joined.valued {parts : List (List Token)} (joined : Joined parts tokens)
    (each : ∀ part ∈ parts, ∀ token ∈ part, token.Valued) : ∀ token ∈ tokens, token.Valued := by
  induction joined with
  | nil => exact fun _ impossible => nomatch impossible
  | last tokens => exact each tokens mem_cons_self
  | cons tokens comma _ ih =>
    rw [forall_mem_append, forall_mem_cons]
    obtain ⟨first, rest⟩ := forall_mem_cons.mp each
    exact ⟨first, valued_of_kind comma nofun, ih rest⟩

theorem Derives.valued {category : Category} {tree : Tree}
    (derives : Derives table category tokens tree) : ∀ token ∈ tokens, token.Valued := by
  have operator {op : BinaryOperator} : TokenKind.operator op ≠ .number := nofun
  have opens : TokenKind.opening ≠ .number := nofun
  have closes : TokenKind.closing ≠ .number := nofun
  induction derives with
  | ofProduct _ ih | ofUnary _ ih | ofPower _ ih | ofPrimary _ ih => exact ih
  | sum _ kind _ _ left right | product _ kind _ _ left right | power _ kind _ left right =>
    rw [forall_mem_append, forall_mem_cons]
    exact ⟨left, valued_of_kind kind operator, right⟩
  | negative kind _ ih => exact forall_mem_cons.mpr ⟨valued_of_kind kind operator, ih⟩
  | number kind value =>
    rw [forall_mem_singleton]
    exact fun _ => Option.isSome_iff_exists.mpr ⟨_, value⟩
  | var kind =>
    rw [forall_mem_singleton]
    exact valued_of_kind kind nofun
  | group opening _ closing ih =>
    rw [forall_mem_cons, forall_mem_append, forall_mem_singleton]
    exact ⟨valued_of_kind opening opens, ih, valued_of_kind closing closes⟩
  | call name _ opening _ joined _ closing ih =>
    rw [forall_mem_cons, forall_mem_cons, forall_mem_append, forall_mem_singleton]
    refine ⟨valued_of_kind name nofun, valued_of_kind opening opens,
      joined.valued fun part mem => ?_, valued_of_kind closing closes⟩
    obtain ⟨arg, listed, rfl⟩ := mem_map.mp mem
    exact ih arg listed

theorem Hollow.valued (hollow : Hollow tokens) : ∀ token ∈ tokens, token.Valued := by
  induction hollow with
  | nil => exact fun _ impossible => nomatch impossible
  | group opening _ closing ih =>
    rw [forall_mem_cons, forall_mem_append, forall_mem_singleton]
    exact ⟨valued_of_kind opening nofun, ih, valued_of_kind closing nofun⟩

theorem valued_of_parse {text : String} {root : Option Tree} (parsed : parse table text = .ok root)
    (scanned : scan text = .ok tokens) : ∀ token ∈ tokens, token.Valued := by
  obtain ⟨_, derived, again, derives, -⟩ := parse_eq_ok_iff.mp parsed
  cases scanned.symm.trans again
  cases derives with
  | hollow nothing => exact nothing.valued
  | sum phrase => exact phrase.valued

end FieldGraph.Expression
