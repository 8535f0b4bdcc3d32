import FieldGraph.Proofs.Expression.Exact
import FieldGraph.Proofs.Expression.Lossless

/-! # Digits without a place value

A number token may hold any digits, but only decimal digits have a place value. A number
with another digit, such as a superscript, has no value, and reading breaks off there
instead of judging the text. This is the only way in which reading ends without a tree, an
empty expression or a complaint.
-/

namespace FieldGraph.Expression

open List Option Text Token

variable {table : List Callable} {text : String} {c : Char} {token : Token} {tokens : List Token}

/-- A digit that does not stand in decimal notation. -/
def IsDetached (c : Char) : Prop := isDigit c = true ∧ decimalValue? c = none

instance (c : Char) : Decidable (IsDetached c) :=
  inferInstanceAs (Decidable (isDigit c = true ∧ decimalValue? c = none))

theorem mem_of_mem_splitNumber {text : List Char} (mem : c ∈ (splitNumber text).1) :
    c ∈ text ∧ (isDigit c = true ∨ c = '.') := by
  constructor
  · rw [← splitNumber_append text]
    exact mem_append_left _ mem
  · unfold splitNumber at mem
    split at mem
    · rcases mem_append.mp mem with whole | fraction
      · exact .inl (mem_takeWhile_imp whole)
      · rcases mem_cons.mp fraction with point | digit
        · exact .inr point
        · exact .inl (mem_takeWhile_imp digit)
    · exact .inl (mem_takeWhile_imp mem)

theorem Scans.digit_or_point {pos : Nat} {text : List Char}
    {outcome : Except SyntaxError (List Token)} (scans : Scans pos text outcome)
    (ok : outcome = .ok tokens) (mem : token ∈ tokens) (number : token.kind = .number)
    (within : c ∈ token.text.toList) : c ∈ text ∧ (isDigit c = true ∨ c = '.') := by
  induction scans generalizing tokens with
  | finished =>
    cases ok
    cases mem
  | blank _ _ ih => exact (ih ok mem).imp_left (mem_cons_of_mem _)
  | @token pos first kind text lexeme rest outcome _ takes _ ih =>
    cases outcome with
    | error error => cases ok
    | ok others =>
      cases ok
      rcases mem_cons.mp mem with rfl | later
      · rw [String.toList_ofList] at within
        cases takes with
        | number => exact mem_of_mem_splitNumber within
        | name => cases number
        | symbol _ _ found => exact ((ne_of_symbolKind? found).1 number).elim
      · refine (ih rfl later).imp_left fun left => ?_
        rw [← takes.append_eq]
        exact mem_append_right _ left
  | invalid => cases ok

theorem exists_of_numberValue?_eq_none {lexeme : String} (none : numberValue? lexeme = none) :
    ∃ c ∈ lexeme.toList, c ≠ '.' ∧ decimalValue? c = .none := by
  by_contra every
  push Not at every
  have valued : ∀ c ∈ lexeme.toList.filter (· != '.'), ∃ value, decimalValue? c = some value := by
    intro c mem
    obtain ⟨listed, other⟩ := mem_filter.mp mem
    exact ne_none_iff_exists'.mp (every c listed (bne_iff_ne.mp other))
  obtain ⟨digits, found⟩ := exists_mapM_some valued
  unfold numberValue? at none
  dsimp only at none
  rw [found] at none
  cases none

theorem exists_detached (scanned : scan text = .ok tokens) (mem : token ∈ tokens)
    (lacks : token.lacksValue = true) :
    ∃ c ∈ token.text.toList, c ∈ text.toList ∧ IsDetached c := by
  obtain ⟨number, none⟩ := Bool.and_eq_true_iff.mp lacks
  obtain ⟨c, within, other, detached⟩ := exists_of_numberValue?_eq_none (isNone_iff_eq_none.mp none)
  obtain ⟨present, digit | point⟩ :=
    (scans_iff.mpr scanned).digit_or_point rfl mem (beq_iff_eq.mp number) within
  · exact ⟨c, within, present, digit, detached⟩
  · exact (other point).elim

/-- **Reading a text ends in one of three ways.** A text without detached digits is read or
rejected. Any other text may also break off, at the first of its numbers that has no value;
such a number has a detached digit. A text with such a number is never read, and if it
would be an expression with zeros in their place, it does break off. -/
theorem parse_trichotomy (table : List Callable) (text : String) :
    ((∃ root, parse table text = .ok root) ∨
      (∃ error, parse table text = .error (.rejected error)) ∨
      ∃ tokens token, scan text = .ok tokens ∧ tokens.find? lacksValue = some token ∧
        parse table text = .error (.malformedNumber token.text) ∧
          ∃ c ∈ token.text.toList, c ∈ text.toList ∧ IsDetached c) ∧
    ((∀ c ∈ text.toList, ¬ IsDetached c) → (∃ root, parse table text = .ok root) ∨
        ∃ error, parse table text = .error (.rejected error)) ∧
    (∀ tokens token, scan text = .ok tokens → tokens.find? lacksValue = some token →
      (∀ root, parse table text ≠ .ok root) ∧
      ∀ root, Root table (tokens.map mend) root →
        parse table text = .error (.malformedNumber token.text)) := by
  have ends : ((∃ root, parse table text = .ok root) ∨
      (∃ error, parse table text = .error (.rejected error)) ∨
      ∃ tokens token, scan text = .ok tokens ∧ tokens.find? lacksValue = some token ∧
        parse table text = .error (.malformedNumber token.text) ∧
          ∃ c ∈ token.text.toList, c ∈ text.toList ∧ IsDetached c) := by
    unfold parse
    cases scanned : scan text with
    | error error => exact .inr (.inl ⟨error, rfl⟩)
    | ok tokens =>
      rcases treeOfTokens_cases table text.length tokens with ⟨token, found, breaks⟩ |
        ⟨error, -, refused, -⟩ | ⟨root, read, -⟩
      · exact .inr (.inr ⟨tokens, token, rfl, found, breaks,
          exists_detached scanned (mem_of_find?_eq_some found) (find?_some found)⟩)
      · exact .inr (.inl ⟨error, refused⟩)
      · exact .inl ⟨root, read⟩
  refine ⟨ends, fun decimal => ?_, fun tokens token scanned found => ?_⟩
  · rcases ends with read | rejected | ⟨_, _, _, _, _, c, _, present, detached⟩
    · exact .inl read
    · exact .inr rejected
    · exact (decimal c present detached).elim
  · have parses : parse table text = treeOfTokens table text.length tokens := by
      rw [parse, scanned]
    rw [parses]
    rcases treeOfTokens_cases table text.length tokens with ⟨other, same, breaks⟩ |
      ⟨error, complaint, refused, mended⟩ | ⟨root, -, none⟩
    · obtain rfl := some.inj (found.symm.trans same)
      refine ⟨fun root read => ?_, fun _ _ => breaks⟩
      rw [breaks] at read
      cases read
    · refine ⟨fun root read => ?_, fun root derives => ?_⟩
      · rw [refused] at read
        cases read
      · rw [root_iff.mpr ⟨root, derives, rfl⟩] at mended
        cases mended
    · rw [none] at found
      cases found

/-- A sum with a superscript for its second operand breaks off there. -/
theorem parse_trichotomy_superscript : parse [] "x+²" = .error (.malformedNumber "²") := by
  have scanned : scan "x+²" =
      .ok [⟨.name, "x", 0⟩, ⟨.operator .add, "+", 1⟩, ⟨.number, "²", 2⟩] := by decide +kernel
  have zero : ∃ value, numberValue? "0" = some value := isSome_iff_exists.mp (by decide +kernel)
  obtain ⟨value, zero⟩ := zero
  have left : Derives [] .sum [⟨.name, "x", 0⟩] (.var "x") :=
    .ofProduct (.ofUnary (.ofPower (.ofPrimary (.var rfl))))
  have right : Derives [] .product [⟨.number, "0", 2⟩] (.number value) :=
    .ofUnary (.ofPower (.ofPrimary (.number rfl zero)))
  exact ((parse_trichotomy [] "x+²").2.2 _ ⟨.number, "²", 2⟩ scanned (by decide +kernel)).2 _
    (.sum (.sum left rfl (.inl rfl) right))

end FieldGraph.Expression
