import FieldGraph.Proofs.Expression.Lossless
import FieldGraph.Proofs.Expression.Numerals

/-! # Complaints point at the text

A text is refused at a character where nothing starts, behind text that can be scanned, or by a
reader, which complains about a token or about the end of the text.
-/

namespace FieldGraph.Expression

open List Text

/-! ## Where scanning stops -/

variable {pos : Nat} {text lexeme rest before after : List Char} {kind : TokenKind}
  {outcome : Except SyntaxError (List Token)} {error : SyntaxError}

/-- What is taken off a text is also taken off a shorter text. -/
theorem span_cut {p : Char → Bool} (parts : text.dropWhile p = before ++ after) :
    (text.takeWhile p ++ before).takeWhile p = text.takeWhile p ∧
      (text.takeWhile p ++ before).dropWhile p = before := by
  have all : ∀ c ∈ text.takeWhile p, p c = true := fun _ => mem_takeWhile_imp
  rw [takeWhile_append_of_pos all, dropWhile_append_of_pos all]
  cases before with
  | nil => exact ⟨append_nil _, rfl⟩
  | cons c before =>
    have stops : p c = false := by simpa [parts] using head?_dropWhile_not p text
    simp [stops]

theorem splitNumber_point (point : text.dropWhile isDigit = '.' :: rest) : splitNumber text =
    (text.takeWhile isDigit ++ '.' :: rest.takeWhile isDigit, rest.dropWhile isDigit) := by
  rw [splitNumber, point]
  rfl

theorem splitNumber_whole (whole : ∀ rest, text.dropWhile isDigit ≠ '.' :: rest) :
    splitNumber text = (text.takeWhile isDigit, text.dropWhile isDigit) := by
  unfold splitNumber
  split
  · rename_i rest point
    exact (whole rest point).elim
  · rfl

theorem splitNumber_cut (parts : (splitNumber text).2 = before ++ after) :
    splitNumber ((splitNumber text).1 ++ before) = ((splitNumber text).1, before) := by
  by_cases point : ∃ rest, text.dropWhile isDigit = '.' :: rest
  · obtain ⟨rest, point⟩ := point
    rw [splitNumber_point point] at parts ⊢
    have whole : text.dropWhile isDigit = '.' :: (rest.takeWhile isDigit ++ before) ++ after := by
      rw [point, cons_append, append_assoc, ← parts, takeWhile_append_dropWhile]
    rw [append_assoc, cons_append, splitNumber_point (span_cut whole).2, (span_cut whole).1,
      (span_cut parts).1, (span_cut parts).2]
  · have whole := not_exists.mp point
    rw [splitNumber_whole whole] at parts ⊢
    rw [splitNumber_whole, (span_cut parts).1, (span_cut parts).2]
    rw [(span_cut parts).2]
    rintro rest rfl
    exact whole _ parts

theorem startsNumber_cut (starts : startsNumber text = true) (before : List Char) :
    startsNumber ((splitNumber text).1 ++ before) = true := by
  match text with
  | [] => cases starts
  | c :: rest =>
    cases digit : isDigit c with
    | true => unfold splitNumber; split <;> simp [startsNumber, digit]
    | false =>
      simp only [startsNumber, digit, Bool.false_or, Bool.and_eq_true, beq_iff_eq] at starts
      obtain ⟨rfl, next⟩ := starts
      cases rest with
      | nil => cases next
      | cons d rest => simp_all [startsNumber, splitNumber]

theorem startsNumber_cons_ne {c : Char} (other : startsNumber (c :: rest) ≠ true) (point : c ≠ '.')
    (text : List Char) : startsNumber (c :: text) ≠ true := by
  simp_all [startsNumber]

theorem Takes.cut (takes : Takes text kind lexeme rest) (parts : rest = before ++ after) :
    Takes (lexeme ++ before) kind lexeme before := by
  cases takes with
  | number starts =>
    have takes := Takes.number (startsNumber_cut starts before)
    rwa [splitNumber_cut parts] at takes
  | @name c rest other starts =>
    have same := span_cut parts
    have part := isNamePart_of_isNameStart starts
    rw [takeWhile_cons_of_pos part, cons_append] at same ⊢
    have point : c ≠ '.' := by
      rintro rfl
      exact absurd starts (by decide)
    have takes := Takes.name
      (startsNumber_cons_ne other point (rest.takeWhile isNamePart ++ before)) starts
    rwa [same.1, same.2] at takes
  | symbol other starts found =>
    refine .symbol (startsNumber_cons_ne other ?_ _) starts found
    rintro rfl
    exact nomatch (show none = some kind from found)

theorem Scans.cut (scans : Scans pos text outcome) (failed : outcome = .error error) :
    ∃ before c after tokens, text = before ++ c :: after ∧
      error = ⟨.invalidToken, pos + before.length, c.toString⟩ ∧ Scans pos before (.ok tokens) := by
  induction scans with
  | finished => cases failed
  | @blank pos first rest _ isBlank _ ih =>
    obtain ⟨before, c, after, tokens, rfl, rfl, scans⟩ := ih failed
    refine ⟨first :: before, c, after, tokens, rfl, ?_, .blank isBlank scans⟩
    rw [length_cons, ← Nat.add_assoc, Nat.add_right_comm]
  | @token pos first kind text lexeme rest outcome visible takes _ ih =>
    cases outcome with
    | ok tokens => cases failed
    | error found =>
      cases failed
      obtain ⟨before, c, after, tokens, parts, rfl, scans⟩ := ih rfl
      have whole := takes.append_eq
      have kept := takes.cut parts
      obtain ⟨head, tail, rfl⟩ := exists_cons_of_ne_nil takes.ne_nil
      obtain ⟨rfl, -⟩ := cons.inj whole
      refine ⟨head :: tail ++ before, c, after, _, ?_, ?_, .token visible kept scans⟩
      · rw [← whole, parts, append_assoc]
      · rw [length_append, Nat.add_assoc]
  | @invalid c rest pos =>
    exact ⟨[], c, rest, [], rfl, (Except.error.inj failed).symm, .finished pos⟩

/-- **Complaints point at the text.** -/
theorem complaint_points_at_text {table : List Callable} {text : String}
    (refused : parse table text = .error (.rejected error)) :
    error.position ≤ text.length ∧
      error.symbol = slice text error.position error.symbol.length ∧
      (error.symbol = "" → error.position = text.length) ∧
      (error.cause ≠ .invalidToken → ∃ tokens, tokenize text = .ok tokens ∧
        ∃ token ∈ tokens, error.position = token.position ∧ error.symbol = token.text) ∧
      (error.cause = .invalidToken →
        ∃ tokens, tokenize (slice text 0 error.position) = .ok tokens) := by
  unfold parse at refused
  cases scanned : scan text with
  | error found =>
    rw [scanned] at refused
    obtain rfl := ParseFailure.rejected.inj (Except.error.inj refused)
    obtain ⟨before, c, after, tokens, parts, rfl, scans⟩ := (scans_iff.mpr scanned).cut rfl
    have size : text.length = before.length + (after.length + 1) := by
      rw [← String.length_toList, parts, length_append, length_cons]
    have front : slice text 0 before.length = String.ofList before := by simp [slice, parts]
    refine ⟨by dsimp only; omega, by simp [slice, parts], ?_, (absurd rfl ·), fun _ => ?_⟩
    · exact fun empty => absurd (congrArg String.length empty) (by simp)
    · refine ⟨tokens ++ [.stop before.length], ?_⟩
      dsimp only
      rw [Nat.zero_add, front, tokenize, scan, String.toList_ofList, scans_iff.mp scans,
        String.length_ofList]
      rfl
  | ok tokens =>
    rw [scanned] at refused
    have spells := spells_of_scan scanned
    obtain ⟨token, cause, mem, other, rfl⟩ := blames_of_treeOfTokens refused
    have tokenized : tokenize text = .ok (tokens ++ [.stop text.length]) := by
      rw [tokenize, scanned]
      rfl
    have named : ∃ found ∈ tokens ++ [.stop text.length],
        (token.complaint cause).position = found.position ∧
          (token.complaint cause).symbol = found.text := ⟨token, mem, rfl, rfl⟩
    rcases mem_append.mp mem with lexeme | last
    · have precedes := (pairwise_append.mp spells.pairwise_precedes).2.2 token lexeme _
        (mem_singleton_self _)
      have within : token.position < 0 + text.toList.length := precedes.1
      rw [Nat.zero_add, String.length_toList] at within
      exact ⟨within.le, spells.text_eq_slice lexeme,
        fun empty => ((spells.proper lexeme).2 empty).elim, fun _ => ⟨_, tokenized, named⟩,
        fun same => (other same).elim⟩
    · obtain rfl := mem_singleton.mp last
      exact ⟨le_rfl, by simp [slice, Token.complaint, Token.stop], fun _ => rfl,
        fun _ => ⟨_, tokenized, named⟩, fun same => (other same).elim⟩

theorem complaint_points_at_text_unknown : ∃ error : SyntaxError,
    parse [] " f(2" = .error (.rejected error) ∧ error = ⟨.unknownFunction, 1, "f"⟩ ∧
      error.symbol = slice " f(2" error.position error.symbol.length := by
  have scanned : scan " f(2" = .ok [⟨.name, "f", 1⟩, ⟨.opening, "(", 2⟩, ⟨.number, "2", 3⟩] := by
    decide +kernel
  have refused : parse [] " f(2" = .error (.rejected ⟨.unknownFunction, 1, "f"⟩) := by
    rw [parse, scanned]
    dsimp only
    rw [treeOfTokens_eq, plain_readExpression, plain_readOperand_call rfl rfl]
    rfl
  exact ⟨_, refused, rfl, (complaint_points_at_text refused).2.1⟩

end FieldGraph.Expression
