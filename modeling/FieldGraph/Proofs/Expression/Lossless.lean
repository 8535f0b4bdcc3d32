import FieldGraph.Expression.Token
import Mathlib.Data.List.TakeWhile

/-! # Scanning loses nothing

Scanning goes in rounds: a round drops a blank, takes a lexeme off the text, or stops where none
starts. Every lexeme has a character, so the rounds come to an end, and a scanned text is its
tokens with blanks between them.
-/

namespace FieldGraph.Expression

open List Text

variable {pos : Nat} {text lexeme rest before after : List Char} {kind : TokenKind} {c : Char}
  {tokens : List Token} {outcome : Except SyntaxError (List Token)}

/-! ## Rounds -/

/-- The lexeme at the start of a text, its kind and the text behind it. A name goes up to the first
character that is no part of one, and would be empty if a letter were none. -/
inductive Takes : List Char → TokenKind → List Char → List Char → Prop
  | number {text : List Char} : startsNumber text = true →
      Takes text .number (splitNumber text).1 (splitNumber text).2
  | name {c : Char} {rest : List Char} : startsNumber (c :: rest) ≠ true → isNameStart c = true →
      Takes (c :: rest) .name ((c :: rest).takeWhile isNamePart) ((c :: rest).dropWhile isNamePart)
  | symbol {c : Char} {kind : TokenKind} {rest : List Char} : startsNumber (c :: rest) ≠ true →
      isNameStart c ≠ true → symbolKind? c = some kind → Takes (c :: rest) kind [c] rest

/-- The rounds of scanning from a position to the end of the text, or to a character at which
nothing starts. -/
inductive Scans : Nat → List Char → Except SyntaxError (List Token) → Prop
  | finished (pos : Nat) : Scans pos [] (.ok [])
  | blank {pos : Nat} {c : Char} {rest : List Char} {outcome : Except SyntaxError (List Token)} :
      isBlank c = true → Scans (pos + 1) rest outcome → Scans pos (c :: rest) outcome
  | token {pos : Nat} {c : Char} {kind : TokenKind} {text lexeme rest : List Char}
      {outcome : Except SyntaxError (List Token)} : isBlank c ≠ true →
      Takes (c :: text) kind lexeme rest → Scans (pos + lexeme.length) rest outcome →
        Scans pos (c :: text) (outcome.map (⟨kind, String.ofList lexeme, pos⟩ :: ·))
  | invalid {c : Char} {rest : List Char} (pos : Nat) : isBlank c ≠ true →
      startsNumber (c :: rest) ≠ true → isNameStart c ≠ true → symbolKind? c = none →
        Scans pos (c :: rest) (.error ⟨.invalidToken, pos, c.toString⟩)

theorem isNamePart_of_isNameStart (starts : isNameStart c = true) : isNamePart c = true := by
  rw [isNameStart, Bool.or_eq_true] at starts
  rw [isNamePart, Bool.or_eq_true]
  exact starts.imp_left isAlphanumeric_of_isLetter

theorem ne_of_symbolKind? (found : symbolKind? c = some kind) : kind ≠ .number ∧ kind ≠ .stop := by
  unfold symbolKind? at found
  split at found
  · cases found
    constructor <;> rintro ⟨⟩
  · split_ifs at found <;> cases found <;> decide

namespace Takes

section

variable (takes : Takes text kind lexeme rest)

include takes

theorem append_eq : lexeme ++ rest = text := by
  cases takes with
  | number => exact splitNumber_append text
  | name => exact takeWhile_append_dropWhile
  | symbol => rfl

theorem ne_nil : lexeme ≠ [] := by
  cases takes with
  | number starts => exact splitNumber_ne_nil starts
  | name _ starts => simp [isNamePart_of_isNameStart starts]
  | symbol => exact cons_ne_nil _ _

theorem kind_ne_stop : kind ≠ .stop := by
  cases takes with
  | number | name => rintro ⟨⟩
  | symbol _ _ found => exact (ne_of_symbolKind? found).2

end

theorem scanFrom_eq (takes : Takes (c :: text) kind lexeme rest) (visible : isBlank c ≠ true) :
    scanFrom pos (c :: text) =
      (scanFrom (pos + lexeme.length) rest).map (⟨kind, String.ofList lexeme, pos⟩ :: ·) := by
  rw [scanFrom, if_neg visible]
  cases takes with
  | number starts => rw [if_pos starts]
  | name other starts =>
    have part := isNamePart_of_isNameStart starts
    rw [if_neg other, if_pos starts, takeWhile_cons_of_pos part, dropWhile_cons_of_pos part]
  | symbol other starts found =>
    rw [if_neg other, if_neg starts, found]
    rfl

end Takes

/-- **Scanning comes to an end, with one outcome.** -/
theorem scans_iff : Scans pos text outcome ↔ scanFrom pos text = outcome := by
  constructor
  · intro scans
    induction scans with
    | finished pos => rw [scanFrom]
    | blank isBlank _ ih => rw [scanFrom, if_pos isBlank, ih]
    | token visible takes _ ih => rw [takes.scanFrom_eq visible, ih]
    | invalid pos visible number name none =>
      rw [scanFrom, if_neg visible, if_neg number, if_neg name, none]
  · rintro rfl
    fun_induction scanFrom pos text with
    | case1 pos => exact .finished pos
    | case2 pos c rest isBlank ih => exact .blank isBlank ih
    | case3 pos c rest visible starts lexeme ih => exact .token visible (.number starts) ih
    | case4 pos c rest visible number starts lexeme ih =>
      have part := isNamePart_of_isNameStart starts
      have takes := Takes.name number starts
      rw [takeWhile_cons_of_pos part, dropWhile_cons_of_pos part] at takes
      exact .token visible takes ih
    | case5 pos c rest visible number name kind found ih =>
      exact .token visible (.symbol number name found) ih
    | case6 pos c rest visible number name none => exact .invalid pos visible number name none

/-! ## Tokens and blanks -/

/-- A text consists of tokens, each at its position, and blanks. -/
inductive Spells : Nat → List Token → List Char → Prop
  | nil (pos : Nat) : Spells pos [] []
  | blank {pos : Nat} {c : Char} {tokens : List Token} {rest : List Char} : isBlank c = true →
      Spells (pos + 1) tokens rest → Spells pos tokens (c :: rest)
  | token (token : Token) {tokens : List Token} {rest : List Char} : token.kind ≠ .stop →
      token.text ≠ "" → Spells (token.position + token.text.length) tokens rest →
        Spells token.position (token :: tokens) (token.text.toList ++ rest)

theorem Scans.spells (scans : Scans pos text outcome) (ok : outcome = .ok tokens) :
    Spells pos tokens text := by
  induction scans generalizing tokens with
  | finished pos =>
    cases ok
    exact .nil pos
  | blank isBlank _ ih => exact .blank isBlank (ih ok)
  | @token pos c kind text lexeme rest outcome _ takes _ ih =>
    cases outcome with
    | error error => cases ok
    | ok others =>
      cases ok
      have behind := ih rfl
      have taken : (String.ofList lexeme).toList ++ rest = c :: text := by
        rw [String.toList_ofList, takes.append_eq]
      rw [← taken]
      refine .token ⟨kind, String.ofList lexeme, pos⟩ takes.kind_ne_stop ?_ ?_
      · intro empty
        exact takes.ne_nil (by simpa using congrArg String.toList empty)
      · rwa [String.length_ofList]
  | invalid => cases ok

theorem spells_of_scan {text : String} (scanned : scan text = .ok tokens) :
    Spells 0 tokens text.toList :=
  (scans_iff.mpr scanned).spells rfl

/-- The characters of a text from a position on. -/
def slice (text : String) (pos count : Nat) : String :=
  String.ofList ((text.toList.drop pos).take count)

namespace Token

/-- A position is one of the token's characters. -/
def Covers (token : Token) (pos : Nat) : Prop :=
  token.position ≤ pos ∧ pos < token.position + token.text.length

/-- A token stands in front of another. -/
def Precedes (token other : Token) : Prop :=
  token.position < other.position ∧ token.position + token.text.length ≤ other.position

end Token

namespace Spells

variable {token : Token}

section

variable (spells : Spells pos tokens text)

include spells

theorem proper (mem : token ∈ tokens) : token.kind ≠ .stop ∧ token.text ≠ "" := by
  induction spells with
  | nil => cases mem
  | blank _ _ ih => exact ih mem
  | token _ kind nonempty _ ih =>
    rcases mem_cons.mp mem with rfl | later
    · exact ⟨kind, nonempty⟩
    · exact ih later

/-- A token of a text is a part of it. -/
theorem exists_append (mem : token ∈ tokens) :
    ∃ before after, text = before ++ token.text.toList ++ after ∧
      token.position = pos + before.length := by
  induction spells with
  | nil => cases mem
  | @blank pos c _ _ _ _ ih =>
    obtain ⟨before, after, rfl, place⟩ := ih mem
    refine ⟨c :: before, after, rfl, ?_⟩
    rw [length_cons]
    omega
  | token first _ _ _ ih =>
    rcases mem_cons.mp mem with rfl | later
    · exact ⟨[], _, rfl, rfl⟩
    · obtain ⟨before, after, rfl, place⟩ := ih later
      refine ⟨first.text.toList ++ before, after, by simp only [append_assoc], ?_⟩
      rw [place, length_append, String.length_toList, Nat.add_assoc]

theorem pairwise_precedes :
    (tokens ++ [Token.stop (pos + text.length)]).Pairwise Token.Precedes := by
  induction spells with
  | nil pos => exact pairwise_singleton _ _
  | @blank pos c _ rest _ _ ih =>
    rw [length_cons, ← Nat.add_assoc, Nat.add_right_comm]
    exact ih
  | token first _ nonempty behind ih =>
    have visible : 0 < first.text.length :=
      Nat.pos_of_ne_zero (mt String.length_eq_zero_iff.mp nonempty)
    rw [length_append, ← Nat.add_assoc]
    refine pairwise_cons.mpr ⟨fun other mem => ?_, ih⟩
    have later : first.position + first.text.length ≤ other.position := by
      rcases mem_append.mp mem with listed | last
      · obtain ⟨before, _, _, place⟩ := behind.exists_append listed
        omega
      · obtain rfl := mem_singleton.mp last
        exact Nat.le_add_right _ _
    exact ⟨by omega, later⟩

theorem isBlank_of_not_covers {i : Nat} (at_i : text[i]? = some c)
    (outside : ∀ token ∈ tokens, ¬ token.Covers (pos + i)) : isBlank c = true := by
  induction spells generalizing i with
  | nil => cases at_i
  | blank isBlank _ ih =>
    cases i with
    | zero =>
      cases at_i
      exact isBlank
    | succ i =>
      refine ih at_i ?_
      rwa [Nat.add_right_comm]
  | token first _ _ _ ih =>
    have late : first.text.length ≤ i := by
      have := outside first mem_cons_self
      unfold Token.Covers at this
      omega
    rw [getElem?_append_right (by rwa [String.length_toList]), String.length_toList] at at_i
    refine ih at_i fun token mem => ?_
    rw [show first.position + first.text.length + (i - first.text.length) = first.position + i by
      omega]
    exact outside token (mem_cons_of_mem _ mem)

end

theorem text_eq_slice {text : String} (spells : Spells 0 tokens text.toList)
    (mem : token ∈ tokens) : token.text = slice text token.position token.text.length := by
  obtain ⟨before, after, parts, place⟩ := spells.exists_append mem
  rw [slice, parts, place, Nat.zero_add, append_assoc, drop_left, ← String.length_toList,
    take_left, String.ofList_toList]

end Spells

/-- **Scanning is lossless.** -/
theorem tokenize_lossless (text : String) :
    (∀ outcome, Scans 0 text.toList outcome ↔ scan text = outcome) ∧
    ∀ tokens, tokenize text = .ok tokens → ∃ lexemes, tokens = lexemes ++ [.stop text.length] ∧
      (∀ token ∈ lexemes, token.kind ≠ .stop ∧ token.text ≠ "" ∧
        token.text = slice text token.position token.text.length) ∧
      tokens.Pairwise Token.Precedes ∧
      (∀ i c, text.toList[i]? = some c → (∀ token ∈ lexemes, ¬ token.Covers i) →
        isBlank c = true) ∧
      Spells 0 lexemes text.toList := by
  refine ⟨fun outcome => scans_iff, fun tokens tokenized => ?_⟩
  unfold tokenize at tokenized
  cases scanned : scan text with
  | error error =>
    rw [scanned] at tokenized
    cases tokenized
  | ok lexemes =>
    rw [scanned] at tokenized
    obtain rfl := Except.ok.inj tokenized
    have spells := spells_of_scan scanned
    refine ⟨lexemes, rfl, fun token mem => ?_, ?_, fun i c at_i outside => ?_, spells⟩
    · obtain ⟨kind, nonempty⟩ := spells.proper mem
      exact ⟨kind, nonempty, spells.text_eq_slice mem⟩
    · have ordered := spells.pairwise_precedes
      rwa [Nat.zero_add, String.length_toList] at ordered
    · refine spells.isBlank_of_not_covers at_i ?_
      rwa [Nat.zero_add]

theorem tokenize_lossless_points : ∃ tokens, tokenize " .5x1 ^2." = .ok tokens ∧
    tokens.map (·.text) = [".5", "x1", "^", "2.", ""] ∧ tokens.Pairwise Token.Precedes := by
  have tokenized : tokenize " .5x1 ^2." = .ok [⟨.number, ".5", 1⟩, ⟨.name, "x1", 3⟩,
      ⟨.operator .power, "^", 6⟩, ⟨.number, "2.", 7⟩, .stop 9] := by decide +kernel
  obtain ⟨_, _, _, ordered, _⟩ := (tokenize_lossless _).2 _ tokenized
  exact ⟨_, tokenized, rfl, ordered⟩

end FieldGraph.Expression
