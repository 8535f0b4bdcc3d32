import FieldGraph.Text.Quoted
import Mathlib

/-! # Quoted texts can be read back

A character is found again in what it is quoted as, whatever follows, and none is quoted
as something that starts with the quote. So a quoted text ends where it seems to end, and
texts that are quoted alike are the same.
-/

namespace FieldGraph.Text

open List Option

variable {width : Nat} {quote : Char} {rest rest' : List Char}

/-! ## Hexadecimal codes -/

/-- The value of a hexadecimal digit. -/
def hexDigit (c : Char) : Nat := if c.isDigit then c.toNat - 48 else c.toNat - 87

/-- The number that hexadecimal digits write. -/
def ofHex (digits : List Char) : Nat := digits.foldl (fun n c => 16 * n + hexDigit c) 0

theorem ofHex_append_singleton (digits : List Char) (c : Char) :
    ofHex (digits ++ [c]) = 16 * ofHex digits + hexDigit c := by
  rw [ofHex, foldl_append]
  rfl

theorem hexDigit_digitChar {n : Nat} (small : n < 16) : hexDigit n.digitChar = n := by
  interval_cases n <;> decide

theorem ofHex_toDigits (n : Nat) : ofHex (Nat.toDigits 16 n) = n := by
  induction n using Nat.strongRecOn with
  | ind n ih =>
    rw [Nat.toDigits_eq_if (by decide)]
    split
    · rename_i small
      rw [ofHex, foldl_cons, foldl_nil, hexDigit_digitChar small]
      omega
    · rw [ofHex_append_singleton, ih _ (by omega), hexDigit_digitChar (by omega)]
      omega

theorem ofHex_zeros_append (count : Nat) (digits : List Char) :
    ofHex (List.replicate count '0' ++ digits) = ofHex digits := by
  have none : (List.replicate count '0').foldl (fun n c => 16 * n + hexDigit c) 0 = 0 := by
    induction count with
    | zero => rfl
    | succ count ih => exact ih
  rw [ofHex, foldl_append, none, ofHex]

theorem ofHex_hexadecimal (width code : Nat) : ofHex (hexadecimal width code).toList = code := by
  rw [hexadecimal, String.toList_ofList, ofHex_zeros_append, ofHex_toDigits]

theorem length_hexadecimal {code : Nat} (pos : 0 < width) (fits : code < 16 ^ width) :
    (hexadecimal width code).toList.length = width := by
  have short := (Nat.length_toDigits_le_iff (b := 16) (by decide) pos).mpr fits
  rw [hexadecimal, String.toList_ofList, length_append, length_replicate]
  omega

/-! ## Characters -/

/-- The character that a code of some digits stands for, and what follows the code. -/
def readCode (width : Nat) (text : List Char) : Char × List Char :=
  (Char.ofNat (ofHex (text.take width)), text.drop width)

/-- The character that is written behind a backslash, and what follows it. -/
def readEscape : List Char → Option (Char × List Char)
  | 'n' :: rest => some ('\n', rest)
  | 'r' :: rest => some ('\r', rest)
  | 't' :: rest => some ('\t', rest)
  | 'x' :: rest => some (readCode 2 rest)
  | 'u' :: rest => some (readCode 4 rest)
  | 'U' :: rest => some (readCode 8 rest)
  | c :: rest => some (c, rest)
  | [] => none

/-- The first character of the inside of a quoted text, and what follows it. -/
def readChar : List Char → Option (Char × List Char)
  | [] => none
  | c :: rest => if c = '\\' then readEscape rest else some (c, rest)

theorem readCode_hexadecimal {c : Char} (pos : 0 < width) (fits : c.toNat < 16 ^ width)
    (rest : List Char) :
    readCode width ((hexadecimal width c.toNat).toList ++ rest) = (c, rest) := by
  have length := length_hexadecimal pos fits
  rw [readCode, take_left' length, drop_left' length, ofHex_hexadecimal, Char.ofNat_toNat]

theorem readChar_escapedCode (c : Char) (rest : List Char) :
    readChar ((escapedCode c).toList ++ rest) = some (c, rest) := by
  unfold escapedCode
  dsimp only
  split
  · rename_i small
    have text : ("\\x" ++ hexadecimal 2 c.toNat).toList ++ rest =
        '\\' :: 'x' :: ((hexadecimal 2 c.toNat).toList ++ rest) := by simp
    rw [text, readChar, if_pos rfl, readEscape, readCode_hexadecimal (by decide) small]
  split
  · rename_i small
    have text : ("\\u" ++ hexadecimal 4 c.toNat).toList ++ rest =
        '\\' :: 'u' :: ((hexadecimal 4 c.toNat).toList ++ rest) := by simp
    rw [text, readChar, if_pos rfl, readEscape, readCode_hexadecimal (by decide) small]
  · have text : ("\\U" ++ hexadecimal 8 c.toNat).toList ++ rest =
        '\\' :: 'U' :: ((hexadecimal 8 c.toNat).toList ++ rest) := by simp
    rw [text, readChar, if_pos rfl, readEscape, readCode_hexadecimal (by decide) c.val.toNat_lt]

/-- Single and double quotes. -/
def isQuote (c : Char) : Prop := c = '\x27' ∨ c = '"'

theorem readChar_quotedChar (isQuote : isQuote quote) (c : Char) (rest : List Char) :
    readChar ((quotedChar quote c).toList ++ rest) = some (c, rest) := by
  unfold quotedChar
  split
  · rename_i special
    rcases special with rfl | rfl
    · rcases isQuote with rfl | rfl <;> rfl
    · rfl
  rename_i plain
  rw [not_or] at plain
  split
  · rename_i same
    rw [same]
    rfl
  split
  · rename_i same
    rw [same]
    rfl
  split
  · rename_i same
    rw [same]
    rfl
  split
  · rw [Char.toString_eq_singleton, String.toList_singleton, singleton_append, readChar,
      if_neg plain.2]
  · exact readChar_escapedCode c rest

/-! ## Texts -/

/-- The inside of a quoted text. -/
def insideQuotes (quote : Char) (text : List Char) : List Char :=
  text.flatMap fun c => (quotedChar quote c).toList

theorem insideQuotes_append_inj (isQuote : isQuote quote) {first second : List Char}
    (same : insideQuotes quote first ++ quote :: rest =
      insideQuotes quote second ++ quote :: rest') : first = second ∧ rest = rest' := by
  have other : '\\' ≠ quote := by
    rcases isQuote with rfl | rfl <;> decide
  have ends (c : Char) (text behind : List Char) :
      quote :: behind ≠ (quotedChar quote c).toList ++ text := by
    intro same
    have read := congrArg readChar same
    rw [readChar_quotedChar isQuote, readChar, if_neg other.symm, some.injEq, Prod.mk.injEq] at read
    rw [← read.1, quotedChar, if_pos (.inl rfl), String.toList_ofList] at same
    exact other (List.cons.inj same).1.symm
  induction first generalizing second with
  | nil =>
    cases second with
    | nil => exact ⟨rfl, (List.cons.inj same).2⟩
    | cons d second =>
      rw [insideQuotes, insideQuotes, flatMap_cons, append_assoc] at same
      exact (ends d _ rest same).elim
  | cons c first ih =>
    cases second with
    | nil =>
      rw [insideQuotes, flatMap_cons, append_assoc] at same
      exact (ends c _ rest' same.symm).elim
    | cons d second =>
      rw [insideQuotes, insideQuotes, flatMap_cons, flatMap_cons, append_assoc,
        append_assoc] at same
      have read := congrArg readChar same
      rw [readChar_quotedChar isQuote, readChar_quotedChar isQuote, some.injEq,
        Prod.mk.injEq] at read
      obtain ⟨equal, behind⟩ := ih read.2
      exact ⟨by rw [read.1, equal], behind⟩

theorem isQuote_quoteFor (text : String) : isQuote (quoteFor text) := by
  unfold quoteFor
  split
  · exact .inr rfl
  · exact .inl rfl

theorem toList_quoted (text : String) : (quoted text).toList =
    quoteFor text :: (insideQuotes (quoteFor text) text.toList ++ [quoteFor text]) := by
  simp [quoted, insideQuotes, flatMap_map]

theorem quoted_append_inj {first second : String}
    (same : (quoted first).toList ++ rest = (quoted second).toList ++ rest') :
    first = second ∧ rest = rest' := by
  rw [toList_quoted, toList_quoted, cons_append, cons_append, append_assoc,
    append_assoc, List.cons.injEq] at same
  obtain ⟨quotes, inside⟩ := same
  rw [quotes] at inside
  obtain ⟨texts, behind⟩ := insideQuotes_append_inj (isQuote_quoteFor second) inside
  exact ⟨String.toList_inj.mp texts, behind⟩

end FieldGraph.Text
