import FieldGraph.Text.Ranges

/-! # Blanks

The characters that separate words. White space is what remains of them without the controls that
separate records.
-/

namespace FieldGraph.Text

def blanks : Ranges :=
  [(0x9, 0xD), (0x1C, 0x20),
    (0x85, 0x85), (0xA0, 0xA0), (0x1680, 0x1680), (0x2000, 0x200A), (0x2028, 0x2029),
    (0x202F, 0x202F), (0x205F, 0x205F), (0x3000, 0x3000)
  ]

def isBlank (c : Char) : Bool := blanks.holds c.toNat

/-- Whether a character is white space: a blank other than the four ASCII controls that
separate records. -/
def isSpace (c : Char) : Bool := isBlank c && !(0x1C ≤ c.toNat && c.toNat ≤ 0x1F)

/-- Everything the core library counts as whitespace is blank. -/
theorem isBlank_of_isWhitespace {c : Char} (white : c.isWhitespace = true) :
    isBlank c = true := by
  simp only [Char.isWhitespace, Bool.or_eq_true, decide_eq_true_eq] at white
  rcases white with ((white | white) | white) | white <;> subst white <;> decide

end FieldGraph.Text
