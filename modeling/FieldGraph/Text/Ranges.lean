/-! # Sets of characters given by ranges

A class of characters beyond the ASCII range is a list of closed ranges of code
points in ascending order. Long lists are written as run lengths, in a text.
-/

namespace FieldGraph.Text

/-- Closed ranges of code points, ascending. -/
abbrev Ranges := List (Nat × Nat)

namespace Ranges

def holds (ranges : Ranges) (code : Nat) : Bool :=
  ranges.any fun range => range.1 ≤ code && code ≤ range.2

/-- The ranges from a code point on, by how many code points are left out before each
range and how many it has. -/
def ofRuns (start : Nat) : List Nat → Ranges
  | gap :: count :: rest =>
    (start + gap, start + gap + count - 1) :: ofRuns (start + gap + count) rest
  | _ => []

/-- The numbers in a text: a letter is a number below 26, and digits are a number that ends
at a letter or a point. -/
def numbers : List Char → Option Nat → List Nat
  | [], begun => begun.toList
  | c :: rest, begun =>
    if c.isDigit then numbers rest (some (10 * begun.getD 0 + (c.toNat - '0'.toNat)))
    else if c.isLower then begun.toList ++ (c.toNat - 'a'.toNat) :: numbers rest none
    else begun.toList ++ numbers rest none

def ofText (start : Nat) (runs : String) : Ranges := ofRuns start (numbers runs.toList none)

end Ranges

/-- Whether a character is outside the ASCII range. -/
def beyondAscii (c : Char) : Bool := 128 ≤ c.toNat

end FieldGraph.Text
