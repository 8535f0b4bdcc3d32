import FieldGraph.Text.Printable

/-! # Quoted text

The quoted form of a text, in which every character is visible: single quotes around it, or double
quotes when the text has a single quote and no double one. Backslash and the chosen quote are
escaped, and characters that do not show are written by a letter or by their code.
-/

namespace FieldGraph.Text

/-- The lowercase hexadecimal digits of a code, filled with zeros to a width. -/
def hexadecimal (width code : Nat) : String :=
  let digits := Nat.toDigits 16 code
  String.ofList (List.replicate (width - digits.length) '0' ++ digits)

/-- A character that does not show, by its code. -/
def escapedCode (c : Char) : String :=
  let code := c.toNat
  if code < 0x100 then "\\x" ++ hexadecimal 2 code
  else if code < 0x10000 then "\\u" ++ hexadecimal 4 code
  else "\\U" ++ hexadecimal 8 code

/-- One character inside the given quotes. -/
def quotedChar (quote : Char) (c : Char) : String :=
  if c = quote ∨ c = '\\' then String.ofList ['\\', c]
  else if c = '\n' then "\\n"
  else if c = '\r' then "\\r"
  else if c = '\t' then "\\t"
  else if isPrintable c then c.toString
  else escapedCode c

def quoteFor (text : String) : Char :=
  if text.contains '\x27' && !text.contains '"' then '"' else '\x27'

def quoted (text : String) : String :=
  let quote := quoteFor text
  quote.toString ++ String.join (text.toList.map (quotedChar quote)) ++ quote.toString

end FieldGraph.Text
