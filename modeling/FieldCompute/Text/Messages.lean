import FieldCompute.Text.Characters
/-!
# Text in messages

A list is written in square brackets, its items separated by a comma and a blank. A text is written
in double quotes, as descriptions show it: what would end the text or break the line is escaped, and
what does not show is written as its code point.
-/

namespace FieldCompute.Text

/-! ## Lists -/

/-- The items, separated by a comma and a blank. -/
def commaList (items : List String) : String := ", ".intercalate items

/-- The items in square brackets. -/
def bracketed (items : List String) : String := "[" ++ commaList items ++ "]"

/-- Extents as they stand in messages: `[4, 8]`. -/
def extents (shape : List Nat) : String := bracketed (shape.map toString)

/-! ## Quoted text -/

/-- The code point of a character, in braces. -/
def codePoint (c : Char) : String :=
  "\\u\x7b" ++ String.ofList (Nat.toDigits 16 c.toNat) ++ "\x7d"

/-- A character inside a quoted text. -/
def quotedChar (c : Char) : String :=
  match c with
  | '\x00' => "\\0"
  | '\t' => "\\t"
  | '\n' => "\\n"
  | '\r' => "\\r"
  | '"' => "\\\""
  | '\\' => "\\\\"
  | c => if isUnprintable c then codePoint c else c.toString

def quoted (s : String) : String := "\"" ++ String.join (s.toList.map quotedChar) ++ "\""

end FieldCompute.Text
