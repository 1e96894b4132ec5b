import FieldCompute.JsonTree
/-!
# Writing JSON

One item or member a line, indented by two blanks a level; what is empty stays on its line. Only
quotes, backslashes and control characters are escaped.
-/

namespace FieldCompute.JsonTree

def hexPair (n : Nat) : String := String.ofList [Nat.digitChar (n / 16), Nat.digitChar (n % 16)]

/-- A character inside a text. -/
def writtenChar (c : Char) : String :=
  match c with
  | '"' => "\\\""
  | '\\' => "\\\\"
  | '\n' => "\\n"
  | '\r' => "\\r"
  | '\t' => "\\t"
  | '\x08' => "\\b"
  | '\x0c' => "\\f"
  | c => if c.toNat < 0x20 then "\\u00" ++ hexPair c.toNat else c.toString

def writtenText (s : String) : String := "\"" ++ String.join (s.toList.map writtenChar) ++ "\""

/-- Written lines between an opening and a closing bracket, which stands `depth` levels in. -/
def framed (opening closing : String) (depth : Nat) (lines : List String) : String :=
  let indent (n : Nat) := String.join (List.replicate n "  ")
  if lines.isEmpty then opening ++ closing
  else
    opening ++ "\n" ++ ",\n".intercalate (lines.map (indent (depth + 1) ++ ·)) ++ "\n" ++
      indent depth ++ closing

mutual

/-- The text of a tree that stands `depth` levels in. What is not usable as data is `null`. -/
def write (depth : Nat) : JsonTree → String
  | null | number none | string none => "null"
  | bool b => toString b
  | number (some n) => toString n
  | string (some s) => writtenText s
  | array items => framed "[" "]" depth (writeItems (depth + 1) items)
  | object members => framed "\x7b" "\x7d" depth (writeMembers (depth + 1) members)

def writeItems (depth : Nat) : List JsonTree → List String
  | [] => []
  | t :: rest => write depth t :: writeItems depth rest

def writeMembers (depth : Nat) : List (Option String × JsonTree) → List String
  | [] => []
  | (key, t) :: rest =>
    (writtenText (key.getD "") ++ ": " ++ write depth t) :: writeMembers depth rest

end

end FieldCompute.JsonTree
