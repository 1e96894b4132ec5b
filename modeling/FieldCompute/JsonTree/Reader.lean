import FieldCompute.JsonTree
import FieldCompute.Size
/-!
# Reading JSON

The grammar of RFC 8259, character by character. Every reader gives the unread rest as well. The
depth of a text is not limited.
-/

namespace FieldCompute.JsonTree

def isBlank (c : Char) : Bool := c = ' ' || c = '\t' || c = '\n' || c = '\r'

/-! ## Texts -/

/-- One written character of a text: itself, or an escaped UTF-16 unit. -/
inductive Piece where
  | plain (c : Char)
  | unit (n : Nat)
deriving DecidableEq, Repr

def hexDigit? (c : Char) : Option Nat :=
  if c.isDigit then some (c.toNat - '0'.toNat)
  else if 'a' ≤ c ∧ c ≤ 'f' then some (c.toNat - 'a'.toNat + 10)
  else if 'A' ≤ c ∧ c ≤ 'F' then some (c.toNat - 'A'.toNat + 10)
  else none

/-- The number that hexadecimal digits stand for. -/
def hexNumber? (digits : List Char) : Option Nat :=
  digits.foldlM (fun n c => (hexDigit? c).map (16 * n + ·)) 0

/-- What a backslash and one character stand for. -/
def escaped? : Char → Option Char
  | '"' => some '"'
  | '\\' => some '\\'
  | '/' => some '/'
  | 'b' => some '\x08'
  | 'f' => some '\x0c'
  | 'n' => some '\n'
  | 'r' => some '\r'
  | 't' => some '\t'
  | _ => none

/-- The pieces of a text up to its closing quote. Control characters must be escaped. -/
def readPieces : List Char → Option (List Piece × List Char)
  | [] => none
  | '"' :: rest => some ([], rest)
  | '\\' :: 'u' :: a :: b :: c :: d :: rest => do
    let n ← hexNumber? [a, b, c, d]
    let (pieces, rest) ← readPieces rest
    return (.unit n :: pieces, rest)
  | '\\' :: e :: rest => do
    let c ← escaped? e
    let (pieces, rest) ← readPieces rest
    return (.plain c :: pieces, rest)
  | c :: rest => do
    if c.toNat < 0x20 ∨ c = '\\' then none
    let (pieces, rest) ← readPieces rest
    return (.plain c :: pieces, rest)

def isLeading (n : Nat) : Bool := 0xd800 ≤ n && n < 0xdc00

def isTrailing (n : Nat) : Bool := 0xdc00 ≤ n && n < 0xe000

/-- The characters that pieces make up. A surrogate counts only as the half of a pair. -/
def characters? : List Piece → Option (List Char)
  | [] => some []
  | .plain c :: rest => (characters? rest).map (c :: ·)
  | .unit n :: rest =>
    if isLeading n then
      match rest with
      | .unit m :: rest =>
        if isTrailing m then
          (characters? rest).map (Char.ofNat (0x10000 + (n - 0xd800) * 0x400 + (m - 0xdc00)) :: ·)
        else none
      | _ => none
    else if isTrailing n then none
    else (characters? rest).map (Char.ofNat n :: ·)

/-- A text, behind its opening quote. -/
def readText (cs : List Char) : Option (Option String × List Char) := do
  let (pieces, rest) ← readPieces cs
  return ((characters? pieces).map String.ofList, rest)

/-! ## Numbers -/

/-- One digit or more, if the first character is `mark`; says whether it is. -/
def readPart (isMark : Char → Bool) (signed : Bool) (cs : List Char) : Option (Bool × List Char) :=
  match cs with
  | [] => some (false, [])
  | c :: rest =>
    if isMark c then
      let digits :=
        match rest with
        | s :: more => if signed && (s = '+' || s = '-') then more else rest
        | [] => []
      if (digits.takeWhile Char.isDigit).isEmpty then none
      else some (true, digits.dropWhile Char.isDigit)
    else some (false, cs)

/-- A number: sign, digits without leading zeros, fraction, exponent. -/
def readNumber (cs : List Char) : Option (Option Nat × List Char) := do
  let negative := cs.head? = some '-'
  let cs := if negative then cs.tail else cs
  let digits := cs.takeWhile Char.isDigit
  if digits.isEmpty ∨ (digits.head? = some '0' ∧ digits.length ≠ 1) then none
  let (fraction, rest) ← readPart (· = '.') false (cs.dropWhile Char.isDigit)
  let (exponent, rest) ← readPart (fun c => c = 'e' || c = 'E') true rest
  if negative ∨ fraction ∨ exponent then return (none, rest)
  return ((String.ofList digits).toNat?.bind Size.fit?, rest)

/-! ## Trees -/

mutual

/-- One value. The fuel bounds the number of values, items and members begun. -/
def readValue : Nat → List Char → Option (JsonTree × List Char)
  | 0, _ => none
  | fuel + 1, cs =>
    match cs.dropWhile isBlank with
    | 'n' :: 'u' :: 'l' :: 'l' :: rest => some (.null, rest)
    | 't' :: 'r' :: 'u' :: 'e' :: rest => some (.bool true, rest)
    | 'f' :: 'a' :: 'l' :: 's' :: 'e' :: rest => some (.bool false, rest)
    | '"' :: rest => (readText rest).map fun (s, rest) => (.string s, rest)
    | '[' :: rest =>
      match rest.dropWhile isBlank with
      | ']' :: rest => some (.array [], rest)
      | rest => (readItems fuel rest).map fun (items, rest) => (.array items, rest)
    | '\x7b' :: rest =>
      match rest.dropWhile isBlank with
      | '\x7d' :: rest => some (.object [], rest)
      | rest => (readMembers fuel rest).map fun (members, rest) => (.object members, rest)
    | rest => (readNumber rest).map fun (n, rest) => (.number n, rest)

/-- One item or more, up to the closing bracket. -/
def readItems : Nat → List Char → Option (List JsonTree × List Char)
  | 0, _ => none
  | fuel + 1, cs => do
    let (item, rest) ← readValue fuel cs
    match rest.dropWhile isBlank with
    | ',' :: rest =>
      let (items, rest) ← readItems fuel rest
      return (item :: items, rest)
    | ']' :: rest => return ([item], rest)
    | _ => none

/-- One member or more, up to the closing brace. -/
def readMembers : Nat → List Char → Option (List (Option String × JsonTree) × List Char)
  | 0, _ => none
  | fuel + 1, cs => do
    match cs.dropWhile isBlank with
    | '"' :: rest =>
      let (key, rest) ← readText rest
      match rest.dropWhile isBlank with
      | ':' :: rest =>
        let (value, rest) ← readValue fuel rest
        match rest.dropWhile isBlank with
        | ',' :: rest =>
          let (members, rest) ← readMembers fuel rest
          return ((key, value) :: members, rest)
        | '\x7d' :: rest => return ([(key, value)], rest)
        | _ => none
      | _ => none
    | _ => none

end

/-- The tree that a text is, from its first to its last character. -/
def parse? (text : String) : Option JsonTree := do
  let cs := text.toList
  let (t, rest) ← readValue (2 * cs.length + 1) cs
  if (rest.dropWhile isBlank).isEmpty then return t else none

end FieldCompute.JsonTree
