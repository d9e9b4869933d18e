/-! # JSON

  Structured values and the two ways of writing them: on one line, and indented by two spaces with
  one member a line.
-/

namespace SerpentCsg.Output

/-- A structured value. Numbers are held as they are written, members keep their order. -/
inductive Json where
  | null
  | number (text : String)
  | string (text : String)
  | array (items : List Json)
  | object (members : List (String × Json))
  deriving Repr

namespace Json

/-- A natural number. -/
def nat (n : Nat) : Json := number n.repr

/-- A value that may be absent. -/
def optional {α : Type} (write : α → Json) : Option α → Json
  | some a => write a
  | none => null

/-! ### Strings -/

/-- Two lower case hexadecimal digits of a small number. -/
def hexPair (n : Nat) : List Char := [Nat.digitChar (n / 16), Nat.digitChar (n % 16)]

/-- A character within quotes. Quotes, backslashes and control characters are escaped. -/
def escapeChar (c : Char) : List Char :=
  if c == '"' then ['\\', '"']
  else if c == '\\' then ['\\', '\\']
  else if c == '\n' then ['\\', 'n']
  else if c == '\r' then ['\\', 'r']
  else if c == '\t' then ['\\', 't']
  else if c.toNat == 8 then ['\\', 'b']
  else if c.toNat == 12 then ['\\', 'f']
  else if c.toNat < 32 then ['\\', 'u', '0', '0'] ++ hexPair c.toNat
  else [c]

/-- A text in quotes. -/
def quoted (text : String) : String :=
  "\"" ++ String.ofList (text.toList.flatMap escapeChar) ++ "\""

/-! ### On one line -/

mutual

/-- The value without any spaces. -/
def compact : Json → String
  | null => "null"
  | number text => text
  | string text => quoted text
  | array items => "[" ++ ",".intercalate (compactItems items) ++ "]"
  | object members => "\x7b" ++ ",".intercalate (compactMembers members) ++ "\x7d"

/-- Each item without any spaces. -/
def compactItems : List Json → List String
  | [] => []
  | item :: rest => item.compact :: compactItems rest

/-- Each member without any spaces. -/
def compactMembers : List (String × Json) → List String
  | [] => []
  | (key, value) :: rest => (quoted key ++ ":" ++ value.compact) :: compactMembers rest

end

/-! ### One member a line -/

/-- Indentation of a level of nesting. -/
def indent (level : Nat) : String := String.ofList (List.replicate (2 * level) ' ')

/-- Lines between two brackets, which stand together if there are none. -/
def block (level : Nat) (opening closing : String) : List String → String
  | [] => opening ++ closing
  | lines =>
    let inner := ",\n".intercalate (lines.map fun line => indent (level + 1) ++ line)
    opening ++ "\n" ++ inner ++ "\n" ++ indent level ++ closing

mutual

/-- The value at a level of nesting, over several lines. -/
def prettyAt (level : Nat) : Json → String
  | null => "null"
  | number text => text
  | string text => quoted text
  | array items => block level "[" "]" (prettyItems (level + 1) items)
  | object members => block level "\x7b" "\x7d" (prettyMembers (level + 1) members)

/-- Each item at a level of nesting. -/
def prettyItems (level : Nat) : List Json → List String
  | [] => []
  | item :: rest => item.prettyAt level :: prettyItems level rest

/-- Each member at a level of nesting. -/
def prettyMembers (level : Nat) : List (String × Json) → List String
  | [] => []
  | (key, value) :: rest =>
    (quoted key ++ ": " ++ value.prettyAt level) :: prettyMembers level rest

end

/-- The value over several lines. -/
def pretty (value : Json) : String := value.prettyAt 0

end Json

end SerpentCsg.Output
