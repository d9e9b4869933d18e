import SerpentCsg.Region.Token
import SerpentCsg.Text.Blank

/-! # Reading Region Expressions

      union        = intersection ('|' intersection)*
      intersection = operand ('&'? operand)*
      operand      = '~' operand | number | '(' union ')'

  Unions and intersections are made only of two or more parts, and parentheses leave no trace.

  A failure is reported by the text from which nothing could be read. A repetition ends before the
  first part that fails, so it is the place after the repetition that is reported. Only the
  first operand of a group passes its failure on, and a complement reports its own place.
-/

namespace SerpentCsg.Region

open Text

/-- What is read from some lexemes: a region and the lexemes left, or the text at which reading
    failed. -/
abbrev Reading := Except (List Char) (Region × List Lexeme)

/-- The text from the next lexeme on. -/
def place : List Lexeme → List Char
  | [] => []
  | lexeme :: _ => lexeme.here

/-- What is left after a token, if that is the next one. -/
def skip? (token : Token) : List Lexeme → Option (List Lexeme)
  | [] => none
  | lexeme :: rest => if lexeme.token = some token then some rest else none

/-! ### The grammar, over a reader of operands -/

/-- A further operand of an intersection. -/
def furtherOperand (operand : List Lexeme → Reading) (ls : List Lexeme) :
    Option (Region × List Lexeme) :=
  (operand ((skip? .ampersand ls).getD ls)).toOption

/-- Operands side by side. -/
def readIntersection (operand : List Lexeme → Reading) (ls : List Lexeme) : Reading :=
  match operand ls with
  | .error e => .error e
  | .ok (first, rest) =>
    match many (furtherOperand operand) rest with
    | ([], rest) => .ok (first, rest)
    | (others, rest) => .ok (.intersection (first :: others), rest)

/-- A further intersection of a union. -/
def furtherIntersection (operand : List Lexeme → Reading) (ls : List Lexeme) :
    Option (Region × List Lexeme) :=
  (skip? .bar ls).bind fun rest => (readIntersection operand rest).toOption

/-- Intersections between bars. -/
def readUnion (operand : List Lexeme → Reading) (ls : List Lexeme) : Reading :=
  match readIntersection operand ls with
  | .error e => .error e
  | .ok (first, rest) =>
    match many (furtherIntersection operand) rest with
    | ([], rest) => .ok (first, rest)
    | (others, rest) => .ok (.union (first :: others), rest)

/-- An operand in which complements and groups are nested at most `depth` deep. -/
def readOperand : Nat → List Lexeme → Reading
  | 0, ls => .error (place ls)
  | depth + 1, ls =>
    match ls with
    | ⟨some (.number h), _⟩ :: rest => .ok (.halfspace h, rest)
    | ⟨some .tilde, here⟩ :: rest =>
      match readOperand depth rest with
      | .ok (part, rest) => .ok (.complement part, rest)
      | .error _ => .error here
    | ⟨some .opening, _⟩ :: rest =>
      match readUnion (readOperand depth) rest with
      | .error e => .error e
      | .ok (region, rest) =>
        match skip? .closing rest with
        | some rest => .ok (region, rest)
        | none => .error (place rest)
    | _ => .error (place ls)

/-! ### Whole expressions -/

/-- The region of a whole expression, or the text at which reading failed. Nesting is never deeper
    than the number of tokens. -/
def read (s : List Char) : Except (List Char) Region :=
  let ls := lexemes s
  match readUnion (readOperand ls.length) ls with
  | .error e => .error e
  | .ok (region, []) => .ok region
  | .ok (_, rest) => .error (place rest)

/-- The region of an expression. -/
def ofExpression (expression : String) : Except Fault Region :=
  match read expression.toList with
  | .ok region => .ok region
  | .error rest => .error (.unreadableRegion expression (String.ofList (trim rest)))

end SerpentCsg.Region
