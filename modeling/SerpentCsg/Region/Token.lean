import SerpentCsg.Region.Basic
import SerpentCsg.Text.Scan
import SerpentCsg.Text.Natural

/-! # Tokens of a Region Expression

  A region expression is a sequence of signed numbers and operators, with any layout between them.
  Each token keeps the text from its start to the end of the expression, which is what is reported
  when it cannot be used.

  Reading stops at the first text that is no token. It becomes a last lexeme without a token,
  so that it is reported only if everything before it can be used.
-/

namespace SerpentCsg.Region

open Text

/-- A token of a region expression. -/
inductive Token where
  | number (h : Halfspace)
  | opening
  | closing
  | bar
  | ampersand
  | tilde
  deriving Repr, DecidableEq

/-- A token in its place. -/
structure Lexeme where
  /-- The token, and nothing where the text is no token. -/
  token : Option Token
  /-- The text from the token on. -/
  here : List Char
  deriving Repr, DecidableEq

/-- An unsigned surface number of 32 bits, for a given side. -/
def numberToken (side : Side) (s : List Char) : Option (Token × List Char) :=
  (run isDigit s).bind fun (digits, rest) =>
    (boundedDigits? max32 digits).map fun id => (.number ⟨id, side⟩, rest)

/-- The token at the front of a text. A number without a sign is on the positive side. -/
def token? : Scan Token
  | '(' :: s => some (.opening, s)
  | ')' :: s => some (.closing, s)
  | '|' :: s => some (.bar, s)
  | '&' :: s => some (.ampersand, s)
  | '~' :: s => some (.tilde, s)
  | '-' :: s => numberToken .negative s
  | '+' :: s => numberToken .positive s
  | s => numberToken .positive s

/-- The next token in its place. A text that is no token takes all that is left. -/
def lexeme : Scan Lexeme := fun s =>
  match s.dropWhile isLayout with
  | [] => none
  | here =>
    match token? here with
    | some (token, rest) => some (⟨some token, here⟩, rest)
    | none => some (⟨none, here⟩, [])

/-- The tokens of an expression. -/
def lexemes (s : List Char) : List Lexeme := (many lexeme s).1

end SerpentCsg.Region
