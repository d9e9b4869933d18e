import SerpentCsg.Card.Syntax

/-! # Surface Expressions of Cells

  The end of a cell card combines surfaces by name: `:` for unions, `#` for complements,
  juxtaposition for intersections and parentheses for groups. A name without a minus sign means the
  positive side.
-/

namespace SerpentCsg.Card

open Text

/-- A token of a surface expression. -/
inductive CellToken where
  | opening
  | closing
  | union
  | complement
  | surface (negative : Bool) (name : String)
  deriving Repr, DecidableEq

/-- A surface, for a given side. -/
def surfaceToken (negative : Bool) : Scan CellToken := fun s =>
  (name s).map fun (surface, rest) => (.surface negative surface, rest)

/-- The next token, after any gap. -/
def cellToken : Scan CellToken := fun s =>
  match s.dropWhile isGap with
  | '(' :: s => some (.opening, s)
  | ')' :: s => some (.closing, s)
  | ':' :: s => some (.union, s)
  | '#' :: s => some (.complement, s)
  | '-' :: s => surfaceToken true s
  | '+' :: s => surfaceToken false s
  | s => surfaceToken false s

/-- The tokens of a whole expression. -/
def readExpression (s : List Char) : Option (List CellToken) :=
  let (tokens, rest) := many cellToken s
  if onlyGap rest then some tokens else none

end SerpentCsg.Card
