import SerpentCsg.Scalar
import SerpentCsg.Text.Scan

/-! # The Form of Cards

  A card is one line of a geometry file, without its comment. It starts with a keyword, and its
  parts are separated by gaps. The readers here take a card apart; what its values mean is
  settled elsewhere. A reader returns what it read with the text that is left, which is
  nothing for the cards that must end where their values end.
-/

namespace SerpentCsg.Card

open Text

/-! ### Lines -/

/-- A line without its comment, which starts at the first percent sign, and trimmed. -/
def withoutComment (line : List Char) : List Char := trim (line.takeWhile (· != '%'))

/-- Characters of names: letters, digits, underscores and points. -/
def isNameChar (c : Char) : Bool := isLetter c || isDigit c || c == '_' || c == '.'

/-- A name. -/
def name : Scan String := fun s =>
  (run isNameChar s).map fun (chosen, rest) => (String.ofList chosen, rest)

/-- Everything up to the first white space, possibly nothing. -/
def firstWord (s : List Char) : String × List Char :=
  (String.ofList (s.takeWhile (!isWhite ·)), s.dropWhile (!isWhite ·))

/-- A gap with a word after it. -/
def nextWord : Scan String := fun s => do
  let s ← afterGap s
  let (word, rest) ← run (!isWhite ·) s
  return (String.ofList word, rest)

/-- The text, if nothing but a gap is left of it. -/
def ending (s : List Char) : Option Unit := if onlyGap s then some () else none

/-! ### Beginnings of cards -/

/-- The beginning of a surface card: two names after the keyword. -/
def startsSurface (s : List Char) : Bool :=
  (do
    let s ← afterKeyword "surf" s
    let (_, s) ← name s
    let s ← afterGap s
    name s).isSome

/-- The beginning of a cell card. -/
def startsCell (s : List Char) : Bool := (afterKeyword "cell" s).isSome

/-- The beginning of a lattice card. -/
def startsLattice (s : List Char) : Bool := (afterKeyword "lat" s).isSome

/-- The beginning of a motion card. -/
def startsMotion (s : List Char) : Bool := (afterKeyword "trans" s).isSome

/-- The beginning of a setting with a given name. -/
def startsSetting (setting : String) (s : List Char) : Bool :=
  ((afterKeyword "set" s).bind (afterKeyword setting)).isSome

/-- The beginning of a card of boundary conditions. -/
def startsBoundaries (s : List Char) : Bool := startsSetting "bc" s

/-- The beginning of a card that names the root universe. -/
def startsRoot (s : List Char) : Bool := startsSetting "root" s

/-! ### Surfaces and motions -/

/-- A card that declares a surface. -/
structure SurfaceCard (K : Type) where
  name : String
  /-- Word for the type of the surface. -/
  type : String
  params : List K
  deriving Repr

/-- A card that moves something. -/
structure MotionCard (K : Type) where
  /-- Letter for what is moved. -/
  target : Char
  name : String
  args : List K
  deriving Repr

section Numbers

variable {K : Type} [Scalar K]

/-- A gap with a number after it. -/
def nextNumber : Scan K := fun s => do
  let s ← afterGap s
  let (numeral, rest) ← Numeral.scan s
  return (Scalar.ofNumeral numeral, rest)

/-- Numbers up to the end of the card. -/
def numbers (s : List Char) : Option (List K) :=
  let (values, rest) := many nextNumber s
  if onlyGap rest then some values else none

/-- A whole surface card. -/
def readSurface (s : List Char) : Option (SurfaceCard K) := do
  let s ← afterKeyword "surf" s
  let (name, s) ← name s
  let s ← afterGap s
  let (type, s) ← run isLetter s
  let params ← numbers s
  return { name, type := String.ofList type, params }

/-- A whole motion card. -/
def readMotion (s : List Char) : Option (MotionCard K) := do
  let s ← afterKeyword "trans" s
  let (target, s) ← letter s
  let s ← afterGap s
  let (name, s) ← name s
  let args ← numbers s
  return { target, name, args }
where
  /-- A single letter. -/
  letter : Scan Char
    | c :: s => if isLetter c then some (c, s) else none
    | [] => none

end Numbers

/-! ### Cells -/

/-- What a cell card asks for in the cell. -/
inductive FillWord where
  | material (name : String)
  | universe (name : String)
  | outside
  deriving Repr, DecidableEq

/-- A card that declares a cell. -/
structure CellCard where
  name : String
  /-- The universe that the cell belongs to. -/
  parent : String
  fill : FillWord
  /-- The surface expression, not yet read. -/
  expression : String
  deriving Repr, DecidableEq

/-- A text that a break follows. -/
def whole {α : Type} : α × List Char → Option (α × List Char)
  | (a, rest) => if atBreak rest then some (a, rest) else none

/-- A filling universe, after its keyword. -/
def fillUniverse : Scan FillWord := fun s =>
  ((afterKeyword "fill" s).bind name).map fun (u, rest) => (.universe u, rest)

/-- The word for the outside. -/
def fillOutside : Scan FillWord := fun s =>
  (afterText "outside".toList s).bind fun rest => whole (.outside, rest)

/-- A material. -/
def fillMaterial : Scan FillWord := fun s =>
  ((name s).bind whole).map fun (m, rest) => (.material m, rest)

/-- What is in the cell. The words `fill` and `outside` are tried first and are names of materials
    where they do not fit. -/
def fillWord : Scan FillWord := fun s =>
  (fillUniverse s).or ((fillOutside s).or (fillMaterial s))

/-- A whole cell card. -/
def readCell (s : List Char) : Option CellCard := do
  let s ← afterKeyword "cell" s
  let (name, s) ← Card.name s
  let s ← afterGap s
  let (parent, s) ← Card.name s
  let s ← afterGap s
  let (fill, s) ← fillWord s
  return { name, parent, fill, expression := String.ofList (trim s) }

/-! ### Lattices -/

/-- A card that declares a lattice. -/
structure LatticeCard where
  name : String
  /-- Number of the type of lattice. -/
  type : Nat
  /-- All further words. -/
  args : List String
  deriving Repr, DecidableEq

/-- A whole lattice card. -/
def readLattice (s : List Char) : Option LatticeCard := do
  let s ← afterKeyword "lat" s
  let (name, s) ← Card.name s
  let s ← afterGap s
  let (digits, s) ← run isDigit s
  let type ← boundedDigits? max8 digits
  let (args, s) := many nextWord s
  ending s
  return { name, type, args }

/-- Keywords that no line of universe names starts with. -/
def keywords : List String :=
  ["cell", "surf", "lat", "set", "trans", "mat", "mix", "include", "pin", "solid", "dtrans",
   "ftrans", "ltrans", "strans", "utrans", "therm", "det", "plot", "mesh", "src", "nest", "div",
   "dep", "ene"]

/-- The line can go on with the universe names of a lattice: names only, the first of which is no
    keyword. -/
def continuesLattice (s : List Char) : Bool :=
  match words s with
  | [] => false
  | first :: rest =>
    !keywords.contains (String.ofList first) && (first :: rest).all (·.all isNameChar)

/-! ### Settings and inclusions -/

/-- The words of a card of boundary conditions. -/
def readBoundaries (s : List Char) : Option (List String) := do
  let s ← afterKeyword "set" s
  let s ← afterText "bc".toList s
  match many nextWord s with
  | ([], _) => none
  | (chosen, s) =>
    ending s
    return chosen

/-- The name on a card that names the root universe. -/
def readRoot (s : List Char) : Option String := do
  let s ← afterKeyword "set" s
  let s ← afterKeyword "root" s
  let (root, s) ← name s
  ending s
  return root

/-- A text between two quotes of a kind. -/
def between (quote : Char) : Scan (List Char)
  | [] => none
  | c :: s =>
    if c != quote then none
    else match s.dropWhile (· != quote) with
      | [] => none
      | _ :: rest => some (s.takeWhile (· != quote), rest)

/-- The path of a card that includes a file: in double quotes, or a single word. -/
def readInclude : Scan String := fun s => do
  let s ← afterKeyword "include" s
  let (path, rest) ← (between '"' s).or (run (!isWhite ·) s)
  return (String.ofList path, rest)

end SerpentCsg.Card
