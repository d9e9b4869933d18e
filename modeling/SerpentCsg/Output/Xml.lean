import SerpentCsg.Geometry.Basic

/-! # The Geometry Document

  A geometry as the elements that OpenMC reads: first its cells, then its lattices, then its
  surfaces. Universes and lattices share one range of numbers, and everything refers to them by
  number. A name that is not declared is written as the number zero.

  OpenMC takes a point `x` of a cell into the filling universe by `M (x - t)`, so the rotation that
  is written undoes the one that the universe was placed with.
-/

namespace SerpentCsg.Output

variable {K : Type}

/-! ### Elements -/

/-- A character of an attribute value. -/
def escapeChar (c : Char) : List Char :=
  if c == '&' then "&amp;".toList
  else if c == '<' then "&lt;".toList
  else if c == '>' then "&gt;".toList
  else if c == '"' then "&quot;".toList
  else [c]

/-- A text as an attribute value, with the four reserved characters as entities. -/
def escape (text : List Char) : List Char := text.flatMap escapeChar

/-- A name as an attribute value. -/
def nameText (name : String) : String := String.ofList (escape name.toList)

/-- A key with its value. -/
def attributeText (entry : String × String) : String := entry.1 ++ "=\"" ++ entry.2 ++ "\""

/-- Attributes with one space between them. -/
def attributesText (attributes : List (String × String)) : String :=
  " ".intercalate (attributes.map attributeText)

/-! ### Cells -/

/-- Number of a universe, zero if it is not declared. -/
def universeNumber (g : Geometry K) (name : String) : Nat :=
  match g.universes.find? name with
  | some u => u.id
  | none => 0

/-- Number of a material, zero if it is not declared. -/
def materialNumber (g : Geometry K) (name : String) : Nat :=
  match g.materials.find? name with
  | some m => m.id
  | none => 0

/-- What is in a cell. -/
def fillAttribute (g : Geometry K) : Fill → String × String
  | .material name => ("material", (materialNumber g name).repr)
  | .void | .outside => ("material", "void")
  | .universe name => ("fill", (universeNumber g name).repr)

variable [Scalar K]

/-- Everything that is written about a cell. -/
def cellAttributes (g : Geometry K) (c : Cell K) : List (String × String) :=
  let region := c.region.map fun region => ("region", region.unsignedText)
  let shift := c.shift.map fun t => ("translation", Scalar.listText t.toList)
  let rotation := c.inwardRotation.map fun m => ("rotation", Scalar.listText m.toList)
  [("id", c.id.repr),
   ("name", nameText c.name),
   ("universe", (universeNumber g c.parent).repr),
   fillAttribute g c.fill] ++ region.toList ++ shift.toList ++ rotation.toList

/-- The element of a cell. -/
def cellElement (g : Geometry K) (c : Cell K) : String :=
  "  <cell " ++ attributesText (cellAttributes g c) ++ " />\n"

/-! ### Lattices -/

/-- Numbers of the universes of a lattice, the top row first. -/
def latticeNumbers (g : Geometry K) (l : Lattice K) : List (List Nat) :=
  l.universes.reverse.map fun row => row.map (universeNumber g)

/-- A row of numbers with one space between them. -/
def rowText (row : List Nat) : String := " ".intercalate (row.map Nat.repr)

/-- An element that holds a text. -/
def textElement (tag text : String) : String :=
  "    <" ++ tag ++ ">" ++ text ++ "</" ++ tag ++ ">\n"

/-- The element of a lattice, which has the number and name of the universe that holds it. -/
def latticeElement (g : Geometry K) (u : Universe K) (l : Lattice K) : String :=
  let rows := "\n".intercalate ((latticeNumbers g l).map rowText)
  "  <lattice " ++ attributesText [("id", u.id.repr), ("name", nameText u.name)] ++ ">\n" ++
    textElement "pitch" (Scalar.listText l.pitch.toList) ++
    textElement "dimension" (rowText [l.columns, l.rows]) ++
    textElement "lower_left" (Scalar.listText l.lowerLeft.toList) ++
    "    <universes>\n" ++ rows ++ "\n    </universes>\n" ++
    "  </lattice>\n"

/-- The element of the lattice that a universe holds. -/
def universeElement (g : Geometry K) (u : Universe K) : String :=
  match u.lattice with
  | some l => latticeElement g u l
  | none => ""

/-! ### Surfaces -/

/-- Everything that is written about a surface. -/
def surfaceAttributes (s : Surface K) : List (String × String) :=
  let boundary := if s.boundary = .transmission then [] else [("boundary", s.boundary.word)]
  [("id", s.id.repr),
   ("name", nameText s.name),
   ("type", s.kind.openmcType),
   ("coeffs", Scalar.listText s.kind.openmcCoefficients)] ++ boundary

/-- The element of a surface. -/
def surfaceElement (s : Surface K) : String :=
  "  <surface " ++ attributesText (surfaceAttributes s) ++ " />\n"

/-! ### The document -/

/-- The whole document. -/
def geometryDocument (g : Geometry K) : String :=
  "<?xml version='1.0' encoding='utf-8'?>\n<geometry>\n" ++
    String.join (g.cells.values.map (cellElement g)) ++
    String.join (g.universes.values.map (universeElement g)) ++
    String.join (g.surfaces.values.map surfaceElement) ++
    "</geometry>\n"

/-- Warnings about what the document cannot say: an infinite lattice is written with its finite
    extent. -/
def documentWarnings (g : Geometry K) : List String :=
  g.universes.values.filterMap fun u =>
    u.lattice.bind fun l =>
      if l.kind = .squareInfinite then
        some ("Lattice " ++ u.name ++ " is infinite, written with its finite extent")
      else none

end SerpentCsg.Output
