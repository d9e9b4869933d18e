import SerpentCsg.Geometry.Basic
import SerpentCsg.Output.Json
import SerpentCsg.Scalar.Binary64

/-! # Structured Dumps

  A geometry, or a part of one, as a structured value with every field under its name. Tables
  become objects in their own order.
-/

namespace SerpentCsg.Output

open Json

/-! ### Numbers and vectors -/

/-- A floating point number. -/
def dumpFloat (x : Float) : Json := number (Decimal.Style.json.floatText x)

/-- A list of floating point numbers. -/
def dumpFloats (xs : List Float) : Json := array (xs.map dumpFloat)

/-- A matrix as a list of rows. -/
def dumpMatrix (m : Mat3 Float) : Json :=
  array [dumpFloats m.first.toList, dumpFloats m.second.toList, dumpFloats m.third.toList]

/-! ### Surfaces and regions -/

/-- Names of the coordinates across an axis. -/
def acrossNames : Axis → List String
  | .x => ["y0", "z0"]
  | .y => ["x0", "z0"]
  | .z => ["x0", "y0"]

/-- Name of the coordinate along an axis. -/
def alongName : Axis → String
  | .x => "x0"
  | .y => "y0"
  | .z => "z0"

/-- Names of the coordinates of a point. -/
def pointNames : List String := ["x0", "y0", "z0"]

/-- What a kind of surface was made from, by name. -/
def kindMembers : SurfaceKind Float → List (String × Json)
  | .axisPlane axis offset => [(alongName axis, dumpFloat offset)]
  | .cylinder p q radius =>
    [("p1", dumpFloats p.toList), ("p2", dumpFloats q.toList), ("r", dumpFloat radius)]
  | .quadric q => [("coeffs", dumpFloats q.toList)]
  | .plane n offset => named ["a", "b", "c", "d"] (SurfaceKind.plane n offset)
  | .axisCylinder axis centre radius =>
    named (acrossNames axis ++ ["r"]) (.axisCylinder axis centre radius)
  | .sphere centre radius => named (pointNames ++ ["r"]) (.sphere centre radius)
  | .cone axis apex slope => named (pointNames ++ ["r2"]) (.cone axis apex slope)
  | .torus axis centre a b c => named (pointNames ++ ["a", "b", "c"]) (.torus axis centre a b c)
where
  /-- The coefficients of a kind under given names. -/
  named (names : List String) (kind : SurfaceKind Float) : List (String × Json) :=
    names.zip (kind.coefficients.map dumpFloat)

/-- A surface. -/
def dumpSurface (s : Surface Float) : Json :=
  object
    [("id", nat s.id),
     ("name", string s.name),
     ("kind", object (("type", string s.kind.label) :: kindMembers s.kind)),
     ("boundary", string s.boundary.word)]

/-- Word for a side. -/
def sideWord : Side → String
  | .negative => "Negative"
  | .positive => "Positive"

/-- A region as a tree. -/
def dumpRegion : Region → Json
  | .halfspace h =>
    object [("Halfspace",
      object [("surface", nat h.surface), ("side", string (sideWord h.side))])]
  | .intersection parts => object [("Intersection", array (parts.map fun part => dumpRegion part))]
  | .union parts => object [("Union", array (parts.map fun part => dumpRegion part))]
  | .complement part => object [("Complement", dumpRegion part)]

/-! ### Cells, lattices and universes -/

/-- What is in a cell. -/
def dumpFill : Fill → Json
  | .material name => object [("type", string "Material"), ("name", string name)]
  | .void => object [("type", string "Void")]
  | .universe name => object [("type", string "Universe"), ("name", string name)]
  | .outside => object [("type", string "Outside")]

/-- A cell. -/
def dumpCell (c : Cell Float) : Json :=
  object
    [("id", nat c.id),
     ("name", string c.name),
     ("universe", string c.parent),
     ("fill", dumpFill c.fill),
     ("region", optional dumpRegion c.region),
     ("translation", optional (fun t => dumpFloats t.toList) c.shift),
     ("rotation", optional dumpMatrix c.rotation)]

/-- Word for a kind of lattice. -/
def latticeWord : LatticeKind → String
  | .square => "Square"
  | .squareInfinite => "SquareInfinite"
  | .cuboidal => "Cuboidal"

/-- A list of names. -/
def dumpNames (names : List String) : Json := array (names.map string)

/-- A lattice. -/
def dumpLattice (l : Lattice Float) : Json :=
  object
    [("kind", string (latticeWord l.kind)),
     ("center", dumpFloats l.centre.toList),
     ("origin", dumpFloats l.halfExtent.toList),
     ("pitch", dumpFloats l.pitch.toList),
     ("dimension", array [nat l.columns, nat l.rows]),
     ("universes", array (l.universes.map dumpNames))]

/-- A universe. -/
def dumpUniverse (u : Universe Float) : Json :=
  object
    [("id", nat u.id),
     ("name", string u.name),
     ("cells", dumpNames u.cells),
     ("lattice", optional dumpLattice u.lattice)]

/-- A material. -/
def dumpMaterial (m : Material) : Json := object [("id", nat m.id), ("name", string m.name)]

/-- A table, given the text of its keys. -/
def dumpTable {κ α : Type} (key : κ → String) (value : α → Json) (t : Table κ α) : Json :=
  object (t.entries.map fun (k, a) => (key k, value a))

/-! ### Whole geometries -/

/-- A geometry. -/
def dumpGeometry (g : Geometry Float) : Json :=
  object
    [("root", string g.root),
     ("surfaces", dumpTable Nat.repr dumpSurface g.surfaces),
     ("cells", dumpTable id dumpCell g.cells),
     ("universes", dumpTable id dumpUniverse g.universes),
     ("materials", object [("materials", dumpTable id dumpMaterial g.materials.table)])]

end SerpentCsg.Output
