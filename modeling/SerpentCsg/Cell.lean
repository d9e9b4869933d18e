import SerpentCsg.Linear.Matrix
import SerpentCsg.Region.Basic
import SerpentCsg.Lattice

/-! # Cells and Universes

  A cell is a region with a filling. Cells are grouped in universes, and a universe can fill a cell
  in turn, placed there by a rotation followed by a shift. Instead of cells a universe
  can hold a lattice of other universes.
-/

namespace SerpentCsg

/-! ### Cells -/

/-- What is in a cell. -/
inductive Fill where
  /-- A material. -/
  | material (name : String)
  /-- Nothing. -/
  | void
  /-- Another universe. -/
  | universe (name : String)
  /-- The world outside the geometry. -/
  | outside
  deriving Repr, DecidableEq

/-- A region with what fills it. -/
structure Cell (K : Type) where
  /-- Number of the cell. -/
  id : Nat
  name : String
  /-- The universe that the cell belongs to. -/
  parent : String
  fill : Fill
  /-- Where the cell is; all of space if absent. -/
  region : Option Region
  /-- Where the origin of the filling universe is placed; the origin if absent. -/
  shift : Option (Vec3 K) := none
  /-- How the filling universe is turned; not at all if absent. -/
  rotation : Option (Mat3 K) := none
  deriving Repr

namespace Cell

variable {K : Type} [Scalar K]

/-- The shift, zero if absent. -/
def offset (c : Cell K) : Vec3 K := c.shift.getD .zero

/-- The rotation, the identity if absent. -/
def turn (c : Cell K) : Mat3 K := c.rotation.getD .identity

/-- The cell with its filling moved by `t`. -/
def fillShifted (c : Cell K) (t : Vec3 K) : Cell K := { c with shift := some (c.offset + t) }

/-- The cell with its filling turned about the origin. -/
def fillRotated (c : Cell K) (r : Mat3 K) : Cell K :=
  { c with
    rotation := some (r * c.turn)
    shift := c.shift.map r.apply }

/-- A point in the coordinates of the filling. -/
def toLocal (c : Cell K) (p : Vec3 K) : Vec3 K := c.turn.transpose.apply (p - c.offset)

/-- The rotation that takes a point into the coordinates of the filling, where there is one. -/
def inwardRotation (c : Cell K) : Option (Mat3 K) := c.rotation.map (·.transpose)

/-- The region of the cell contains a point. -/
def contains (c : Cell K) (surfaces : Table Nat (Surface K)) (p : Vec3 K) : Bool :=
  match c.region with
  | some region => region.contains surfaces p
  | none => true

end Cell

/-! ### Universes -/

/-- A named group of cells, or a lattice. -/
structure Universe (K : Type) where
  /-- Number of the universe. -/
  id : Nat
  name : String
  /-- Names of its cells, in the order of their declaration. -/
  cells : List String := []
  /-- The lattice it holds. -/
  lattice : Option (Lattice K) := none
  deriving Repr

/-- Nothing has been declared in the universe. -/
def Universe.isPlaceholder {K : Type} (u : Universe K) : Bool :=
  u.cells.isEmpty && u.lattice.isNone

end SerpentCsg
