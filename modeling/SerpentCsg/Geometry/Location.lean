import SerpentCsg.Geometry.Basic

/-! # Locating Points

  The cell that a point lies in is found by walking down from the root universe. A lattice
  leads on to the universe of the element that holds the point, a cell with a filling universe
  leads on to that universe, and any other cell is the answer. On the way the point
  is expressed in the coordinates of each level.
-/

namespace SerpentCsg.Geometry

variable {K : Type} [Scalar K]

/-- How many universes a walk may pass through. Deeper nesting is taken for a cycle. -/
def depthLimit : Nat := 64

/-- The first cell of a universe that contains a point. -/
def memberAt? (g : Geometry K) (u : Universe K) (p : Vec3 K) : Option (Cell K) :=
  (u.cells.filterMap g.cells.find?).find? fun cell => cell.contains g.surfaces p

/-- The universe of the lattice element that holds a point. -/
def elementUniverse? (g : Geometry K) (lattice : Lattice K) (p : Vec3 K) : Option (Universe K) :=
  ((lattice.elementAt? p).bind lattice.universe?).bind g.universes.find?

/-- The walk from a universe down, through at most so many universes. -/
def descend (g : Geometry K) : Nat → Universe K → Vec3 K → Option (Cell K)
  | 0, _, _ => none
  | depth + 1, u, p =>
    match u.lattice with
    | some lattice =>
      (g.elementUniverse? lattice p).bind fun u => g.descend depth u (lattice.toLocal p)
    | none =>
      (g.memberAt? u p).bind fun cell =>
        match cell.fill with
        | .universe name =>
          (g.universes.find? name).bind fun u => g.descend depth u (cell.toLocal p)
        | _ => some cell

/-- The innermost cell that contains a point. -/
def cellAt? (g : Geometry K) (p : Vec3 K) : Option (Cell K) :=
  g.rootUniverse?.bind fun u => g.descend depthLimit u p

end SerpentCsg.Geometry
