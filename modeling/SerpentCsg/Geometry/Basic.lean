import SerpentCsg.Cell
import SerpentCsg.Material

/-! # Geometries

  A complete geometry: all surfaces, cells and universes, the materials that the cells refer to,
  and the name of the universe that everything else hangs off.

  Every reference in it is by name or by number, so a geometry can refer to things that it does not
  have. `Geometry.check` finds the first such reference.
-/

namespace SerpentCsg

/-- A complete geometry. -/
structure Geometry (K : Type) where
  /-- Name of the root universe. -/
  root : String
  /-- Surfaces under their numbers. -/
  surfaces : Table Nat (Surface K)
  /-- Cells under their names. -/
  cells : Table String (Cell K)
  /-- Universes under their names. -/
  universes : Table String (Universe K)
  materials : MaterialLibrary
  deriving Repr

namespace Geometry

variable {K : Type}

/-- The root universe. -/
def rootUniverse? (g : Geometry K) : Option (Universe K) := g.universes.find? g.root

/-- The cells that a material fills. -/
def cellsWithMaterial (g : Geometry K) (material : String) : List (Cell K) :=
  g.cells.values.filter fun cell => cell.fill == .material material

/-! ### References -/

/-- A universe is declared. -/
def checkUniverse (g : Geometry K) (name : String) : Except Fault Unit :=
  if g.universes.contains name then .ok () else .error (.unresolved .universe name)

/-- What fills a cell is declared. -/
def checkFill (g : Geometry K) : Fill → Except Fault Unit
  | .material name =>
    if g.materials.contains name then .ok () else .error (.unresolved .material name)
  | .universe name => g.checkUniverse name
  | .void | .outside => .ok ()

/-- Words for a surface of a cell that has no name of its own. -/
def surfaceOfCell (id : Nat) (cell : String) : String := "id " ++ id.repr ++ " in cell " ++ cell

/-- The surfaces of a cell are declared. -/
def checkRegion (g : Geometry K) (cell : Cell K) : Except Fault Unit :=
  let missing := cell.region.bind fun region =>
    region.surfaces.find? fun id => !g.surfaces.contains id
  match missing with
  | some id => .error (.unresolved .surface (surfaceOfCell id cell.name))
  | none => .ok ()

/-- Everything that a cell refers to is declared. -/
def checkCell (g : Geometry K) (cell : Cell K) : Except Fault Unit := do
  g.checkUniverse cell.parent
  g.checkFill cell.fill
  g.checkRegion cell

/-- Everything that the lattice of a universe refers to is declared. -/
def checkLattice (g : Geometry K) (u : Universe K) : Except Fault Unit :=
  match u.lattice with
  | some lattice => lattice.names.forM g.checkUniverse
  | none => .ok ()

/-- The first reference to something that is not declared, as a fault. -/
def check (g : Geometry K) : Except Fault Unit := do
  g.checkUniverse g.root
  g.cells.values.forM g.checkCell
  g.universes.values.forM g.checkLattice

end Geometry

end SerpentCsg
