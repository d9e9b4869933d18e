import SerpentCsg.Composite
import SerpentCsg.Geometry.Basic
import SerpentCsg.Identifier

/-! # Drafts

  A geometry in the making. Cards are worked into a draft one after another, and names are
  given numbers as they are registered. Universes come into being when they are first
  mentioned, so a draft can hold universes in which nothing has been declared yet.

  A card that fails leaves a draft behind that is changed as far as the card got, which is why
  working in a card gives an `Outcome`: the draft, and the fault if there was one.
-/

namespace SerpentCsg

/-- What a surface name stands for. -/
inductive SurfaceEntry where
  /-- A single surface, by its number. -/
  | primitive (id : Nat)
  /-- Several faces, by their numbers. -/
  | composite (faces : Composite Nat)
  /-- All of space. -/
  | infinite
  deriving Repr, DecidableEq

/-- Numbers of the surfaces that a name stands for. -/
def SurfaceEntry.surfaces : SurfaceEntry → List Nat
  | primitive id => [id]
  | composite faces => faces.faces
  | infinite => []

/-- A geometry in the making. -/
structure Draft (K : Type) where
  /-- What the surface names stand for. -/
  entries : Table String SurfaceEntry := .empty
  /-- Surfaces under their numbers. -/
  surfaces : Table Nat (Surface K) := .empty
  /-- Cells under their names. -/
  cells : Table String (Cell K) := .empty
  /-- Universes under their names. -/
  universes : Table String (Universe K) := .empty
  /-- Materials that cells can refer to. -/
  materials : MaterialLibrary
  /-- Conditions at the boundary of the geometry. -/
  boundaries : List Boundary := [.vacuum]
  /-- Name of the root universe. -/
  root : String := "0"
  /-- Numbers given to cells, also to those that were refused in the end. -/
  cellIds : List Nat := []
  /-- Copies of surfaces that were made for a moved cell, each with the cell that owns it. -/
  owners : Table Nat String := .empty
  deriving Repr

/-- What working in a card leaves behind. -/
structure Outcome (K : Type) where
  /-- The draft, changed as far as the card got. -/
  draft : Draft K
  /-- Why the card could not be worked in to the end. -/
  fault : Option Fault
  deriving Repr

namespace Outcome

variable {K : Type}

/-- Everything was worked in. -/
def done (draft : Draft K) : Outcome K := ⟨draft, none⟩

/-- A fault stopped the work. -/
def stopped (draft : Draft K) (fault : Fault) : Outcome K := ⟨draft, some fault⟩

/-- The work goes on from the draft, unless it was stopped. -/
def andThen (o : Outcome K) (next : Draft K → Outcome K) : Outcome K :=
  match o.fault with
  | some _ => o
  | none => next o.draft

/-- The work of a step that changes nothing if it fails. -/
def ofStep (draft : Draft K) : Except Fault (Draft K) → Outcome K
  | .ok changed => done changed
  | .error fault => stopped draft fault

@[simp] theorem done_andThen (d : Draft K) (next : Draft K → Outcome K) :
    (done d).andThen next = next d := rfl

@[simp] theorem stopped_andThen (d : Draft K) (f : Fault) (next : Draft K → Outcome K) :
    (stopped d f).andThen next = stopped d f := rfl

end Outcome

namespace Draft

variable {K : Type}

/-- The draft in which nothing has been declared. -/
def new (materials : MaterialLibrary) : Draft K := { materials }

/-! ### Surfaces -/

/-- The single surface that a name stands for. -/
def surface? (d : Draft K) (name : String) : Option (Surface K) :=
  match d.entries.find? name with
  | some (.primitive id) => d.surfaces.find? id
  | _ => none

/-- Numbers of the surfaces that a name stands for. -/
def surfacesOf (d : Draft K) (name : String) : List Nat :=
  match d.entries.find? name with
  | some entry => entry.surfaces
  | none => []

/-- The draft with a new surface under the first free number, and that number. -/
def addSurface (d : Draft K) (name : String) (kind : SurfaceKind K) : Draft K × Nat :=
  let id := Identifier.allocate name d.surfaces.keys
  ({ d with surfaces := d.surfaces.insert id { id, name, kind } }, id)

/-- The draft with what a surface name stands for. -/
def addEntry (d : Draft K) (name : String) (entry : SurfaceEntry) : Draft K :=
  { d with entries := d.entries.insert name entry }

/-- The draft with a copy of a surface that one cell owns, and the number of the copy. -/
def copySurface (d : Draft K) (cell : String) (id : Nat) : Option (Draft K × Nat) :=
  (d.surfaces.find? id).map fun surface =>
    let name := surface.name ++ "_" ++ d.surfaces.size.repr
    let copy := Identifier.allocate name d.surfaces.keys
    ({ d with
        surfaces := d.surfaces.insert copy { surface with id := copy, name }
        owners := d.owners.insert copy cell }, copy)

/-- A surface is a copy that a cell owns. -/
def ownsCopy (d : Draft K) (cell : String) (id : Nat) : Bool := d.owners.find? id == some cell

/-! ### Universes and cells -/

/-- Numbers of all universes. -/
def universeIds (d : Draft K) : List Nat := d.universes.values.map (·.id)

/-- The draft with a universe of a given name, empty if it is new. -/
def ensureUniverse (d : Draft K) (name : String) : Draft K :=
  if d.universes.contains name then d
  else
    let id := Identifier.allocate name d.universeIds
    { d with universes := d.universes.insert name { id, name } }

/-- The draft with one more cell name in a universe, which is made if it is not there. -/
def addCellName (d : Draft K) (parent cell : String) : Draft K :=
  let d := d.ensureUniverse parent
  { d with universes := d.universes.modify parent fun u => { u with cells := u.cells ++ [cell] } }

/-- The draft with one more number given to a cell, and that number. -/
def reserveCellId (d : Draft K) (name : String) : Draft K × Nat :=
  let id := Identifier.allocate name d.cellIds
  ({ d with cellIds := id :: d.cellIds }, id)

/-- A universe holds a lattice. -/
def hasLattice (d : Draft K) (name : String) : Bool :=
  match d.universes.find? name with
  | some u => u.lattice.isSome
  | none => false

/-- The draft with one more cell, listed in its universe. A universe holds either cells or a
    lattice. -/
def addCell (d : Draft K) (cell : Cell K) : Except Fault (Draft K) :=
  if d.cells.contains cell.name then .error (.duplicate .cell cell.name)
  else if d.hasLattice cell.parent then .error (.duplicate .universe cell.parent)
  else
    let d := d.addCellName cell.parent cell.name
    .ok { d with cells := d.cells.insert cell.name cell }

/-! ### The finished geometry -/

/-- The tables of the draft as they are. -/
def geometry (d : Draft K) : Geometry K where
  root := d.root
  surfaces := d.surfaces
  cells := d.cells
  universes := d.universes
  materials := d.materials

/-- The geometry, if everything that it refers to is declared. -/
def finish (d : Draft K) : Except Fault (Geometry K) := d.geometry.check.map fun _ => d.geometry

/-- Warnings about universes in which nothing was declared. -/
def warnings (d : Draft K) : List String :=
  (d.universes.values.filter (·.isPlaceholder)).map fun u =>
    "Universe " ++ u.name ++ " is referenced but never declared"

end Draft

end SerpentCsg
