import Mathlib.Logic.Relation
import SerpentCsg.Draft.Deck
import SerpentCsg.Proofs.Card.Names
import SerpentCsg.Proofs.Cell.Formula
import SerpentCsg.Proofs.Region.RoundTrip

/-! # Changes of a Draft

  What working in a card can do to a draft, as single changes. A card is worked in as a chain of
  them, and a card that is stopped leaves the first part of its chain behind, so what every
  change keeps is kept by every card, whether it succeeds or not.

  There are three kinds of changes. Settings are replaced; things are declared; and what has been
  declared is moved. Only settings change the root universe, and only motions touch regions and
  fillings of cells or make copies of surfaces.

  Every change carries what is known where it happens: names are free, references resolve.
-/

namespace SerpentCsg.Draft

variable {K : Type}

/-! ### Resolved references -/

/-- What fills a cell is there. -/
def FillResolved (d : Draft K) : Fill → Prop
  | .material name => d.materials.contains name = true
  | .universe name => d.universes.contains name = true
  | .void | .outside => True

/-! ### Settings -/

/-- A single change of a setting. -/
inductive Sets : Draft K → Draft K → Prop where
  /-- Boundary conditions are set. -/
  | boundaries (d : Draft K) (boundaries : List Boundary) : Sets d { d with boundaries }
  /-- The root universe is named. -/
  | root (d : Draft K) (root : String) : Sets d { d with root }

/-! ### Declaring -/

/-- A single change by which something is declared. -/
inductive Declares : Draft K → Draft K → Prop where
  /-- A surface gets a number. -/
  | surface (d : Draft K) (name : String) (kind : SurfaceKind K) :
      Declares d (d.addSurface name kind).1
  /-- A free name comes to stand for surfaces that no cell owns. -/
  | entry {d : Draft K} {name : String} {entry : SurfaceEntry} :
      d.entries.contains name = false →
      (∀ id ∈ entry.surfaces, d.surfaces.contains id = true ∧ d.owners.contains id = false) →
      Declares d (d.addEntry name entry)
  /-- A surface that has a name gets its boundary condition. -/
  | mark {d : Draft K} {id : Nat} : d.Named id → Declares d (d.markSurface id)
  /-- A universe is mentioned. -/
  | mention (d : Draft K) (name : String) : Declares d (d.ensureUniverse name)
  /-- A number is given to a cell. -/
  | cellId (d : Draft K) (name : String) : Declares d (d.reserveCellId name).1
  /-- A cell is added, bounded by surfaces that have names and not filled with the root. Every
      combination in its region has two parts or more. -/
  | cell {d d' : Draft K} {cell : Cell K} :
      d.addCell cell = .ok d' → Card.IsName cell.parent → d.FillResolved cell.fill →
      cell.fill ≠ .universe d.root →
      (∀ r, cell.region = some r → ∀ id ∈ r.surfaces, d.Named id) →
      (∀ r, cell.region = some r → r.hasParts 2 = true) → Declares d d'
  /-- A lattice is put on a universe that has nothing in it. -/
  | lattice {d : Draft K} {name : String} {u : Universe K} {lattice : Lattice K} :
      d.universes.find? name = some u → u.isPlaceholder = true → Card.IsName name →
      (∀ name ∈ lattice.names, d.universes.contains name = true) →
      Declares d { d with
        universes := d.universes.modify name fun u => { u with lattice := some lattice } }

/-! ### Moving -/

/-- A single change by which something is moved. -/
inductive Moves [Scalar K] : Draft K → Draft K → Prop where
  /-- A surface is moved in place. -/
  | surface {d : Draft K} {id : Nat} {s : Surface K} (moves : List (Move K)) :
      d.surfaces.find? id = some s →
      Moves d { d with surfaces := d.surfaces.modify id fun _ => (s.movedAll moves).1 }
  /-- A copy is made of a surface of a cell. -/
  | copy {d d' : Draft K} {name : String} {cell : Cell K} {r : Region} {id copy : Nat} :
      d.cells.find? name = some cell → cell.region = some r → id ∈ r.surfaces →
      d.copySurface name id = some (d', copy) → Moves d d'
  /-- A cell is bound to copies that it owns, one for each of its surfaces. -/
  | renumber {d : Draft K} {name : String} {cell : Cell K} {r : Region} {f : Nat → Nat} :
      d.cells.find? name = some cell → cell.region = some r →
      (∀ id ∈ r.surfaces, d.owners.find? (f id) = some name) →
      (∀ a ∈ r.surfaces, ∀ b ∈ r.surfaces, f a = f b → a = b) →
      Moves d (d.renumberCell name f)
  /-- The filling of a cell is moved. -/
  | filling {d : Draft K} {name : String} {cell : Cell K} {u : String} (moves : List (Move K)) :
      d.cells.find? name = some cell → cell.fill = .universe u →
      Moves d { d with cells := d.cells.modify name fun c => c.fillMovedAll moves }

/-! ### Chains -/

/-- A single change. -/
inductive Change [Scalar K] (d d' : Draft K) : Prop where
  | sets : Sets d d' → Change d d'
  | declares : Declares d d' → Change d d'
  | moves : Moves d d' → Change d d'

/-- Changes one after another, by which things are declared. -/
abbrev Declaring : Draft K → Draft K → Prop := Relation.ReflTransGen Declares

/-- Changes one after another, by which things are moved. -/
abbrev Moving [Scalar K] : Draft K → Draft K → Prop := Relation.ReflTransGen Moves

/-- Changes one after another. -/
abbrev Changes [Scalar K] : Draft K → Draft K → Prop := Relation.ReflTransGen Change

theorem Declaring.changes [Scalar K] {d d' : Draft K} (h : Declaring d d') : Changes d d' := by
  induction h with
  | refl => exact .refl
  | tail _ hlast ih => exact ih.tail (.declares hlast)

theorem Moving.changes [Scalar K] {d d' : Draft K} (h : Moving d d') : Changes d d' := by
  induction h with
  | refl => exact .refl
  | tail _ hlast ih => exact ih.tail (.moves hlast)

end SerpentCsg.Draft
