import SerpentCsg.Card.Deck
import SerpentCsg.Draft.Basic

/-! # Working in Lattice Cards

  The lattice itself depends on its card alone. Working it in creates every universe that it
  refers to and puts it on the universe of its own name, which must have nothing in it yet.
-/

namespace SerpentCsg

open Card (LatticeCard)
open Text (max64 natural?)

namespace Lattice

/-! ### Header values -/

/-- The word at a place of the header. -/
def word (card : LatticeCard) (place : Nat) : String := card.args[place]?.getD ""

/-- The number at a place of the header. -/
def number {K : Type} [Scalar K] (card : LatticeCard) (place : Nat) : Except Fault K :=
  match Scalar.ofWord? (word card place) with
  | some x => .ok x
  | none => .error (.latticeNumber card.name (word card place))

/-- The positive count at a place of the header. -/
def count (card : LatticeCard) (place : Nat) : Except Fault Nat :=
  match natural? max64 (word card place).toList with
  | some (n + 1) => .ok (n + 1)
  | _ => .error (.latticeCount card.name (word card place))

/-- Cuts a list into so many rows of equal length. -/
def cut {α : Type} (columns : Nat) : Nat → List α → List (List α)
  | 0, _ => []
  | rows + 1, names => names.take columns :: cut columns rows (names.drop columns)

variable {K : Type} [Scalar K]

/-- What the header of a card says. -/
structure Header (K : Type) where
  kind : LatticeKind
  centre : Vec2 K
  columns : Nat
  rows : Nat
  pitch : Vec2 K
  /-- Number of words of the header. -/
  length : Nat
  deriving Repr

/-- Counts and pitch of a square lattice. -/
def squareHeader (card : LatticeCard) (kind : LatticeKind) (centre : Vec2 K) :
    Except Fault (Header K) := do
  let p ← number card 4
  let columns ← count card 2
  let rows ← count card 3
  return { kind, centre, columns, rows, pitch := ⟨p, p⟩, length := 5 }

/-- Counts and pitch of a cuboidal lattice, which must have a single layer. -/
def cuboidalHeader (card : LatticeCard) (centre : Vec2 K) : Except Fault (Header K) := do
  let layers ← count card 5
  if layers ≠ 1 then throw (.latticeLayers card.name)
  let columns ← count card 3
  let rows ← count card 4
  let px ← number card 6
  let py ← number card 7
  return { kind := .cuboidal, centre, columns, rows, pitch := ⟨px, py⟩, length := 9 }

/-- The header of a card, which must be complete. -/
def header (card : LatticeCard) : Except Fault (Header K) :=
  match LatticeKind.ofCode? card.type, Card.headerLength? card.type with
  | some kind, some length =>
    if card.args.length < length then
      .error (.shortLatticeHeader card.name length card.args.length)
    else do
      let x ← number card 0
      let y ← number card 1
      match kind with
      | .cuboidal => cuboidalHeader card ⟨x, y⟩
      | _ => squareHeader card kind ⟨x, y⟩
  | _, _ => .error (.unknownLatticeType card.name card.type)

/-- Half the extent of so many elements. -/
def halfExtentOf (count : Nat) (pitch : K) : K := Scalar.ofCount count * Scalar.half * pitch

/-- The lattice of a header and universe names, which are listed from the top row down. -/
def ofHeader (h : Header K) (names : List String) : Lattice K where
  kind := h.kind
  centre := h.centre
  halfExtent := ⟨halfExtentOf h.columns h.pitch.x, halfExtentOf h.rows h.pitch.y⟩
  pitch := h.pitch
  columns := h.columns
  rows := h.rows
  universes := (cut h.columns h.rows names).reverse

/-- The lattice that a card describes. -/
def ofCard (card : LatticeCard) : Except Fault (Lattice K) :=
  match header card with
  | .error fault => .error fault
  | .ok h =>
    let names := card.args.drop h.length
    let elements := h.columns * h.rows
    if h.pitch.x ≤ 0 ∨ h.pitch.y ≤ 0 then .error (.latticePitch card.name)
    else if max64 < elements then .error (.latticeSize card.name h.columns h.rows)
    else if names.length ≠ elements then
      .error (.latticeNames card.name elements names.length)
    else .ok (ofHeader h names)

end Lattice

namespace Draft

variable {K : Type} [Scalar K]

/-- The name on a lattice card that cannot be read: its second word. -/
def nameOnCard (text : String) : String :=
  match Text.words text.toList with
  | _ :: name :: _ => String.ofList name
  | _ => ""

/-- The draft with a lattice on the universe of a given name. -/
def addLattice (d : Draft K) (name : String) (lattice : Lattice K) : Outcome K :=
  let d := (lattice.names.foldl ensureUniverse d).ensureUniverse name
  match d.universes.find? name with
  | some u =>
    if u.isPlaceholder then
      .done { d with
        universes := d.universes.modify name fun u => { u with lattice := some lattice } }
    else .stopped d (.duplicate .universe name)
  | none => .done d

/-- The draft with a lattice card. -/
def addLatticeCard (d : Draft K) (text : String) : Outcome K :=
  match Card.readLattice text.toList with
  | none => .stopped d (.unreadableLattice (nameOnCard text))
  | some card =>
    match Lattice.ofCard card with
    | .error fault => .stopped d fault
    | .ok lattice => d.addLattice card.name lattice

end Draft

end SerpentCsg
