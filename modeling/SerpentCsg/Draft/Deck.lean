import SerpentCsg.Draft.Cells
import SerpentCsg.Draft.Lattices
import SerpentCsg.Draft.Motions
import SerpentCsg.Draft.Surfaces

/-! # Working in a Deck

  Cards are worked in by phases, so that a card need not come after the cards it refers to:
  settings first, then surfaces, then cells and lattices, then motions; within a phase in
  the order of the deck. The first fault ends the work.
-/

namespace SerpentCsg.Draft

variable {K : Type} [Scalar K]

/-! ### Settings -/

/-- The draft with a card of boundary conditions. -/
def addBoundaryCard (d : Draft K) (text : String) : Except Fault (Draft K) :=
  match Card.readBoundaries text.toList with
  | none => .error (.unknownBoundary text)
  | some words => (Boundary.ofWords words).map fun boundaries => { d with boundaries }

/-- The draft with a card that names the root universe. -/
def addRootCard (d : Draft K) (text : String) : Except Fault (Draft K) :=
  match Card.readRoot text.toList with
  | none => .error (.unresolved .universe text)
  | some root => .ok { d with root }

/-! ### Phases -/

/-- The phase that a card is worked in, and nothing for cards that are left out. -/
def phase? : Card.Kind → Option Nat
  | .boundaries | .root => some 0
  | .surface => some 1
  | .cellMaterial | .cellFill | .cellOutside | .lattice => some 2
  | .motion => some 3
  | .other => none

/-- The phases in order. -/
def phases : List Nat := [0, 1, 2, 3]

/-- The cards of a deck in the order they are worked in. -/
def inPhases (deck : List Card) : List Card :=
  phases.flatMap fun phase => deck.filter fun card => phase? card.kind == some phase

/-- The draft with one more card. -/
def addCard (d : Draft K) (card : Card) : Outcome K :=
  match card.kind with
  | .boundaries => .ofStep d (d.addBoundaryCard card.text)
  | .root => .ofStep d (d.addRootCard card.text)
  | .surface => .ofStep d (d.addSurfaceCard card.text)
  | .cellMaterial | .cellFill | .cellOutside => d.addCellCard card.text
  | .lattice => d.addLatticeCard card.text
  | .motion => d.addMotionCard card.text
  | .other => .done d

/-- The draft with some cards, one after another, and the fault that stopped the work, with
    the line of its card. -/
def addCards (d : Draft K) : List Card → Draft K × Option Report
  | [] => (d, none)
  | card :: cards =>
    match d.addCard card with
    | ⟨d, none⟩ => d.addCards cards
    | ⟨d, some fault⟩ => (d, some ((Report.ofFault fault).atLine card.line))

/-- The draft with a whole deck. -/
def addDeck (d : Draft K) (deck : List Card) : Draft K × Option Report := d.addCards (inPhases deck)

end SerpentCsg.Draft
