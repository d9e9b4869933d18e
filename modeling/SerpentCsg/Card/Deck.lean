import SerpentCsg.Card.Syntax

/-! # Decks of Cards

  The lines of a geometry file are sorted into cards by the way they start. Comments are dropped,
  and lines without text make no card. A lattice card goes on over the following lines of
  universe names until it has as many names as its header asks for.
-/

namespace SerpentCsg

open Text

namespace Card

/-- What a card is about. -/
inductive Kind where
  | surface
  /-- A cell with a material, and any cell that cannot be read. -/
  | cellMaterial
  /-- A cell filled with a universe. -/
  | cellFill
  /-- A cell of the outside world. -/
  | cellOutside
  | lattice
  | motion
  | boundaries
  | root
  /-- Any other line. -/
  | other
  deriving Repr, DecidableEq

/-- One of the three forms of cell cards. -/
def Kind.isCell : Kind → Bool
  | cellMaterial | cellFill | cellOutside => true
  | _ => false

/-- The form of a cell card, by what it asks for in the cell. -/
def Kind.ofFill : FillWord → Kind
  | .material _ => .cellMaterial
  | .universe _ => .cellFill
  | .outside => .cellOutside

end Card

/-- A card of a deck. -/
structure Card where
  /-- Number of the line it starts on, counted from one. -/
  line : Nat
  kind : Card.Kind
  /-- The card on one line, without comments. -/
  text : String
  deriving Repr, DecidableEq

namespace Card

/-- What a text without comments is about. -/
def kindOf (s : List Char) : Kind :=
  if startsSurface s then .surface
  else if startsCell s then
    match readCell s with
    | none => .cellMaterial
    | some card => .ofFill card.fill
  else if startsLattice s then .lattice
  else if startsMotion s then .motion
  else if startsBoundaries s then .boundaries
  else if startsRoot s then .root
  else .other

/-! ### How long a lattice card is -/

/-- Number of words between the type of a lattice and its universe names. -/
def headerLength? : Nat → Option Nat
  | 1 | 6 => some 5
  | 11 => some 9
  | _ => none

/-- Places of the element counts among those words. -/
def countPlaces : Nat → List Nat
  | 11 => [3, 4, 5]
  | _ => [2, 3]

/-- A product that fits 64 bits. -/
def boundedProduct (a b : Nat) : Option Nat := if a * b ≤ max64 then some (a * b) else none

/-- Number of elements that the header of a lattice asks for, if that can be told. -/
def elementCount? (card : LatticeCard) : Option Nat :=
  (countPlaces card.type).foldlM
    (fun total place => do
      let word ← card.args[place]?
      let count ← natural? max64 word.toList
      boundedProduct total count)
    1

/-- Number of universe names that a lattice card is still waiting for; none where its header
    cannot be read. -/
def missingNames (s : List Char) : Nat :=
  let missing := do
    let card ← readLattice s
    let header ← headerLength? card.type
    let count ← elementCount? card
    if count + header ≤ max64 then some (count + header - card.args.length) else none
  missing.getD 0

/-! ### Sorting lines into cards -/

/-- A deck that is being put together. -/
structure Stack where
  /-- The cards so far, the last one first. -/
  cards : List Card
  /-- Number of universe names that the last card is waiting for. -/
  missing : Nat

/-- The deck with one more line, which is numbered. -/
def Stack.add (stack : Stack) (line : Nat) (raw : List Char) : Stack :=
  let text := withoutComment raw
  if text.isEmpty then stack
  else
    match stack.cards, decide (0 < stack.missing) && continuesLattice text with
    | last :: earlier, true =>
      { cards := { last with text := last.text ++ " " ++ String.ofList text } :: earlier
        missing := stack.missing - (words text).length }
    | cards, _ =>
      let kind := kindOf text
      { cards := { line, kind, text := String.ofList text } :: cards
        missing := if kind = .lattice then missingNames text else 0 }

/-- The deck with some more lines, the first of which has a given number. -/
def Stack.addAll (stack : Stack) (line : Nat) : List String → Stack
  | [] => stack
  | raw :: rest => (stack.add line raw.toList).addAll (line + 1) rest

/-- The cards of some lines, in order. -/
def deck (lines : List String) : List Card := (Stack.addAll ⟨[], 0⟩ 1 lines).cards.reverse

end Card

end SerpentCsg
