import SerpentCsg.Draft.Basic
import SerpentCsg.Motion

/-! # Working in Motion Cards

  A surface is moved in place. The cells of a universe are moved one by one: a cell with a filling
  universe has the filling moved, and any other cell has the surfaces of its region moved. As
  those may bound other cells too, the cell gets copies of its own the first time it is
  moved, and later motions move the copies.
-/

namespace SerpentCsg.Draft

variable {K : Type} [Scalar K]

/-- The draft with a surface moved in place. -/
def moveSurface (d : Draft K) (moves : List (Move K)) (id : Nat) : Outcome K :=
  match d.surfaces.find? id with
  | none => .done d
  | some surface =>
    let (moved, fault) := surface.movedAll moves
    ⟨{ d with surfaces := d.surfaces.modify id fun _ => moved }, fault⟩

/-- The draft with the surface of a name moved. -/
def moveNamedSurface (d : Draft K) (moves : List (Move K)) (name : String) : Outcome K :=
  match d.entries.find? name with
  | some (.primitive id) => d.moveSurface moves id
  | some _ => .stopped d (.immovableSurface name)
  | none => .stopped d (.unresolved .surface name)

/-- The draft with the surfaces of a cell renumbered in its region. -/
def renumberCell (d : Draft K) (cell : String) (f : Nat → Nat) : Draft K :=
  { d with cells := d.cells.modify cell fun c => { c with region := c.region.map (·.renumber f) } }

/-- The draft with some surfaces of a cell moved. Copies that the cell owns are moved in place, of
    other surfaces a copy is made and moved; once all are moved the cell is bound by the
    copies, as `renumbering` has recorded. -/
def moveBounds (moves : List (Move K)) (cell : String) :
    List Nat → (Nat → Nat) → Draft K → Outcome K
  | [], renumbering, d => .done (d.renumberCell cell renumbering)
  | id :: ids, renumbering, d =>
    if d.ownsCopy cell id then
      (d.moveSurface moves id).andThen (moveBounds moves cell ids renumbering)
    else
      match d.copySurface cell id with
      | none => .stopped d (.unresolved .surface (Geometry.surfaceOfCell id cell))
      | some (d, copy) =>
        (d.moveSurface moves copy).andThen
          (moveBounds moves cell ids fun n => if n = id then copy else renumbering n)

/-- The draft with a cell moved. -/
def moveCell (d : Draft K) (moves : List (Move K)) (name : String) : Outcome K :=
  match d.cells.find? name with
  | none => .done d
  | some cell =>
    match cell.fill, cell.region with
    | .universe _, _ =>
      .done { d with cells := d.cells.modify name fun c => c.fillMovedAll moves }
    | _, some region => moveBounds moves name region.surfaces id d
    | _, none => .stopped d (.nothingToMove name)

/-- The draft with some cells moved, one after another. -/
def moveCells (d : Draft K) (moves : List (Move K)) : List String → Outcome K
  | [] => .done d
  | name :: names => (d.moveCell moves name).andThen fun d => d.moveCells moves names

/-- The draft with every cell of a universe moved. -/
def moveUniverse (d : Draft K) (moves : List (Move K)) (name : String) : Outcome K :=
  match d.universes.find? name with
  | none => .stopped d (.unresolved .universe name)
  | some u =>
    if u.cells.isEmpty then .stopped d (.emptyUniverse name) else d.moveCells moves u.cells

/-- The draft with a motion carried out. -/
def move (d : Draft K) (motion : Motion K) : Outcome K :=
  match motion.target with
  | .surface => d.moveNamedSurface motion.moves motion.name
  | .universe => d.moveUniverse motion.moves motion.name

/-- The draft with a motion card. -/
def addMotionCard (d : Draft K) (text : String) : Outcome K :=
  match Card.readMotion (K := K) text.toList with
  | none => .stopped d (.unreadableMotion text)
  | some card =>
    match Motion.ofCard card with
    | .error fault => .stopped d fault
    | .ok motion => d.move motion

end SerpentCsg.Draft
