import SerpentCsg.Card.Syntax
import SerpentCsg.Cell
import SerpentCsg.Surface.Basic

/-! # Motions

  A motion card moves a surface or the cells of a universe by a rotation, a shift, or both in
  the order that the card asks for.
-/

namespace SerpentCsg

open Card (MotionCard)

/-- A rotation as a card gives it. -/
inductive Rotation (K : Type) where
  /-- Angles in degrees about the x, y and z axes, applied in that order. -/
  | angles (v : Vec3 K)
  /-- A matrix, row by row. -/
  | matrix (m : Mat3 K)
  deriving Repr

/-- The matrix of a rotation. -/
def Rotation.toMatrix {K : Type} [Scalar K] : Rotation K → Mat3 K
  | angles v => .ofAngles (Scalar.radians v.x) (Scalar.radians v.y) (Scalar.radians v.z)
  | matrix m => m

/-- One step of a motion. -/
inductive Move (K : Type) where
  /-- Shift by a vector. -/
  | shift (t : Vec3 K)
  /-- Rotation about the origin. -/
  | rotate (r : Rotation K)
  deriving Repr

/-- What a motion moves. -/
inductive MotionTarget where
  /-- One surface. -/
  | surface
  /-- Every cell of a universe. -/
  | universe
  deriving Repr, DecidableEq

/-- A motion of something that has a name. -/
structure Motion (K : Type) where
  target : MotionTarget
  name : String
  /-- Steps in the order they are applied. -/
  moves : List (Move K)
  deriving Repr

namespace Motion

variable {K : Type} [Scalar K]

/-- What a letter of a card stands for. -/
def targetOf? : Char → Option MotionTarget
  | 'S' => some .surface
  | 'U' => some .universe
  | _ => none

/-- The two steps in the order of a flag: one rotates first, two shifts first. -/
def ordered (name : String) (t : Vec3 K) (r : Rotation K) (flag : K) :
    Except Fault (List (Move K)) :=
  if flag == 1 then .ok [.rotate r, .shift t]
  else if flag == Scalar.two then .ok [.shift t, .rotate r]
  else .error (.motionOrder name (Scalar.text flag))

/-- The steps of a card: a shift, then possibly three angles or nine matrix entries with an
    order flag. A matrix must be a rotation. -/
def movesOf (card : MotionCard K) : Except Fault (List (Move K)) :=
  match card.args with
  | [x, y, z] => .ok [.shift ⟨x, y, z⟩]
  | [x, y, z, α, β, γ, flag] => ordered card.name ⟨x, y, z⟩ (.angles ⟨α, β, γ⟩) flag
  | [x, y, z, a, b, c, d, e, f, g, h, i, flag] =>
    let m : Mat3 K := ⟨⟨a, b, c⟩, ⟨d, e, f⟩, ⟨g, h, i⟩⟩
    if m.isRotation then ordered card.name ⟨x, y, z⟩ (.matrix m) flag
    else .error (.notARotation card.name)
  | args => .error (.motionCount card.name args.length)

/-- The motion that a card asks for. -/
def ofCard (card : MotionCard K) : Except Fault (Motion K) :=
  match targetOf? card.target with
  | none => .error (.unknownMotionTarget card.target card.name)
  | some target => (movesOf card).map fun moves => ⟨target, card.name, moves⟩

end Motion

/-! ### Applying steps -/

section Apply

variable {K : Type} [Scalar K]

/-- A surface after one step. -/
def Surface.moved (s : Surface K) : Move K → Except Fault (Surface K)
  | .shift t => .ok (s.shifted t)
  | .rotate r => s.rotated r.toMatrix

/-- A surface after some steps, and the fault of the first step that cannot be carried out. The
    steps before it stay in effect. -/
def Surface.movedAll (s : Surface K) : List (Move K) → Surface K × Option Fault
  | [] => (s, none)
  | move :: moves =>
    match s.moved move with
    | .ok s => s.movedAll moves
    | .error fault => (s, some fault)

/-- A cell after one step of its filling universe. -/
def Cell.fillMoved (c : Cell K) : Move K → Cell K
  | .shift t => c.fillShifted t
  | .rotate r => c.fillRotated r.toMatrix

/-- A cell after some steps of its filling universe. -/
def Cell.fillMovedAll (c : Cell K) (moves : List (Move K)) : Cell K := moves.foldl Cell.fillMoved c

end Apply

end SerpentCsg
