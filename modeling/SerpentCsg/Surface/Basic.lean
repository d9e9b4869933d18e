import SerpentCsg.Surface.Boundary
import SerpentCsg.Surface.Motion

/-! # Surfaces

  A primitive surface with its name, its number and its boundary condition.
-/

namespace SerpentCsg

/-- A surface of a geometry. -/
structure Surface (K : Type) where
  /-- Number that regions refer to it by. -/
  id : Nat
  /-- Name given by a card, or made from one. -/
  name : String
  /-- Where it lies. -/
  kind : SurfaceKind K
  /-- What happens at it. -/
  boundary : Boundary := .transmission
  deriving Repr

namespace Surface

variable {K : Type}

/-- Axis that the surface is a plane across. -/
def planeAxis? (s : Surface K) : Option Axis :=
  match s.kind with
  | .axisPlane axis _ => some axis
  | _ => none

variable [Scalar K]

/-- Value of the implicit function at a point. -/
def value (s : Surface K) (p : Vec3 K) : K := s.kind.value p

/-- The surface moved by `t`. -/
def shifted (s : Surface K) (t : Vec3 K) : Surface K := { s with kind := s.kind.shifted t }

/-- The surface turned about the origin. -/
def rotated (s : Surface K) (r : Mat3 K) : Except Fault (Surface K) :=
  match s.kind.rotated? r with
  | some kind => .ok { s with kind }
  | none => .error (.tiltedTorus s.name)

end Surface

end SerpentCsg
