import SerpentCsg.Fault
import SerpentCsg.Surface.Kind

/-! # Boundary Conditions

  What happens to particles at a surface. A geometry gives up to three conditions: one for all of
  its boundary, or one for each axis.
-/

namespace SerpentCsg

/-- Condition at a surface. -/
inductive Boundary where
  /-- Particles pass. -/
  | transmission
  /-- Particles are lost. -/
  | vacuum
  /-- Particles are reflected. -/
  | reflective
  /-- Particles come back on the other side. -/
  | periodic
  deriving Repr, DecidableEq

namespace Boundary

/-- Word for the condition in output. -/
def word : Boundary → String
  | transmission => "transmission"
  | vacuum => "vacuum"
  | reflective => "reflective"
  | periodic => "periodic"

/-- The condition that a word of a card asks for. -/
def ofWord? (word : String) : Option Boundary :=
  if word = "1" ∨ word = "black" then some vacuum
  else if word = "2" ∨ word = "reflective" then some reflective
  else if word = "3" ∨ word = "periodic" then some periodic
  else none

/-- Conditions of the words of a card, at most one for each axis. -/
def ofWords (words : List String) : Except Fault (List Boundary) :=
  if words.length > 3 then .error (.boundaryCount words.length)
  else words.mapM fun word =>
    match ofWord? word with
    | some boundary => .ok boundary
    | none => .error (.unknownBoundary word)

/-- The condition that a list of them gives to a surface. With several conditions, a plane
    across an axis takes that of its axis; all other surfaces take the first, and so does
    a plane whose axis has none. -/
def choose (boundaries : List Boundary) (axis : Option Axis) : Boundary :=
  let first := boundaries.head?.getD vacuum
  match boundaries, axis with
  | _ :: _ :: _, some axis => boundaries[axis.index]?.getD first
  | _, _ => first

end Boundary

end SerpentCsg
