import SerpentCsg.Surface.Basic
import SerpentCsg.Table

/-! # Regions

  A region of space is built from half-spaces of numbered surfaces by intersection, union and
  complement. Whether a point belongs to it depends on a table of surfaces.
-/

namespace SerpentCsg

/-- Side of a surface. -/
inductive Side where
  /-- Where the implicit function is negative. -/
  | negative
  /-- Where it is zero or positive. -/
  | positive
  deriving Repr, DecidableEq

namespace Side

/-- The other side. -/
def flipped : Side → Side
  | negative => positive
  | positive => negative

/-- Sign of the side. -/
def sign : Side → Char
  | negative => '-'
  | positive => '+'

@[simp] theorem flipped_flipped (side : Side) : side.flipped.flipped = side := by
  cases side <;> rfl

end Side

/-- One side of one surface. -/
structure Halfspace where
  /-- Number of the surface. -/
  surface : Nat
  /-- Which side of it. -/
  side : Side
  deriving Repr, DecidableEq

/-- A region of space. -/
inductive Region where
  | halfspace (h : Halfspace)
  | intersection (parts : List Region)
  | union (parts : List Region)
  | complement (part : Region)
  deriving Repr, BEq

/-- A point is on a side of the surface with a given number. A surface that is not in the table
    has no sides. -/
def Halfspace.contains {K : Type} [Scalar K] (h : Halfspace) (surfaces : Table Nat (Surface K))
    (p : Vec3 K) : Bool :=
  match surfaces.find? h.surface with
  | none => false
  | some surface =>
    match h.side with
    | .negative => surface.value p < 0
    | .positive => 0 ≤ surface.value p

namespace Region

mutual

/-- Every half-space of the region, from left to right. -/
def halfspaces : Region → List Halfspace
  | halfspace h => [h]
  | intersection parts => halfspacesOf parts
  | union parts => halfspacesOf parts
  | complement part => part.halfspaces

/-- Every half-space of some regions. -/
def halfspacesOf : List Region → List Halfspace
  | [] => []
  | part :: parts => part.halfspaces ++ halfspacesOf parts

end

@[simp] theorem halfspacesOf_eq_flatMap (parts : List Region) :
    halfspacesOf parts = parts.flatMap halfspaces := by
  induction parts with
  | nil => rfl
  | cons part parts ih => rw [halfspacesOf, ih, List.flatMap_cons]

/-- Every surface that occurs in the region, in order of first appearance. -/
def surfaces (region : Region) : List Nat := (region.halfspaces.map (·.surface)).eraseDups

/-- The region contains a point. -/
def contains {K : Type} [Scalar K] (table : Table Nat (Surface K)) (p : Vec3 K) : Region → Bool
  | halfspace h => h.contains table p
  | intersection parts => (parts.map fun part => part.contains table p).and
  | union parts => (parts.map fun part => part.contains table p).or
  | complement part => !part.contains table p

mutual

/-- The region with its surfaces renumbered. -/
def renumber (f : Nat → Nat) : Region → Region
  | halfspace h => halfspace { h with surface := f h.surface }
  | intersection parts => intersection (renumberAll f parts)
  | union parts => union (renumberAll f parts)
  | complement part => complement (part.renumber f)

/-- Some regions with their surfaces renumbered. -/
def renumberAll (f : Nat → Nat) : List Region → List Region
  | [] => []
  | part :: parts => part.renumber f :: renumberAll f parts

end

@[simp] theorem renumberAll_eq_map (f : Nat → Nat) (parts : List Region) :
    renumberAll f parts = parts.map (renumber f) := by
  induction parts with
  | nil => rfl
  | cons part parts ih => rw [renumberAll, ih, List.map_cons]

/-! ### Text -/

/-- Combinations that have to stand in parentheses within an intersection. -/
def isCombination : Region → Bool
  | intersection _ | union _ => true
  | _ => false

/-- Combinations that have to stand in parentheses within a union. -/
def isUnion : Region → Bool
  | union _ => true
  | _ => false

/-- A text in parentheses, if a condition holds. -/
def enclosed (condition : Bool) (text : List Char) : List Char :=
  if condition then '(' :: text ++ [')'] else text

mutual

/-- The region as an expression: a sign and a number for a half-space, juxtaposition for
    intersections, `|` for unions and `~( )` for complements. -/
def chars : Region → List Char
  | halfspace h => h.side.sign :: (Nat.repr h.surface).toList
  | intersection parts => [' '].intercalate (partChars isCombination parts)
  | union parts => [' ', '|', ' '].intercalate (partChars isUnion parts)
  | complement part => '~' :: enclosed true part.chars

/-- The expressions of some regions, with parentheses around those of a kind. -/
def partChars (inParentheses : Region → Bool) : List Region → List (List Char)
  | [] => []
  | part :: parts =>
    enclosed (inParentheses part) part.chars :: partChars inParentheses parts

end

@[simp] theorem partChars_eq_map (inParentheses : Region → Bool) (parts : List Region) :
    partChars inParentheses parts =
      parts.map fun part => enclosed (inParentheses part) part.chars := by
  induction parts with
  | nil => rfl
  | cons part parts ih => rw [partChars, ih, List.map_cons]

/-- The expression of the region. -/
def text (region : Region) : String := String.ofList region.chars

/-- The expression as it is written in elements, where positive half-spaces have no sign. -/
def unsignedText (region : Region) : String := String.ofList (region.chars.filter (· != '+'))

end Region

end SerpentCsg
