import SerpentCsg.Linear.Vector

/-! # Lattices

  A lattice fills the plane with equal rectangular elements, each holding a universe. Rows are
  stored from the bottom up, so that indices grow with the coordinates. A finite lattice has an
  element only within its extent, an infinite one repeats itself.
-/

namespace SerpentCsg

/-- Kinds of rectangular lattices. -/
inductive LatticeKind where
  /-- Finite, with square elements. -/
  | square
  /-- Repeated without end, with square elements. -/
  | squareInfinite
  /-- One layer of a cuboidal lattice. -/
  | cuboidal
  deriving Repr, DecidableEq

/-- Number of the kind on a card. -/
def LatticeKind.code : LatticeKind → Nat
  | square => 1
  | squareInfinite => 6
  | cuboidal => 11

/-- The kind with a given number. -/
def LatticeKind.ofCode? : Nat → Option LatticeKind
  | 1 => some .square
  | 6 => some .squareInfinite
  | 11 => some .cuboidal
  | _ => none

@[simp] theorem LatticeKind.ofCode?_code (kind : LatticeKind) : ofCode? kind.code = some kind := by
  cases kind <;> rfl

/-- Place of an element. -/
structure Element where
  /-- Counted from the left. -/
  column : Nat
  /-- Counted from the bottom. -/
  row : Nat
  deriving Repr, DecidableEq

/-- A rectangular lattice. -/
structure Lattice (K : Type) where
  kind : LatticeKind
  /-- Centre of the whole lattice. -/
  centre : Vec2 K
  /-- Half the extent of the whole lattice along each axis. -/
  halfExtent : Vec2 K
  /-- Width of an element along each axis. -/
  pitch : Vec2 K
  /-- Number of elements side by side. -/
  columns : Nat
  /-- Number of elements one above the other. -/
  rows : Nat
  /-- Names of the universes, row by row from the bottom. -/
  universes : List (List String)
  deriving Repr

namespace Lattice

variable {K : Type}

/-- The universe of an element. -/
def universe? (l : Lattice K) (e : Element) : Option String :=
  l.universes[e.row]?.bind fun row => row[e.column]?

/-- Every universe name, row by row from the bottom. -/
def names (l : Lattice K) : List String := l.universes.flatten

variable [Scalar K]

/-- Corner with the smallest coordinates. -/
def lowerLeft (l : Lattice K) : Vec2 K := l.centre - l.halfExtent

/-- Index of the element at a distance from the lower end of an axis with `count` elements. -/
def index? (repeated : Bool) (count : Nat) (distance pitch : K) : Option Nat :=
  let i := Scalar.floor (distance / pitch)
  if repeated then some (Scalar.toCount (Scalar.remainder i (Scalar.ofCount count)))
  else if i < 0 ∨ Scalar.ofCount count ≤ i then none
  else some (Scalar.toCount i)

/-- The element that holds a point. -/
def elementAt? (l : Lattice K) (p : Vec3 K) : Option Element :=
  let corner := l.lowerLeft
  let repeated := l.kind == .squareInfinite
  match index? repeated l.columns (p.x - corner.x) l.pitch.x,
      index? repeated l.rows (p.y - corner.y) l.pitch.y with
  | some column, some row => some ⟨column, row⟩
  | _, _ => none

/-- Distance from the centre of the element that holds a point, along one axis. -/
def localCoordinate (distance pitch : K) : K :=
  Scalar.remainder distance pitch - Scalar.half * pitch

/-- The point as seen from the centre of the element that holds it. -/
def toLocal (l : Lattice K) (p : Vec3 K) : Vec3 K :=
  let corner := l.lowerLeft
  ⟨localCoordinate (p.x - corner.x) l.pitch.x, localCoordinate (p.y - corner.y) l.pitch.y, p.z⟩

end Lattice

end SerpentCsg
