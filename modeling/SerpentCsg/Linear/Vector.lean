import SerpentCsg.Scalar

/-! # Axes and Vectors

  Points and displacements in space, and the three coordinate axes.
-/

namespace SerpentCsg

/-! ### Axes -/

/-- A coordinate axis. -/
inductive Axis where
  | x
  | y
  | z
  deriving Repr, DecidableEq

/-- The axes in order. -/
def Axis.all : List Axis := [.x, .y, .z]

/-- Every axis is one of the three. -/
theorem Axis.mem_all (axis : Axis) : axis ∈ Axis.all := by
  cases axis <;> decide

/-- Position of the axis among the three. -/
def Axis.index : Axis → Nat
  | .x => 0
  | .y => 1
  | .z => 2

/-! ### Vectors -/

/-- A point or displacement in the plane. -/
structure Vec2 (K : Type) where
  x : K
  y : K
  deriving Repr

/-- A point or displacement in space. -/
structure Vec3 (K : Type) where
  x : K
  y : K
  z : K
  deriving Repr

namespace Vec2

variable {K : Type} [Scalar K]

/-- Both components, in order. -/
def toList (v : Vec2 K) : List K := [v.x, v.y]

instance : Sub (Vec2 K) where
  sub v w := ⟨v.x - w.x, v.y - w.y⟩

instance : Add (Vec2 K) where
  add v w := ⟨v.x + w.x, v.y + w.y⟩

end Vec2

namespace Vec3

variable {K : Type} [Scalar K]

/-- The three components, in order. -/
def toList (v : Vec3 K) : List K := [v.x, v.y, v.z]

/-- Component along an axis. -/
def along (v : Vec3 K) : Axis → K
  | .x => v.x
  | .y => v.y
  | .z => v.z

/-- The two components across an axis, in the order of the remaining axes. -/
def across (v : Vec3 K) : Axis → Vec2 K
  | .x => ⟨v.y, v.z⟩
  | .y => ⟨v.x, v.z⟩
  | .z => ⟨v.x, v.y⟩

/-- The vector with a given component along an axis and given components across it. -/
def ofAxis (axis : Axis) (along : K) (across : Vec2 K) : Vec3 K :=
  match axis with
  | .x => ⟨along, across.x, across.y⟩
  | .y => ⟨across.x, along, across.y⟩
  | .z => ⟨across.x, across.y, along⟩

/-- The origin. -/
def zero : Vec3 K := ⟨0, 0, 0⟩

/-- The vector of length one along an axis. -/
def unit : Axis → Vec3 K
  | .x => ⟨1, 0, 0⟩
  | .y => ⟨0, 1, 0⟩
  | .z => ⟨0, 0, 1⟩

instance : Add (Vec3 K) where
  add v w := ⟨v.x + w.x, v.y + w.y, v.z + w.z⟩

instance : Sub (Vec3 K) where
  sub v w := ⟨v.x - w.x, v.y - w.y, v.z - w.z⟩

instance : Neg (Vec3 K) where
  neg v := ⟨-v.x, -v.y, -v.z⟩

/-- Product with a number, which stands on the left. -/
def scale (a : K) (v : Vec3 K) : Vec3 K := ⟨a * v.x, a * v.y, a * v.z⟩

/-- Division by a number. -/
def dividedBy (v : Vec3 K) (a : K) : Vec3 K := ⟨v.x / a, v.y / a, v.z / a⟩

/-- Inner product, summed from the first component to the last. -/
def dot (v w : Vec3 K) : K := v.x * w.x + v.y * w.y + v.z * w.z

/-- Vector product. -/
def cross (v w : Vec3 K) : Vec3 K :=
  ⟨v.y * w.z - v.z * w.y, v.z * w.x - v.x * w.z, v.x * w.y - v.y * w.x⟩

/-- Length. -/
def length (v : Vec3 K) : K := Scalar.sqrt (v.dot v)

/-- The vector of the same direction and length one. -/
def direction (v : Vec3 K) : Vec3 K := v.dividedBy v.length

omit [Scalar K] in
/-- Taking a vector apart along and across an axis and putting it together gives it back. -/
@[simp] theorem ofAxis_along_across (v : Vec3 K) (axis : Axis) :
    ofAxis axis (v.along axis) (v.across axis) = v := by
  cases axis <;> rfl

/-- The coordinate axis that a vector points along, if any, with the length of the vector and the
    sign of the direction. A vector of negligible length points nowhere. -/
def axis? (v : Vec3 K) : Option (Axis × K) :=
  let length := v.length
  if Scalar.isNegligible length then none
  else
    let u := v.dividedBy length
    let liesAlong (axis : Axis) : Bool :=
      Scalar.isNegligible (u.across axis).x && Scalar.isNegligible (u.across axis).y &&
        Scalar.isNegligible (Scalar.abs (u.along axis) - 1)
    (Axis.all.find? liesAlong).map fun axis => (axis, Scalar.signum (u.along axis) * length)

end Vec3

end SerpentCsg
