import SerpentCsg.Linear.Vector

/-! # Matrices

  Three by three matrices, held as rows, and the rotations among them.
-/

namespace SerpentCsg

/-- A three by three matrix. -/
structure Mat3 (K : Type) where
  /-- First row. -/
  first : Vec3 K
  /-- Second row. -/
  second : Vec3 K
  /-- Third row. -/
  third : Vec3 K
  deriving Repr

namespace Mat3

variable {K : Type} [Scalar K]

/-- The nine entries, row by row. -/
def toList (m : Mat3 K) : List K := m.first.toList ++ m.second.toList ++ m.third.toList

/-- The matrix whose columns are the rows of this one. -/
def transpose (m : Mat3 K) : Mat3 K where
  first := ⟨m.first.x, m.second.x, m.third.x⟩
  second := ⟨m.first.y, m.second.y, m.third.y⟩
  third := ⟨m.first.z, m.second.z, m.third.z⟩

/-- The matrix that leaves every vector alone. -/
def identity : Mat3 K := ⟨.unit .x, .unit .y, .unit .z⟩

/-- The matrix of zeros. -/
def zero : Mat3 K := ⟨.zero, .zero, .zero⟩

/-- The matrix with the given diagonal and zeros elsewhere. -/
def diagonal (d : Vec3 K) : Mat3 K := ⟨⟨d.x, 0, 0⟩, ⟨0, d.y, 0⟩, ⟨0, 0, d.z⟩⟩

/-- Image of a vector. -/
def apply (m : Mat3 K) (v : Vec3 K) : Vec3 K := ⟨m.first.dot v, m.second.dot v, m.third.dot v⟩

instance : Mul (Mat3 K) where
  mul m n :=
    let columns := n.transpose
    let row (r : Vec3 K) : Vec3 K :=
      ⟨r.dot columns.first, r.dot columns.second, r.dot columns.third⟩
    ⟨row m.first, row m.second, row m.third⟩

instance : Sub (Mat3 K) where
  sub m n := ⟨m.first - n.first, m.second - n.second, m.third - n.third⟩

/-- Product with a number, which stands on the left. -/
def scale (a : K) (m : Mat3 K) : Mat3 K := ⟨m.first.scale a, m.second.scale a, m.third.scale a⟩

/-- Products of all pairs of components. -/
def outer (v w : Vec3 K) : Mat3 K := ⟨w.scale v.x, w.scale v.y, w.scale v.z⟩

/-- Square root of the sum of the squared entries, summed column by column. -/
def norm (m : Mat3 K) : K :=
  let columns := m.transpose
  Scalar.sqrt
    (columns.first.dot columns.first + columns.second.dot columns.second +
      columns.third.dot columns.third)

omit [Scalar K] in
/-- Transposing twice gives the matrix back. -/
@[simp] theorem transpose_transpose (m : Mat3 K) : m.transpose.transpose = m := rfl

/-! ### Rotations -/

/-- How far the product of a printed rotation with its transpose may be from the identity. -/
def rotationSlack : K := Scalar.decimal 1 (-4)

/-- The rows are orthogonal and of length one, as closely as a printed matrix can be. -/
def isRotation (m : Mat3 K) : Bool := (m * m.transpose - identity).norm < rotationSlack

/-- Rotation by three angles in radians, about the x axis first, then about y, then about z. -/
def ofAngles (roll pitch yaw : K) : Mat3 K :=
  let sr := Scalar.sin roll
  let cr := Scalar.cos roll
  let sp := Scalar.sin pitch
  let cp := Scalar.cos pitch
  let sy := Scalar.sin yaw
  let cy := Scalar.cos yaw
  { first := ⟨cy * cp, cy * sp * sr - sy * cr, cy * sp * cr + sy * sr⟩
    second := ⟨sy * cp, sy * sp * sr + cy * cr, sy * sp * cr - cy * sr⟩
    third := ⟨-sp, cp * sr, cp * cr⟩ }

end Mat3

end SerpentCsg
