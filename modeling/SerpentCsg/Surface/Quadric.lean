import SerpentCsg.Linear.Matrix

/-! # Quadrics

  Surfaces of the second order, in two forms: the ten coefficients of a polynomial in x, y and z,
  and a symmetric matrix with a vector and a constant, in which motions are easy to carry out.
-/

namespace SerpentCsg

/-- Coefficients of `xx x² + yy y² + zz z² + xy xy + yz yz + xz xz + x x + y y + z z + one`. -/
structure Quadric (K : Type) where
  xx : K
  yy : K
  zz : K
  xy : K
  yz : K
  xz : K
  x : K
  y : K
  z : K
  one : K
  deriving Repr

/-- The surface `x · M x + v · x + k = 0` with a symmetric matrix `M`. -/
structure QuadricForm (K : Type) where
  /-- Terms of the second order. -/
  matrix : Mat3 K
  /-- Terms of the first order. -/
  vector : Vec3 K
  /-- The constant. -/
  constant : K
  deriving Repr

namespace Quadric

/-- The ten coefficients in order. -/
def toList {K : Type} (q : Quadric K) : List K :=
  [q.xx, q.yy, q.zz, q.xy, q.yz, q.xz, q.x, q.y, q.z, q.one]

/-- The matrix form, with each mixed coefficient shared between two entries. -/
def form {K : Type} [Scalar K] (q : Quadric K) : QuadricForm K :=
  let xy := Scalar.half * q.xy
  let yz := Scalar.half * q.yz
  let xz := Scalar.half * q.xz
  { matrix := ⟨⟨q.xx, xy, xz⟩, ⟨xy, q.yy, yz⟩, ⟨xz, yz, q.zz⟩⟩
    vector := ⟨q.x, q.y, q.z⟩
    constant := q.one }

end Quadric

namespace QuadricForm

variable {K : Type} [Scalar K]

/-- The ten coefficients of a form. -/
def coefficients (f : QuadricForm K) : Quadric K where
  xx := f.matrix.first.x
  yy := f.matrix.second.y
  zz := f.matrix.third.z
  xy := Scalar.two * f.matrix.first.y
  yz := Scalar.two * f.matrix.second.z
  xz := Scalar.two * f.matrix.first.z
  x := f.vector.x
  y := f.vector.y
  z := f.vector.z
  one := f.constant

/-- Value at a point. -/
def value (f : QuadricForm K) (p : Vec3 K) : K :=
  p.dot (f.matrix.apply p) + f.vector.dot p + f.constant

/-- The surface carried along by the motion `x ↦ R x + t`. -/
def moved (f : QuadricForm K) (r : Mat3 K) (t : Vec3 K) : QuadricForm K :=
  let m := r * f.matrix * r.transpose
  let v := r.apply f.vector
  { matrix := m
    vector := v - (m.scale Scalar.two).apply t
    constant := t.dot (m.apply t) - v.dot t + f.constant }

/-- The surface `Σ dᵢ (xᵢ - cᵢ)² + k = 0`, whose axes are the coordinate axes. -/
def centred (d c : Vec3 K) (k : K) : QuadricForm K :=
  let m := Mat3.diagonal d
  { matrix := m
    vector := (m.scale (-Scalar.two)).apply c
    constant := c.dot (m.apply c) + k }

/-- The plane `n · x = d`. -/
def plane (n : Vec3 K) (d : K) : QuadricForm K := ⟨.zero, n, -d⟩

/-- The cylinder of radius `r` around the line through two points. -/
def cylinder (p q : Vec3 K) (r : K) : QuadricForm K :=
  let u := (q - p).direction
  let m := Mat3.identity - Mat3.outer u u
  { matrix := m
    vector := (m.scale (-Scalar.two)).apply p
    constant := p.dot (m.apply p) - r * r }

end QuadricForm

end SerpentCsg
