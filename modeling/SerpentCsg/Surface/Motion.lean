import SerpentCsg.Surface.Kind

/-! # Moving Surfaces

  Shifts keep the kind of a surface. Rotations keep planes, spheres and cylinders, which
  are brought back to an axis kind where they lie along an axis; cones become quadrics; and a
  torus stays one only if its axis is carried onto a coordinate axis.
-/

namespace SerpentCsg.SurfaceKind

variable {K : Type} [Scalar K]

/-- The surface moved by `t`. -/
def shifted (t : Vec3 K) : SurfaceKind K → SurfaceKind K
  | axisPlane axis offset => axisPlane axis (offset + t.along axis)
  | plane n offset => plane n (offset + (n.x * t.x + n.y * t.y + n.z * t.z))
  | axisCylinder axis centre radius => axisCylinder axis (centre + t.across axis) radius
  | cylinder p q radius => cylinder (p + t) (q + t) radius
  | sphere centre radius => sphere (centre + t) radius
  | cone axis apex slope => cone axis (apex + t) slope
  | torus axis centre large tubeAlong tubeAcross =>
    torus axis (centre + t) large tubeAlong tubeAcross
  | quadric q => quadric (q.form.moved .identity t).coefficients

/-- The plane `n · x = d`, as an axis plane where `n` points along the positive direction of
    an axis. The sides of the plane stay as they are. -/
def ofNormal (n : Vec3 K) (d : K) : SurfaceKind K :=
  match n.axis? with
  | some (axis, s) => if 0 < s then axisPlane axis (d / s) else plane n d
  | none => plane n d

/-- The cylinder around the line through two points, as an axis cylinder where the line lies
    along an axis. -/
def ofLine (p q : Vec3 K) (radius : K) : SurfaceKind K :=
  match (q - p).axis? with
  | some (axis, _) => axisCylinder axis (p.across axis) radius
  | none => cylinder p q radius

/-- The surface turned about the origin by `x ↦ R x`, and nothing for a torus that would leave
    the coordinate axes. -/
def rotated? (r : Mat3 K) : SurfaceKind K → Option (SurfaceKind K)
  | axisPlane axis offset => some (ofNormal (r.apply (.unit axis)) offset)
  | plane n offset => some (ofNormal (r.apply n) offset)
  | axisCylinder axis centre radius =>
    some (ofLine (r.apply (.ofAxis axis 0 centre)) (r.apply (.ofAxis axis 1 centre)) radius)
  | cylinder p q radius => some (cylinder (r.apply p) (r.apply q) radius)
  | sphere centre radius => some (sphere (r.apply centre) radius)
  | cone axis apex slope =>
    (cone axis apex slope).form?.map fun form => quadric (form.moved r .zero).coefficients
  | torus axis centre large tubeAlong tubeAcross =>
    (r.apply (.unit axis)).axis?.map fun (axis, _) =>
      torus axis (r.apply centre) large tubeAlong tubeAcross
  | quadric q => some (quadric (q.form.moved r .zero).coefficients)

end SerpentCsg.SurfaceKind
