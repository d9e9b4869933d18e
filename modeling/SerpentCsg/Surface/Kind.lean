import SerpentCsg.Surface.Quadric

/-! # Kinds of Surfaces

  The primitive surfaces and the function that each of them is the zero set of. The side on which
  the function is negative is the inside of a closed surface.

  Kinds that occur for each coordinate axis carry their axis. What is given across the axis
  is listed in the order of the two remaining axes.
-/

namespace SerpentCsg

/-- A primitive surface. -/
inductive SurfaceKind (K : Type) where
  /-- Plane across an axis at an offset along it. -/
  | axisPlane (axis : Axis) (offset : K)
  /-- Plane `normal · x = offset`. -/
  | plane (normal : Vec3 K) (offset : K)
  /-- Cylinder along an axis, through a point across it. -/
  | axisCylinder (axis : Axis) (centre : Vec2 K) (radius : K)
  /-- Cylinder around the line through two points. -/
  | cylinder (first second : Vec3 K) (radius : K)
  /-- Sphere. -/
  | sphere (centre : Vec3 K) (radius : K)
  /-- Double cone along an axis, with the square of its slope. -/
  | cone (axis : Axis) (apex : Vec3 K) (slope : K)
  /-- Elliptic torus around an axis: large radius, then the half widths of the tube along the
      axis and across it. -/
  | torus (axis : Axis) (centre : Vec3 K) (large tubeAlong tubeAcross : K)
  /-- General surface of the second order. -/
  | quadric (coefficients : Quadric K)
  deriving Repr

namespace SurfaceKind

variable {K : Type}

/-! ### Names -/

/-- Capital letter of an axis. -/
def axisLetter : Axis → String
  | .x => "X"
  | .y => "Y"
  | .z => "Z"

/-- Name of the kind. -/
def label : SurfaceKind K → String
  | axisPlane axis _ => axisLetter axis ++ "Plane"
  | plane .. => "Plane"
  | axisCylinder axis .. => axisLetter axis ++ "Cylinder"
  | cylinder .. => "Cylinder"
  | sphere .. => "Sphere"
  | cone axis .. => axisLetter axis ++ "Cone"
  | torus axis .. => axisLetter axis ++ "Torus"
  | quadric _ => "Quadric"

/-- Name of the type of surface that OpenMC knows it by. A cylinder around any line is known
    as a quadric. -/
def openmcType : SurfaceKind K → String
  | axisPlane .x _ => "x-plane"
  | axisPlane .y _ => "y-plane"
  | axisPlane .z _ => "z-plane"
  | plane .. => "plane"
  | axisCylinder .x .. => "x-cylinder"
  | axisCylinder .y .. => "y-cylinder"
  | axisCylinder .z .. => "z-cylinder"
  | cylinder .. => "quadric"
  | sphere .. => "sphere"
  | cone .x .. => "x-cone"
  | cone .y .. => "y-cone"
  | cone .z .. => "z-cone"
  | torus .x .. => "x-torus"
  | torus .y .. => "y-torus"
  | torus .z .. => "z-torus"
  | quadric _ => "quadric"

/-! ### Coefficients -/

/-- What the surface was made from, in order. -/
def coefficients : SurfaceKind K → List K
  | axisPlane _ offset => [offset]
  | plane normal offset => [normal.x, normal.y, normal.z, offset]
  | axisCylinder _ centre radius => [centre.x, centre.y, radius]
  | cylinder p q radius => [p.x, p.y, p.z, q.x, q.y, q.z, radius]
  | sphere centre radius => [centre.x, centre.y, centre.z, radius]
  | cone _ apex slope => [apex.x, apex.y, apex.z, slope]
  | torus _ centre large tubeAlong tubeAcross =>
    [centre.x, centre.y, centre.z, large, tubeAlong, tubeAcross]
  | quadric q => q.toList

variable [Scalar K]

/-- The surface of the second order that a kind is, and nothing for a torus. -/
def form? : SurfaceKind K → Option (QuadricForm K)
  | axisPlane axis offset => some (.plane (.unit axis) offset)
  | plane normal offset => some (.plane normal offset)
  | axisCylinder axis centre radius =>
    some (.centred (.ofAxis axis 0 ⟨1, 1⟩) (.ofAxis axis 0 centre) (-radius * radius))
  | cylinder p q radius => some (.cylinder p q radius)
  | sphere centre radius => some (.centred ⟨1, 1, 1⟩ centre (-radius * radius))
  | cone axis apex slope => some (.centred (.ofAxis axis (-slope) ⟨1, 1⟩) apex 0)
  | torus .. => none
  | quadric q => some q.form

/-- Coefficients in the order that goes with `openmcType`. -/
def openmcCoefficients : SurfaceKind K → List K
  | cylinder p q radius => (QuadricForm.cylinder p q radius).coefficients.toList
  | kind => kind.coefficients

/-! ### The implicit function -/

/-- Value of a torus at a point with a given displacement along its axis and across it. -/
def torusValue (along : K) (across : Vec2 K) (large tubeAlong tubeAcross : K) : K :=
  let rho := Scalar.sqrt (across.x * across.x + across.y * across.y)
  along * along / (tubeAlong * tubeAlong) +
    Scalar.square (rho - large) / (tubeAcross * tubeAcross) - 1

/-- Value of the implicit function at a point. -/
def value (kind : SurfaceKind K) (p : Vec3 K) : K :=
  match kind with
  | axisPlane axis offset => p.along axis - offset
  | plane n offset => n.x * p.x + n.y * p.y + n.z * p.z - offset
  | axisCylinder axis centre radius =>
    let d := p.across axis - centre
    Scalar.square d.x + Scalar.square d.y - radius * radius
  | cylinder a b radius => (QuadricForm.cylinder a b radius).value p
  | sphere centre radius =>
    let d := p - centre
    Scalar.square d.x + Scalar.square d.y + Scalar.square d.z - radius * radius
  | cone axis apex slope =>
    let d := p - apex
    let across := d.across axis
    Scalar.square across.x + Scalar.square across.y - slope * Scalar.square (d.along axis)
  | torus axis centre large tubeAlong tubeAcross =>
    let d := p - centre
    torusValue (d.along axis) (d.across axis) large tubeAlong tubeAcross
  | quadric q => q.form.value p

end SurfaceKind

end SerpentCsg
