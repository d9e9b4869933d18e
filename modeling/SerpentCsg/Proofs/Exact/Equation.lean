import Mathlib.Order.Bounds.Basic
import SerpentCsg.Proofs.Exact.Surface

/-! # Equations of Surfaces

  Every surface but a torus is the zero set of a polynomial of the second order. The matrix form of
  the polynomial has the value of the implicit function at every point. For a cylinder around a line
  this is the square of the distance from the line, less that of the radius, and for a quadric it is
  the polynomial that the ten coefficients stand for.

  Coefficients and symmetric matrix forms hold the same. So a surface is described by the type
  and the coefficients that are written for it: what is read from them has the same value at every
  point, although a cylinder around a line comes back as a quadric.
-/

namespace SerpentCsg

/-! ### Distances from a line -/

namespace Vec3

/-- A point of the line through two points, which is the first of them for zero and the second
    for one. -/
noncomputable def linePoint (a b : Vec3 ℝ) (s : ℝ) : Vec3 ℝ := a + (b - a).scale s

/-- The square of the distance of a point from the line through two points, which is the least
    of its squared distances from the points of the line. -/
def IsSquaredDistance (a b p : Vec3 ℝ) (d : ℝ) : Prop :=
  IsLeast (Set.range fun s => (p - linePoint a b s).dot (p - linePoint a b s)) d

theorem dot_self_pos_of_ne {a b : Vec3 ℝ} (h : a ≠ b) : 0 < (b - a).dot (b - a) := by
  refine lt_of_le_of_ne (dot_self_nonneg _) fun hzero => h ?_
  simp only [dot_eq, sub_eq] at hzero
  ext <;> nlinarith [sq_nonneg (b.x - a.x), sq_nonneg (b.y - a.y), sq_nonneg (b.z - a.z)]

/-- The squared distances of a point from those of a line are a parabola, which is lowest at the
    foot of the perpendicular. -/
theorem dot_sub_linePoint {a b : Vec3 ℝ} (h : a ≠ b) (p : Vec3 ℝ) (s : ℝ) :
    (p - linePoint a b s).dot (p - linePoint a b s) =
      (p - a).dot (p - a) - (b - a).dot (p - a) ^ 2 / (b - a).dot (b - a) +
        (b - a).dot (b - a) * (s - (b - a).dot (p - a) / (b - a).dot (b - a)) ^ 2 := by
  have hne := (dot_self_pos_of_ne h).ne'
  have hexpanded : (p - linePoint a b s).dot (p - linePoint a b s) =
      (p - a).dot (p - a) - 2 * s * (b - a).dot (p - a) + s ^ 2 * (b - a).dot (b - a) := by
    simp only [linePoint, dot_eq, sub_eq, add_eq, scale_eq]
    ring
  rw [hexpanded]
  field_simp
  ring

/-- The distance from a line is that part of the distance from one of its points which is not along
    the line. -/
theorem isSquaredDistance {a b : Vec3 ℝ} (h : a ≠ b) (p : Vec3 ℝ) :
    IsSquaredDistance a b p
      ((p - a).dot (p - a) - ((b - a).dot (p - a) / (b - a).length) ^ 2) := by
  have hpos := dot_self_pos_of_ne h
  have hpart : ((b - a).dot (p - a) / (b - a).length) ^ 2 =
      (b - a).dot (p - a) ^ 2 / (b - a).dot (b - a) := by
    rw [div_pow, length_eq, Real.sq_sqrt hpos.le]
  rw [hpart]
  constructor
  · refine ⟨(b - a).dot (p - a) / (b - a).dot (b - a), ?_⟩
    dsimp only
    rw [dot_sub_linePoint h]
    ring
  · rintro _ ⟨s, rfl⟩
    dsimp only
    rw [dot_sub_linePoint h]
    exact le_add_of_nonneg_right (mul_nonneg hpos.le (sq_nonneg _))

end Vec3

/-! ### Coefficients -/

namespace Quadric

/-- The polynomial of the second order that the coefficients stand for. -/
noncomputable def polynomial (q : Quadric ℝ) (p : Vec3 ℝ) : ℝ :=
  q.xx * p.x ^ 2 + q.yy * p.y ^ 2 + q.zz * p.z ^ 2 +
    q.xy * (p.x * p.y) + q.yz * (p.y * p.z) + q.xz * (p.x * p.z) +
    q.x * p.x + q.y * p.y + q.z * p.z + q.one

theorem value_form (q : Quadric ℝ) (p : Vec3 ℝ) : q.form.value p = q.polynomial p := by
  simp only [form, polynomial, QuadricForm.value, Mat3.apply_eq, Vec3.dot_eq, Scalar.half_eq]
  ring

/-- Each mixed coefficient is halved and doubled again. -/
theorem coefficients_form (q : Quadric ℝ) : q.form.coefficients = q := by
  have hdouble (x : ℝ) : Scalar.two * (Scalar.half * x) = x := by
    rw [Scalar.half_eq, Scalar.two_eq]
    ring
  simp only [form, QuadricForm.coefficients, hdouble]

end Quadric

theorem QuadricForm.value_plane (n : Vec3 ℝ) (d : ℝ) (p : Vec3 ℝ) :
    (plane n d).value p = n.dot p - d := by
  simp only [plane, value, Mat3.zero, Mat3.apply_eq, Vec3.zero_eq, Vec3.dot_eq]
  ring

namespace SurfaceKind

open QuadricForm (value_centred value_cylinder form_coefficients isSymmetric_form
  isSymmetric_identity_sub_outer)

/-! ### Matrix forms -/

theorem isSymmetric_form? {kind : SurfaceKind ℝ} {f : QuadricForm ℝ} (h : kind.form? = some f) :
    f.matrix.IsSymmetric := by
  cases kind with
  | cylinder a b radius =>
    obtain rfl := Option.some.inj h
    exact isSymmetric_identity_sub_outer _
  | torus => cases h
  | quadric q =>
    obtain rfl := Option.some.inj h
    exact isSymmetric_form q
  | _ =>
    -- What is left are planes, which have no terms of the second order, and diagonal matrices.
    obtain rfl := Option.some.inj h
    rfl

/-- The matrix form of a surface has the value of its implicit function. -/
theorem value_form? {kind : SurfaceKind ℝ} {f : QuadricForm ℝ} (h : kind.form? = some f)
    (p : Vec3 ℝ) : f.value p = kind.value p := by
  cases kind with
  | axisPlane axis offset =>
    obtain rfl := Option.some.inj h
    rw [QuadricForm.value_plane, Vec3.unit_dot, value_axisPlane]
  | plane n offset =>
    obtain rfl := Option.some.inj h
    rw [QuadricForm.value_plane, value_plane]
  | axisCylinder axis centre radius =>
    obtain rfl := Option.some.inj h
    rw [value_centred, value_axisCylinder]
    cases axis <;> simp only [Vec3.ofAxis, Vec3.across, Vec2.sub_eq] <;> ring
  | cylinder a b radius =>
    obtain rfl := Option.some.inj h
    rfl
  | sphere centre radius =>
    obtain rfl := Option.some.inj h
    rw [value_centred, value_sphere, Vec3.dot_eq, Vec3.sub_eq]
    ring
  | cone axis apex slope =>
    obtain rfl := Option.some.inj h
    rw [value_cone]
  | torus => cases h
  | quadric q =>
    obtain rfl := Option.some.inj h
    rfl

theorem value_cylinder_isSquaredDistance {a b : Vec3 ℝ} (h : a ≠ b) (radius : ℝ) (p : Vec3 ℝ) :
    Vec3.IsSquaredDistance a b p ((cylinder a b radius).value p + radius ^ 2) := by
  have hvalue : (cylinder a b radius).value p + radius ^ 2 =
      (p - a).dot (p - a) - ((b - a).dot (p - a) / (b - a).length) ^ 2 := by
    rw [value, value_cylinder]
    ring
  rw [hvalue]
  exact Vec3.isSquaredDistance h p

/-! ### Reading back -/

section Reading

variable {K : Type}

/-- The surface that OpenMC makes of a type and of coefficients. -/
def ofOpenmc? (type : String) (coefficients : List K) : Option (SurfaceKind K) :=
  match type, coefficients with
  | "x-plane", [offset] => some (axisPlane .x offset)
  | "y-plane", [offset] => some (axisPlane .y offset)
  | "z-plane", [offset] => some (axisPlane .z offset)
  | "plane", [a, b, c, offset] => some (plane ⟨a, b, c⟩ offset)
  | "x-cylinder", [y, z, radius] => some (axisCylinder .x ⟨y, z⟩ radius)
  | "y-cylinder", [x, z, radius] => some (axisCylinder .y ⟨x, z⟩ radius)
  | "z-cylinder", [x, y, radius] => some (axisCylinder .z ⟨x, y⟩ radius)
  | "sphere", [x, y, z, radius] => some (sphere ⟨x, y, z⟩ radius)
  | "x-cone", [x, y, z, slope] => some (cone .x ⟨x, y, z⟩ slope)
  | "y-cone", [x, y, z, slope] => some (cone .y ⟨x, y, z⟩ slope)
  | "z-cone", [x, y, z, slope] => some (cone .z ⟨x, y, z⟩ slope)
  | "x-torus", [x, y, z, a, b, c] => some (torus .x ⟨x, y, z⟩ a b c)
  | "y-torus", [x, y, z, a, b, c] => some (torus .y ⟨x, y, z⟩ a b c)
  | "z-torus", [x, y, z, a, b, c] => some (torus .z ⟨x, y, z⟩ a b c)
  | "quadric", [xx, yy, zz, xy, yz, xz, x, y, z, one] =>
    some (quadric ⟨xx, yy, zz, xy, yz, xz, x, y, z, one⟩)
  | _, _ => none

variable [Scalar K]

/-- The surface as it is known to OpenMC, which has no cylinders around any line. -/
def reduced : SurfaceKind K → SurfaceKind K
  | cylinder a b radius => quadric (QuadricForm.cylinder a b radius).coefficients
  | kind => kind

theorem ofOpenmc?_openmcCoefficients (kind : SurfaceKind K) :
    ofOpenmc? kind.openmcType kind.openmcCoefficients = some kind.reduced := by
  cases kind with
  | axisPlane axis => cases axis <;> rfl
  | axisCylinder axis => cases axis <;> rfl
  | cone axis => cases axis <;> rfl
  | torus axis => cases axis <;> rfl
  | plane | cylinder | sphere | quadric => rfl

end Reading

/-- Nothing is lost of a cylinder that becomes a quadric. -/
theorem value_reduced (kind : SurfaceKind ℝ) (p : Vec3 ℝ) : kind.reduced.value p = kind.value p := by
  cases kind with
  | cylinder a b radius =>
    show (QuadricForm.cylinder a b radius).coefficients.form.value p = _
    rw [form_coefficients (isSymmetric_identity_sub_outer _)]
    rfl
  | _ => rfl

/-- Surfaces are reduced to the second order exactly. Every surface but a torus has a symmetric
    matrix form with the value of its implicit function at each point, which for a cylinder is its
    squared distance from a line less that of the radius, and for a quadric the polynomial of its
    coefficients. Symmetric matrix forms and coefficients can be taken into each other and back. What
    is read from the type and the coefficients of a surface has the same value at every point. -/
theorem reduces_exactly (kind : SurfaceKind ℝ) :
    (kind.form? = none ↔
      ∃ axis centre large tubeAlong tubeAcross,
        kind = torus axis centre large tubeAlong tubeAcross) ∧
    (∀ f, kind.form? = some f → f.matrix.IsSymmetric ∧ ∀ p, f.value p = kind.value p) ∧
    (∀ a b radius, kind = cylinder a b radius → a ≠ b →
      ∀ p, Vec3.IsSquaredDistance a b p (kind.value p + radius ^ 2)) ∧
    (∀ q, kind = quadric q → ∀ p, kind.value p = q.polynomial p) ∧
    (∀ f : QuadricForm ℝ, f.matrix.IsSymmetric → f.coefficients.form = f) ∧
    (∀ q : Quadric ℝ, q.form.matrix.IsSymmetric ∧ q.form.coefficients = q) ∧
    ∃ kind', ofOpenmc? kind.openmcType kind.openmcCoefficients = some kind' ∧
      ∀ p, kind'.value p = kind.value p := by
  refine ⟨?_, ?_, ?_, ?_, ?_, ?_, ?_⟩
  · cases kind with
    | torus axis centre large tubeAlong tubeAcross =>
      exact iff_of_true rfl ⟨axis, centre, large, tubeAlong, tubeAcross, rfl⟩
    | _ => simp [form?]
  · exact fun f hf => ⟨isSymmetric_form? hf, value_form? hf⟩
  · rintro a b radius rfl hne
    exact value_cylinder_isSquaredDistance hne radius
  · rintro q rfl
    exact q.value_form
  · exact fun f hf => form_coefficients hf
  · exact fun q => ⟨isSymmetric_form q, q.coefficients_form⟩
  · exact ⟨kind.reduced, ofOpenmc?_openmcCoefficients kind, value_reduced kind⟩

/-- The origin lies on a cylinder around a slanted line at distance one, and on the quadric that it
    is read back as. -/
theorem reduces_exactly_slanted :
    Vec3.IsSquaredDistance ⟨1, 0, 0⟩ ⟨1, 1, 1⟩ .zero
      ((cylinder ⟨1, 0, 0⟩ ⟨1, 1, 1⟩ 1 : SurfaceKind ℝ).value .zero + 1 ^ 2) ∧
    ∃ kind' : SurfaceKind ℝ,
      ofOpenmc? "quadric" (cylinder ⟨1, 0, 0⟩ ⟨1, 1, 1⟩ 1).openmcCoefficients = some kind' ∧
      kind'.value .zero = 0 := by
  obtain ⟨-, -, hdistance, -, -, -, kind', hread, hvalue⟩ :=
    reduces_exactly (cylinder ⟨1, 0, 0⟩ ⟨1, 1, 1⟩ 1)
  have hne : (⟨1, 0, 0⟩ : Vec3 ℝ) ≠ ⟨1, 1, 1⟩ := fun heq => zero_ne_one (congrArg Vec3.y heq)
  refine ⟨hdistance _ _ _ rfl hne .zero, kind', hread, ?_⟩
  -- The foot of the perpendicular from the origin is the first point.
  rw [hvalue, value, value_cylinder]
  simp [Vec3.dot_eq, Vec3.sub_eq, Vec3.zero_eq]

end SurfaceKind

end SerpentCsg
