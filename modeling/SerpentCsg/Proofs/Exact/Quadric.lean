import SerpentCsg.Proofs.Exact.Linear
import SerpentCsg.Surface.Quadric

/-! # Exact Quadrics

  The value of a surface of the second order at a point, computed exactly: of one that is given
  around a point, of a cylinder around a line, and of one that has been moved.

  Whatever is moved has a symmetric matrix. It is then the same surface in its ten coefficients as
  in its matrix form, and moving it by `x ↦ R x + t` keeps its value at every point that
  is moved along.
-/

namespace SerpentCsg

attribute [ext] QuadricForm

namespace Mat3

/-! ### Symmetric matrices -/

/-- The matrix is its own transpose. -/
def IsSymmetric (m : Mat3 ℝ) : Prop := m.transpose = m

theorem isSymmetric_diagonal (d : Vec3 ℝ) : (diagonal d).IsSymmetric := rfl

namespace IsSymmetric

variable {m : Mat3 ℝ}

theorem dot_apply (h : m.IsSymmetric) (v w : Vec3 ℝ) : (m.apply v).dot w = v.dot (m.apply w) := by
  rw [← transpose_apply_dot, h]

/-- Turning a symmetric matrix keeps it symmetric. -/
theorem turned (h : m.IsSymmetric) (r : Mat3 ℝ) : (r * m * r.transpose).IsSymmetric := by
  unfold IsSymmetric
  rw [transpose_mul, transpose_mul, transpose_transpose, h]
  -- What is left is that products of matrices can be bracketed either way.
  ext <;> simp only [mul_eq, transpose, Vec3.dot_eq] <;> ring

end IsSymmetric

end Mat3

namespace QuadricForm

/-! ### Surfaces around a point -/

/-- The value of a surface that is given around a point. -/
theorem value_around {m : Mat3 ℝ} (hm : m.IsSymmetric) (c p : Vec3 ℝ) (k : ℝ) :
    (⟨m, (m.scale (-Scalar.two)).apply c, c.dot (m.apply c) + k⟩ : QuadricForm ℝ).value p =
      (p - c).dot (m.apply (p - c)) + k := by
  have hmixed : c.dot (m.apply p) = p.dot (m.apply c) := by
    rw [← hm.dot_apply, Vec3.dot_comm]
  have hlinear : ((m.scale (-Scalar.two)).apply c).dot p = -2 * p.dot (m.apply c) := by
    rw [Mat3.scale_apply, Scalar.two_eq, Vec3.scale_dot, Vec3.dot_comm]
  have hsquare : (p - c).dot (m.apply (p - c)) =
      p.dot (m.apply p) - p.dot (m.apply c) - (c.dot (m.apply p) - c.dot (m.apply c)) := by
    rw [Mat3.apply_sub, Vec3.dot_sub_left, Vec3.dot_sub_right, Vec3.dot_sub_right]
  show p.dot (m.apply p) + ((m.scale (-Scalar.two)).apply c).dot p + (c.dot (m.apply c) + k) = _
  rw [hlinear, hsquare, hmixed]
  ring

theorem value_centred (d c p : Vec3 ℝ) (k : ℝ) :
    (centred d c k).value p =
      d.x * (p.x - c.x) ^ 2 + d.y * (p.y - c.y) ^ 2 + d.z * (p.z - c.z) ^ 2 + k := by
  have hvalue : (centred d c k).value p = (p - c).dot ((Mat3.diagonal d).apply (p - c)) + k :=
    value_around (Mat3.isSymmetric_diagonal d) c p k
  rw [hvalue]
  simp only [Mat3.diagonal, Mat3.apply_eq, Vec3.dot_eq, Vec3.sub_eq]
  ring

/-! ### Cylinders -/

theorem isSymmetric_identity_sub_outer (u : Vec3 ℝ) :
    (Mat3.identity - Mat3.outer u u).IsSymmetric := by
  unfold Mat3.IsSymmetric
  ext <;> simp only [Mat3.sub_eq, Mat3.outer, Mat3.identity_eq, Mat3.transpose, Vec3.scale_eq,
    Vec3.sub_eq] <;> ring

/-- The value of a cylinder is the square of the distance from its line, less that of its
    radius. -/
theorem value_cylinder (a b p : Vec3 ℝ) (radius : ℝ) :
    (cylinder a b radius).value p =
      (p - a).dot (p - a) - ((b - a).dot (p - a) / (b - a).length) ^ 2 - radius ^ 2 := by
  have hvalue := value_around (isSymmetric_identity_sub_outer (b - a).direction) a p
    (-(radius * radius))
  -- The component along the direction is what the matrix takes away.
  have hmatrix (u w : Vec3 ℝ) :
      w.dot ((Mat3.identity - Mat3.outer u u).apply w) = w.dot w - u.dot w ^ 2 := by
    simp only [Mat3.sub_eq, Mat3.outer, Mat3.identity_eq, Mat3.apply_eq, Vec3.scale_eq,
      Vec3.sub_eq, Vec3.dot_eq]
    ring
  have hdirection : (b - a).direction.dot (p - a) = (b - a).dot (p - a) / (b - a).length := by
    show ((b - a).dividedBy (b - a).length).dot (p - a) = _
    simp only [Vec3.dividedBy, Vec3.dot_eq]
    ring
  have hconstant (x : ℝ) : x - radius * radius = x + -(radius * radius) := sub_eq_add_neg _ _
  show QuadricForm.value ⟨_, _, _ - radius * radius⟩ p = _
  rw [hconstant, hvalue, hmatrix, hdirection]
  ring

/-! ### Coefficients -/

/-- The ten coefficients hold all of a surface whose matrix is symmetric. -/
theorem form_coefficients {f : QuadricForm ℝ} (h : f.matrix.IsSymmetric) :
    f.coefficients.form = f := by
  have hhalf (x : ℝ) : Scalar.half * (Scalar.two * x) = x := by
    rw [Scalar.half_eq, Scalar.two_eq]
    ring
  have hyx : f.matrix.first.y = f.matrix.second.x := congrArg (·.second.x) h
  have hzx : f.matrix.first.z = f.matrix.third.x := congrArg (·.third.x) h
  have hzy : f.matrix.second.z = f.matrix.third.y := congrArg (·.third.y) h
  ext <;> simp only [coefficients, Quadric.form, hhalf, hyx, hzx, hzy]

theorem isSymmetric_form (q : Quadric ℝ) : q.form.matrix.IsSymmetric := rfl

/-! ### Motions -/

/-- Turning a surface keeps its value at the points that are turned along. -/
theorem value_turned {r : Mat3 ℝ} (hr : r.IsOrthonormal) (m : Mat3 ℝ) (v p : Vec3 ℝ) (k : ℝ) :
    (⟨r * m * r.transpose, r.apply v, k⟩ : QuadricForm ℝ).value (r.apply p) =
      (⟨m, v, k⟩ : QuadricForm ℝ).value p := by
  show (r.apply p).dot ((r * m * r.transpose).apply (r.apply p)) +
    (r.apply v).dot (r.apply p) + k = p.dot (m.apply p) + v.dot p + k
  rw [Mat3.mul_apply, Mat3.mul_apply, hr.transpose_apply_apply, hr.dot_apply_apply,
    hr.dot_apply_apply]

/-- Shifting a surface keeps its value at the points that are shifted along. -/
theorem value_shifted {m : Mat3 ℝ} (hm : m.IsSymmetric) (v t p : Vec3 ℝ) (k : ℝ) :
    (⟨m, v - (m.scale Scalar.two).apply t, t.dot (m.apply t) - v.dot t + k⟩ :
        QuadricForm ℝ).value (p + t) = (⟨m, v, k⟩ : QuadricForm ℝ).value p := by
  have hmixed : t.dot (m.apply p) = p.dot (m.apply t) := by
    rw [← hm.dot_apply, Vec3.dot_comm]
  have hlinear (w : Vec3 ℝ) :
      ((m.scale Scalar.two).apply t).dot w = 2 * w.dot (m.apply t) := by
    rw [Mat3.scale_apply, Scalar.two_eq, Vec3.scale_dot, Vec3.dot_comm]
  show (p + t).dot (m.apply (p + t)) + (v - (m.scale Scalar.two).apply t).dot (p + t) +
    (t.dot (m.apply t) - v.dot t + k) = p.dot (m.apply p) + v.dot p + k
  rw [Vec3.dot_sub_left, hlinear, Mat3.apply_add]
  simp only [Vec3.dot_add_left, Vec3.dot_add_right, hmixed]
  ring

/-- Moving a surface by `x ↦ R x + t` keeps its value at the points that are moved along. -/
theorem value_moved {f : QuadricForm ℝ} (hf : f.matrix.IsSymmetric) {r : Mat3 ℝ}
    (hr : r.IsOrthonormal) (t p : Vec3 ℝ) :
    (f.moved r t).coefficients.form.value (r.apply p + t) = f.value p := by
  have hsymmetric : (f.moved r t).matrix.IsSymmetric := hf.turned r
  rw [form_coefficients hsymmetric]
  calc (f.moved r t).value (r.apply p + t)
      = (⟨r * f.matrix * r.transpose, r.apply f.vector, f.constant⟩ :
          QuadricForm ℝ).value (r.apply p) := value_shifted (hf.turned r) _ _ _ _
    _ = f.value p := value_turned hr _ _ _ _

end QuadricForm

end SerpentCsg
