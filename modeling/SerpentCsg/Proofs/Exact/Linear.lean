import Mathlib.LinearAlgebra.Matrix.NonsingularInverse
import Mathlib.LinearAlgebra.Matrix.Notation
import Mathlib.Tactic.FinCases
import Mathlib.Tactic.LinearCombination
import SerpentCsg.Linear.Matrix
import SerpentCsg.Proofs.Exact.Real

/-! # Exact Vectors and Matrices

  Vectors and matrices over the real numbers obey the laws of linear algebra. A matrix is
  orthonormal if its product with its transpose is the identity; then so is the product the
  other way around, and the matrix keeps inner products and lengths.

  A rotation by three angles is orthonormal whatever the angles are.
-/

namespace SerpentCsg

attribute [ext] Vec2 Vec3 Mat3

/-! ### Vectors -/

theorem Vec2.sub_eq (v w : Vec2 ℝ) : v - w = ⟨v.x - w.x, v.y - w.y⟩ := rfl

namespace Vec3

theorem add_eq (v w : Vec3 ℝ) : v + w = ⟨v.x + w.x, v.y + w.y, v.z + w.z⟩ := rfl

theorem sub_eq (v w : Vec3 ℝ) : v - w = ⟨v.x - w.x, v.y - w.y, v.z - w.z⟩ := rfl

theorem dot_eq (v w : Vec3 ℝ) : v.dot w = v.x * w.x + v.y * w.y + v.z * w.z := rfl

theorem zero_eq : (zero : Vec3 ℝ) = ⟨0, 0, 0⟩ := rfl

theorem scale_eq (a : ℝ) (v : Vec3 ℝ) : v.scale a = ⟨a * v.x, a * v.y, a * v.z⟩ := rfl

@[simp] protected theorem sub_zero (v : Vec3 ℝ) : v - zero = v := by
  ext <;> simp only [sub_eq, zero_eq] <;> ring

@[simp] protected theorem add_zero (v : Vec3 ℝ) : v + zero = v := by
  ext <;> simp only [add_eq, zero_eq] <;> ring

theorem add_sub_add_right (v w t : Vec3 ℝ) : (v + t) - (w + t) = v - w := by
  ext <;> simp only [add_eq, sub_eq] <;> ring

theorem dot_comm (v w : Vec3 ℝ) : v.dot w = w.dot v := by
  simp only [dot_eq]
  ring

theorem dot_add_left (u v w : Vec3 ℝ) : (u + v).dot w = u.dot w + v.dot w := by
  simp only [dot_eq, add_eq]
  ring

theorem dot_add_right (u v w : Vec3 ℝ) : u.dot (v + w) = u.dot v + u.dot w := by
  simp only [dot_eq, add_eq]
  ring

theorem dot_sub_left (u v w : Vec3 ℝ) : (u - v).dot w = u.dot w - v.dot w := by
  simp only [dot_eq, sub_eq]
  ring

theorem dot_sub_right (u v w : Vec3 ℝ) : u.dot (v - w) = u.dot v - u.dot w := by
  simp only [dot_eq, sub_eq]
  ring

theorem scale_dot (a : ℝ) (v w : Vec3 ℝ) : (v.scale a).dot w = a * v.dot w := by
  simp only [dot_eq, scale_eq]
  ring

/-- An inner product, taken apart along and across an axis. -/
theorem dot_eq_along_across (axis : Axis) (v w : Vec3 ℝ) :
    v.dot w = v.along axis * w.along axis +
      ((v.across axis).x * (w.across axis).x + (v.across axis).y * (w.across axis).y) := by
  cases axis <;> simp only [dot_eq, along, across] <;> ring

/-- The component along an axis is the inner product with its unit vector. -/
theorem unit_dot (axis : Axis) (v : Vec3 ℝ) : (unit axis).dot v = v.along axis := by
  have hx : (1 : ℝ) * v.x + 0 * v.y + 0 * v.z = v.x := by ring
  have hy : (0 : ℝ) * v.x + 1 * v.y + 0 * v.z = v.y := by ring
  have hz : (0 : ℝ) * v.x + 0 * v.y + 1 * v.z = v.z := by ring
  cases axis
  · exact hx
  · exact hy
  · exact hz

theorem along_unit (axis : Axis) : (unit axis : Vec3 ℝ).along axis = 1 := by
  cases axis <;> rfl

theorem dot_self_nonneg (v : Vec3 ℝ) : 0 ≤ v.dot v := by
  rw [dot_eq]
  have hx := mul_self_nonneg v.x
  have hy := mul_self_nonneg v.y
  have hz := mul_self_nonneg v.z
  linarith

theorem length_eq (v : Vec3 ℝ) : v.length = Real.sqrt (v.dot v) := rfl

theorem length_unit (axis : Axis) : (unit axis : Vec3 ℝ).length = 1 := by
  rw [length_eq, unit_dot, along_unit, Real.sqrt_one]

/-! ### Directions along an axis -/

/-- A vector that points along an axis has nothing across it, and its length with the sign of the
    direction is what it has along it. -/
theorem axis?_eq_some {v : Vec3 ℝ} {axis : Axis} {s : ℝ} (h : v.axis? = some (axis, s)) :
    v.across axis = ⟨0, 0⟩ ∧ v.along axis = s ∧ s ≠ 0 := by
  unfold axis? at h
  dsimp only at h
  split at h
  · simp at h
  · next hlength =>
    have hlength : v.length ≠ 0 := by simpa using hlength
    obtain ⟨found, hfound, heq⟩ := Option.map_eq_some_iff.1 h
    obtain ⟨rfl, rfl⟩ := Prod.mk.inj heq
    have hlies := List.find?_some hfound
    simp only [Bool.and_eq_true, Scalar.isNegligible_iff] at hlies
    obtain ⟨⟨hfirst, hsecond⟩, -⟩ := hlies
    have hdiv (axis : Axis) : (v.dividedBy v.length).across axis =
          ⟨(v.across axis).x / v.length, (v.across axis).y / v.length⟩ ∧
        (v.dividedBy v.length).along axis = v.along axis / v.length := by
      cases axis <;> exact ⟨rfl, rfl⟩
    obtain ⟨hacross, halong⟩ := hdiv found
    rw [hacross] at hfirst hsecond
    have hx : (v.across found).x = 0 := (div_eq_zero_iff.1 hfirst).resolve_right hlength
    have hy : (v.across found).y = 0 := (div_eq_zero_iff.1 hsecond).resolve_right hlength
    -- With nothing across the axis, the length is the magnitude of the component along it.
    have habs : v.length = |v.along found| := by
      rw [length_eq, dot_eq_along_across found, hx, hy, mul_zero, add_zero, add_zero]
      exact Real.sqrt_mul_self_eq_abs _
    have hne : v.along found ≠ 0 := by
      intro hzero
      rw [hzero, abs_zero] at habs
      exact hlength habs
    have hsign : Scalar.signum (v.along found / |v.along found|) * |v.along found| =
        v.along found := by
      show (if v.along found / |v.along found| < 0 then (-1 : ℝ) else 1) * |v.along found| = _
      rcases lt_or_gt_of_ne hne with hneg | hpos
      · rw [if_pos (div_neg_of_neg_of_pos hneg (abs_pos.2 hne)), abs_of_neg hneg]
        ring
      · rw [if_neg (not_lt.2 (div_nonneg hpos.le (abs_nonneg _))), abs_of_pos hpos]
        ring
    rw [halong, habs, hsign]
    exact ⟨Vec2.ext hx hy, rfl, hne⟩

/-- A vector is a multiple of the unit vector of an axis, in the one direction or the other. -/
def LiesAlong (v : Vec3 ℝ) (axis : Axis) : Prop := ∃ s : ℝ, s ≠ 0 ∧ v = (unit axis).scale s

theorem along_scale_unit (axis : Axis) (s : ℝ) : ((unit axis).scale s).along axis = s := by
  cases axis <;> exact mul_one s

theorem across_scale_unit (axis : Axis) (s : ℝ) :
    ((unit axis).scale s).across axis = ⟨0, 0⟩ := by
  cases axis <;> exact Vec2.ext (mul_zero s) (mul_zero s)

/-- An axis is found exactly for the vectors that lie along one. -/
theorem axis?_eq_none_iff {v : Vec3 ℝ} : v.axis? = none ↔ ∀ axis, ¬ v.LiesAlong axis := by
  constructor
  · intro hnone axis hlies
    obtain ⟨s, hs, rfl⟩ := hlies
    have hlength : ((unit axis).scale s).length = |s| := by
      rw [length_eq, scale_dot, unit_dot, along_scale_unit]
      exact Real.sqrt_mul_self_eq_abs s
    have hpos : |s| ≠ 0 := abs_ne_zero.2 hs
    unfold axis? at hnone
    simp only [hlength, Scalar.isNegligible_iff, hpos, if_false, Option.map_eq_none_iff,
      List.find?_eq_none] at hnone
    -- The axis is among those that are tried, and it would have been taken.
    refine hnone axis (Axis.mem_all axis) ?_
    have hdiv : ((unit axis).scale s).dividedBy |s| = (unit axis).scale (s / |s|) := by
      cases axis <;> ext <;> simp only [dividedBy, scale_eq, unit] <;> ring
    have hone : Scalar.abs (s / |s|) - 1 = 0 := by
      show abs (s / |s|) - 1 = 0
      rw [abs_div, abs_abs, div_self hpos, sub_self]
    rw [hdiv, across_scale_unit, along_scale_unit, hone]
    simp
  · intro hnot
    by_contra hsome
    obtain ⟨⟨axis, s⟩, haxis⟩ := Option.ne_none_iff_exists'.1 hsome
    obtain ⟨hacross, halong, hne⟩ := axis?_eq_some haxis
    have hv : v = (unit axis).scale s := by
      rw [← ofAxis_along_across v axis, hacross, halong]
      cases axis <;> ext <;> simp only [ofAxis, scale_eq, unit] <;> ring
    exact hnot axis ⟨s, hne, hv⟩

end Vec3

/-! ### Matrices -/

namespace Mat3

theorem apply_eq (m : Mat3 ℝ) (v : Vec3 ℝ) :
    m.apply v = ⟨m.first.dot v, m.second.dot v, m.third.dot v⟩ := rfl

theorem mul_eq (m n : Mat3 ℝ) :
    m * n = ⟨⟨m.first.dot n.transpose.first, m.first.dot n.transpose.second,
        m.first.dot n.transpose.third⟩,
      ⟨m.second.dot n.transpose.first, m.second.dot n.transpose.second,
        m.second.dot n.transpose.third⟩,
      ⟨m.third.dot n.transpose.first, m.third.dot n.transpose.second,
        m.third.dot n.transpose.third⟩⟩ := rfl

theorem sub_eq (m n : Mat3 ℝ) :
    m - n = ⟨m.first - n.first, m.second - n.second, m.third - n.third⟩ := rfl

theorem identity_eq : (identity : Mat3 ℝ) = ⟨⟨1, 0, 0⟩, ⟨0, 1, 0⟩, ⟨0, 0, 1⟩⟩ := rfl

@[simp] theorem identity_apply (v : Vec3 ℝ) : identity.apply v = v := by
  have hunit (axis : Axis) : (Vec3.unit axis).dot v = v.along axis := Vec3.unit_dot axis v
  ext
  · exact hunit .x
  · exact hunit .y
  · exact hunit .z

@[simp] theorem identity_transpose : (identity : Mat3 ℝ).transpose = identity := rfl

/-- A product is applied factor by factor, the right one first. -/
theorem mul_apply (m n : Mat3 ℝ) (v : Vec3 ℝ) : (m * n).apply v = m.apply (n.apply v) := by
  ext <;> simp only [apply_eq, mul_eq, transpose, Vec3.dot_eq] <;> ring

@[simp] theorem apply_zero (m : Mat3 ℝ) : m.apply .zero = .zero := by
  ext <;> simp only [apply_eq, Vec3.dot_eq, Vec3.zero_eq] <;> ring

theorem apply_add (m : Mat3 ℝ) (v w : Vec3 ℝ) : m.apply (v + w) = m.apply v + m.apply w := by
  ext <;> simp only [apply_eq, Vec3.dot_eq, Vec3.add_eq] <;> ring

theorem apply_sub (m : Mat3 ℝ) (v w : Vec3 ℝ) : m.apply (v - w) = m.apply v - m.apply w := by
  ext <;> simp only [apply_eq, Vec3.dot_eq, Vec3.sub_eq] <;> ring

theorem scale_apply (a : ℝ) (m : Mat3 ℝ) (v : Vec3 ℝ) :
    (m.scale a).apply v = (m.apply v).scale a := by
  ext <;> simp only [apply_eq, scale, Vec3.dot_eq, Vec3.scale_eq] <;> ring

/-- The transpose moves a matrix to the other side of an inner product. -/
theorem transpose_apply_dot (m : Mat3 ℝ) (v w : Vec3 ℝ) :
    (m.transpose.apply v).dot w = v.dot (m.apply w) := by
  simp only [apply_eq, transpose, Vec3.dot_eq]
  ring

theorem transpose_mul (m n : Mat3 ℝ) : (m * n).transpose = n.transpose * m.transpose := by
  ext <;> simp only [mul_eq, transpose, Vec3.dot_eq] <;> ring

/-! ### Orthonormal matrices -/

/-- The rows are orthogonal and of length one. -/
def IsOrthonormal (m : Mat3 ℝ) : Prop := m * m.transpose = identity

/-- The matrix with its entries under indices. -/
def toMatrix (m : Mat3 ℝ) : Matrix (Fin 3) (Fin 3) ℝ :=
  !![m.first.x, m.first.y, m.first.z; m.second.x, m.second.y, m.second.z;
    m.third.x, m.third.y, m.third.z]

theorem toMatrix_injective : Function.Injective toMatrix := by
  intro m n h
  have hentry (i j : Fin 3) : m.toMatrix i j = n.toMatrix i j := by rw [h]
  ext
  · exact hentry 0 0
  · exact hentry 0 1
  · exact hentry 0 2
  · exact hentry 1 0
  · exact hentry 1 1
  · exact hentry 1 2
  · exact hentry 2 0
  · exact hentry 2 1
  · exact hentry 2 2

theorem toMatrix_mul (m n : Mat3 ℝ) : (m * n).toMatrix = m.toMatrix * n.toMatrix := by
  ext i j
  rw [Matrix.mul_apply, Fin.sum_univ_three]
  fin_cases i <;> fin_cases j <;> rfl

theorem toMatrix_identity : (identity : Mat3 ℝ).toMatrix = 1 := by
  ext i j
  fin_cases i <;> fin_cases j <;> rfl

theorem isOrthonormal_identity : (identity : Mat3 ℝ).IsOrthonormal := by
  unfold IsOrthonormal
  rw [identity_transpose]
  ext <;> simp only [identity_eq, mul_eq, transpose, Vec3.dot_eq] <;> ring

namespace IsOrthonormal

variable {m : Mat3 ℝ}

/-- The columns are orthonormal if the rows are. -/
theorem transpose_mul_self (h : m.IsOrthonormal) : m.transpose * m = identity := by
  apply toMatrix_injective
  have hrows : m.toMatrix * m.transpose.toMatrix = 1 := by
    rw [← toMatrix_mul, h, toMatrix_identity]
  rw [toMatrix_mul, toMatrix_identity]
  exact mul_eq_one_comm.1 hrows

theorem transpose_apply_apply (h : m.IsOrthonormal) (v : Vec3 ℝ) :
    m.transpose.apply (m.apply v) = v := by
  rw [← mul_apply, h.transpose_mul_self, identity_apply]

theorem dot_apply_apply (h : m.IsOrthonormal) (v w : Vec3 ℝ) :
    (m.apply v).dot (m.apply w) = v.dot w := by
  rw [← transpose_apply_dot, h.transpose_apply_apply]

theorem length_apply (h : m.IsOrthonormal) (v : Vec3 ℝ) : (m.apply v).length = v.length := by
  rw [Vec3.length_eq, Vec3.length_eq, h.dot_apply_apply]

end IsOrthonormal

theorem isOrthonormal_ofAngles (roll pitch yaw : ℝ) : (ofAngles roll pitch yaw).IsOrthonormal := by
  have hr : Real.sin roll ^ 2 + Real.cos roll ^ 2 = 1 := Real.sin_sq_add_cos_sq roll
  have hp : Real.sin pitch ^ 2 + Real.cos pitch ^ 2 = 1 := Real.sin_sq_add_cos_sq pitch
  have hy : Real.sin yaw ^ 2 + Real.cos yaw ^ 2 = 1 := Real.sin_sq_add_cos_sq yaw
  unfold IsOrthonormal ofAngles
  simp only [show (Scalar.sin : ℝ → ℝ) = Real.sin from rfl,
    show (Scalar.cos : ℝ → ℝ) = Real.cos from rfl]
  generalize Real.sin roll = sr, Real.cos roll = cr, Real.sin pitch = sp, Real.cos pitch = cp,
    Real.sin yaw = sy, Real.cos yaw = cy at hr hp hy
  rw [identity_eq]
  -- Each entry is a combination of the three identities, the roll first.
  ext <;> simp only [mul_eq, transpose, Vec3.dot_eq]
  · linear_combination (cy ^ 2 * sp ^ 2 + sy ^ 2) * hr + cy ^ 2 * hp + hy
  · linear_combination (cy * sy * sp ^ 2 - cy * sy) * hr + cy * sy * hp
  · linear_combination cy * sp * cp * hr
  · linear_combination (cy * sy * sp ^ 2 - cy * sy) * hr + cy * sy * hp
  · linear_combination (sy ^ 2 * sp ^ 2 + cy ^ 2) * hr + sy ^ 2 * hp + hy
  · linear_combination sy * sp * cp * hr
  · linear_combination cy * sp * cp * hr
  · linear_combination sy * sp * cp * hr
  · linear_combination cp ^ 2 * hr + hp

end Mat3

end SerpentCsg
