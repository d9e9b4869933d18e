import SerpentCsg.Proofs.Checked.Scalar
import SerpentCsg.Surface.Kind

/-! # Divisions by Zero in Surfaces

  A surface is well-defined if nothing is divided by zero when its implicit function is evaluated
  and when its coefficients are worked out. Two kinds can fail to be: a torus whose tube
  has a half width with a square of zero, and a cylinder around the line through two points
  without a distance. All other surfaces are well-defined.
-/

namespace SerpentCsg

/-! ### Changing scalars -/

section Maps

variable {K L : Type} (f : K → L)

/-- The vector with every component changed. -/
def Vec2.map (v : Vec2 K) : Vec2 L := ⟨f v.x, f v.y⟩

/-- The vector with every component changed. -/
def Vec3.map (v : Vec3 K) : Vec3 L := ⟨f v.x, f v.y, f v.z⟩

/-- The matrix with every entry changed. -/
def Mat3.map (m : Mat3 K) : Mat3 L := ⟨m.first.map f, m.second.map f, m.third.map f⟩

/-- The quadric with every coefficient changed. -/
def Quadric.map (q : Quadric K) : Quadric L :=
  ⟨f q.xx, f q.yy, f q.zz, f q.xy, f q.yz, f q.xz, f q.x, f q.y, f q.z, f q.one⟩

/-- The form with every number changed. -/
def QuadricForm.map (q : QuadricForm K) : QuadricForm L :=
  ⟨q.matrix.map f, q.vector.map f, f q.constant⟩

/-- The surface with every number changed. -/
def SurfaceKind.map : SurfaceKind K → SurfaceKind L
  | .axisPlane axis offset => .axisPlane axis (f offset)
  | .plane normal offset => .plane (normal.map f) (f offset)
  | .axisCylinder axis centre radius => .axisCylinder axis (centre.map f) (f radius)
  | .cylinder p q radius => .cylinder (p.map f) (q.map f) (f radius)
  | .sphere centre radius => .sphere (centre.map f) (f radius)
  | .cone axis apex slope => .cone axis (apex.map f) (f slope)
  | .torus axis centre large tubeAlong tubeAcross =>
    .torus axis (centre.map f) (f large) (f tubeAlong) (f tubeAcross)
  | .quadric q => .quadric (q.map f)

end Maps

variable {K : Type} [Scalar K]

open Checked (defined undefined)

/-! ### Cylinders -/

section Cylinder

variable {p q : Vec3 K}

theorem direction_checked_of_ne (h : (p.length == 0) = false) :
    (p.map defined).direction = p.direction.map defined := by
  show Vec3.mk _ _ _ = _
  rw [Vec3.mk.injEq]
  exact ⟨Checked.div_of_ne h, Checked.div_of_ne h, Checked.div_of_ne h⟩

theorem direction_checked_of_eq (h : (p.length == 0) = true) :
    (p.map defined).direction = ⟨undefined, undefined, undefined⟩ := by
  show Vec3.mk _ _ _ = _
  rw [Vec3.mk.injEq]
  exact ⟨Checked.div_of_eq h, Checked.div_of_eq h, Checked.div_of_eq h⟩

/-- Two points with a distance have a cylinder around their line. -/
theorem cylinder_checked_of_ne (r : K) (h : ((q - p).length == 0) = false) :
    QuadricForm.cylinder (p.map defined) (q.map defined) (defined r) =
      (QuadricForm.cylinder p q r).map defined := by
  unfold QuadricForm.cylinder
  rw [show q.map defined - p.map defined = (q - p).map defined from rfl,
    direction_checked_of_ne h]
  rfl

/-- Nothing is left of the cylinder around two points without a distance. -/
theorem cylinder_checked_of_eq (r : K) (h : ((q - p).length == 0) = true) :
    QuadricForm.cylinder (p.map defined) (q.map defined) (defined r) =
      (QuadricForm.cylinder p q r).map fun _ => undefined := by
  unfold QuadricForm.cylinder
  rw [show q.map defined - p.map defined = (q - p).map defined from rfl,
    direction_checked_of_eq h]
  rfl

end Cylinder

namespace SurfaceKind

/-- The surface over checked scalars. -/
def checked (kind : SurfaceKind K) : SurfaceKind (Checked K) := kind.map defined

/-- The implicit function and the coefficients are worked out without a division by zero: over
    checked scalars they are what they are anyway. -/
structure WellDefined (kind : SurfaceKind K) : Prop where
  value : ∀ p : Vec3 K, kind.checked.value (p.map defined) = defined (kind.value p)
  coefficients : kind.checked.openmcCoefficients = kind.openmcCoefficients.map defined

/-- A torus whose tube has no width, or a cylinder around no line. -/
inductive Degenerate : SurfaceKind K → Prop where
  | torus {axis : Axis} {centre : Vec3 K} {large tubeAlong tubeAcross : K} :
      (tubeAlong * tubeAlong == 0) = true ∨ (tubeAcross * tubeAcross == 0) = true →
      Degenerate (.torus axis centre large tubeAlong tubeAcross)
  | cylinder {p q : Vec3 K} {radius : K} :
      ((q - p).length == 0) = true → Degenerate (.cylinder p q radius)

/-- Kinds of surfaces that can be degenerate. -/
def canDegenerate : SurfaceKind K → Bool
  | .torus _ _ _ _ _ | .cylinder _ _ _ => true
  | _ => false

theorem not_degenerate {kind : SurfaceKind K} (h : kind.canDegenerate = false) :
    ¬ kind.Degenerate := by
  intro hdegenerate
  cases hdegenerate <;> exact Bool.noConfusion h

theorem not_degenerate_of_all {kinds : List (SurfaceKind K)}
    (h : kinds.all (!·.canDegenerate) = true) : ∀ kind ∈ kinds, ¬ kind.Degenerate := by
  intro kind hkind
  have hcannot := List.all_eq_true.1 h kind hkind
  exact not_degenerate (by simpa using hcannot)

/-! ### Surfaces that divide by zero -/

/-- A degenerate surface has no value at any point. -/
theorem Degenerate.value_checked {kind : SurfaceKind K} (h : kind.Degenerate) (p : Vec3 K) :
    kind.checked.value (p.map defined) = undefined := by
  cases h with
  | @torus axis centre large tubeAlong tubeAcross hzero =>
    let d := p - centre
    let rho := Scalar.sqrt ((d.across axis).x * (d.across axis).x +
      (d.across axis).y * (d.across axis).y)
    have hvalue : (checked (.torus axis centre large tubeAlong tubeAcross)).value (p.map defined) =
        defined (d.along axis * d.along axis) / defined (tubeAlong * tubeAlong) +
          defined (Scalar.square (rho - large)) / defined (tubeAcross * tubeAcross) - 1 := by
      cases axis <;> rfl
    rw [hvalue]
    rcases hzero with hzero | hzero
    · rw [Checked.div_of_eq hzero]
      rfl
    · rw [Checked.div_of_eq hzero]
      cases (defined (d.along axis * d.along axis) / defined (tubeAlong * tubeAlong) : Checked K) <;>
        rfl
  | cylinder hzero =>
    simp only [checked, map, value]
    rw [cylinder_checked_of_eq _ hzero]
    rfl

/-! ### Surfaces that are well-defined -/

theorem wellDefined_torus {axis : Axis} {centre : Vec3 K} {large tubeAlong tubeAcross : K}
    (halong : (tubeAlong * tubeAlong == 0) = false)
    (hacross : (tubeAcross * tubeAcross == 0) = false) :
    WellDefined (.torus axis centre large tubeAlong tubeAcross) where
  value p := by
    have hdivisions (x y : K) :
        (defined x / defined (tubeAlong * tubeAlong) +
          defined y / defined (tubeAcross * tubeAcross) - 1 : Checked K) =
          defined (x / (tubeAlong * tubeAlong) + y / (tubeAcross * tubeAcross) - 1) := by
      rw [Checked.div_of_ne halong, Checked.div_of_ne hacross]
      rfl
    cases axis <;> exact hdivisions _ _
  coefficients := rfl

theorem wellDefined_cylinder {p q : Vec3 K} {radius : K}
    (h : ((q - p).length == 0) = false) : WellDefined (.cylinder p q radius) where
  value x := by
    simp only [checked, map, value]
    rw [cylinder_checked_of_ne _ h]
    rfl
  coefficients := by
    simp only [checked, map, openmcCoefficients]
    rw [cylinder_checked_of_ne _ h]
    rfl

theorem wellDefined_quadric (htwo : (Scalar.two == (0 : K)) = false) (q : Quadric K) :
    WellDefined (.quadric q) where
  value p := by
    have hform : (q.map defined).form = q.form.map defined := by
      unfold Quadric.form
      rw [Checked.half_eq htwo]
      rfl
    simp only [checked, map, value]
    rw [hform]
    rfl
  coefficients := rfl

/-- A surface is well-defined exactly if it is not degenerate. -/
theorem wellDefined_iff (htwo : (Scalar.two == (0 : K)) = false) {kind : SurfaceKind K} :
    kind.WellDefined ↔ ¬ kind.Degenerate := by
  constructor
  · intro h hzero
    have hvalue := h.value Vec3.zero
    rw [hzero.value_checked] at hvalue
    cases hvalue
  · intro h
    cases kind with
    | axisPlane axis offset => exact ⟨fun p => by cases axis <;> rfl, rfl⟩
    | plane normal offset => exact ⟨fun p => rfl, rfl⟩
    | axisCylinder axis centre radius => exact ⟨fun p => by cases axis <;> rfl, rfl⟩
    | cylinder p q radius =>
      exact wellDefined_cylinder (Bool.eq_false_iff.2 fun hzero => h (.cylinder hzero))
    | sphere centre radius => exact ⟨fun p => rfl, rfl⟩
    | cone axis apex slope => exact ⟨fun p => by cases axis <;> rfl, rfl⟩
    | torus axis centre large tubeAlong tubeAcross =>
      exact wellDefined_torus (Bool.eq_false_iff.2 fun hzero => h (.torus (.inl hzero)))
        (Bool.eq_false_iff.2 fun hzero => h (.torus (.inr hzero)))
    | quadric q => exact wellDefined_quadric htwo q

end SurfaceKind

end SerpentCsg
