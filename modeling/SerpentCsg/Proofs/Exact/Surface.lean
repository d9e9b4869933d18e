import SerpentCsg.Proofs.Exact.Quadric
import SerpentCsg.Surface.Motion

/-! # Exact Motions of Surfaces

  A surface that is moved exactly is the image of the surface that it was: the sides of the one
  are taken to the sides of the other. This holds of every kind of surface, whether it stays of its
  kind, is brought back to a coordinate axis or becomes a quadric.

  The values themselves are kept but for a positive factor, which comes from planes that
  are brought back to an axis.

  Every surface can be shifted. What cannot be turned is a torus whose axis leaves the coordinate
  axes, and nothing else.
-/

namespace SerpentCsg.SurfaceKind

open QuadricForm (value_cylinder value_moved)

/-! ### Images -/

/-- At the point that `g` takes a point to, the second surface has a positive multiple of the value
    of the first surface at that point. -/
def IsImage (g : Vec3 ℝ → Vec3 ℝ) (kind kind' : SurfaceKind ℝ) : Prop :=
  ∃ a : ℝ, 0 < a ∧ ∀ p, kind'.value (g p) = a * kind.value p

variable {g h : Vec3 ℝ → Vec3 ℝ} {kind kind' kind'' : SurfaceKind ℝ}

theorem isImage_of_eq (heq : ∀ p, kind'.value (g p) = kind.value p) : IsImage g kind kind' :=
  ⟨1, one_pos, fun p => (heq p).trans (one_mul _).symm⟩

theorem IsImage.comp (hg : IsImage g kind kind') (hh : IsImage h kind' kind'') :
    IsImage (fun p => h (g p)) kind kind'' := by
  obtain ⟨a, ha, hg⟩ := hg
  obtain ⟨b, hb, hh⟩ := hh
  refine ⟨b * a, mul_pos hb ha, fun p => ?_⟩
  rw [hh, hg, mul_assoc]

/-- A point is on the negative side of a surface if its image is on that of the image. -/
theorem IsImage.value_neg_iff (hg : IsImage g kind kind') (p : Vec3 ℝ) :
    kind'.value (g p) < 0 ↔ kind.value p < 0 := by
  obtain ⟨a, ha, hg⟩ := hg
  rw [hg, mul_neg_iff]
  constructor
  · rintro (⟨-, hneg⟩ | ⟨hneg, -⟩)
    · exact hneg
    · exact absurd ha hneg.not_gt
  · exact fun hneg => .inl ⟨ha, hneg⟩

/-! ### Values -/

theorem value_axisPlane (axis : Axis) (offset : ℝ) (p : Vec3 ℝ) :
    (axisPlane axis offset).value p = p.along axis - offset := rfl

theorem value_plane (n : Vec3 ℝ) (offset : ℝ) (p : Vec3 ℝ) :
    (plane n offset).value p = n.dot p - offset := rfl

/-- The part of a vector across an axis has what its square has beyond the part along the axis. -/
theorem across_square_eq (v : Vec3 ℝ) (axis : Axis) :
    (v.across axis).x ^ 2 + (v.across axis).y ^ 2 = v.dot v - v.along axis ^ 2 := by
  rw [Vec3.dot_eq_along_across axis]
  ring

theorem value_axisCylinder (axis : Axis) (centre : Vec2 ℝ) (radius : ℝ) (p : Vec3 ℝ) :
    (axisCylinder axis centre radius).value p =
      (p.across axis - centre).x ^ 2 + (p.across axis - centre).y ^ 2 - radius ^ 2 := by
  simp only [pow_two]
  rfl

theorem value_sphere (centre : Vec3 ℝ) (radius : ℝ) (p : Vec3 ℝ) :
    (sphere centre radius).value p = (p - centre).dot (p - centre) - radius ^ 2 := by
  rw [pow_two]
  rfl

/-- The value of a cone is that of the quadric that it is. -/
theorem value_cone (axis : Axis) (apex : Vec3 ℝ) (slope : ℝ) (p : Vec3 ℝ) :
    (cone axis apex slope).value p =
      (QuadricForm.centred (.ofAxis axis (-slope) ⟨1, 1⟩) apex 0).value p := by
  rw [QuadricForm.value_centred]
  cases axis <;>
    simp only [value, Vec3.across, Vec3.along, Vec3.ofAxis, Vec3.sub_eq, Scalar.square_eq] <;> ring

/-- The value of a torus depends on the squares of the parts along its axis and across it only. -/
theorem torusValue_congr {along along' : ℝ} {across across' : Vec2 ℝ}
    (halong : along' ^ 2 = along ^ 2)
    (hacross : across'.x ^ 2 + across'.y ^ 2 = across.x ^ 2 + across.y ^ 2)
    (large tubeAlong tubeAcross : ℝ) :
    torusValue along' across' large tubeAlong tubeAcross =
      torusValue along across large tubeAlong tubeAcross := by
  unfold torusValue
  simp only [← pow_two, halong, hacross]

/-! ### Shifts -/

/-- A surface that is shifted keeps its value at the points that are shifted along. -/
theorem value_shifted (kind : SurfaceKind ℝ) (t p : Vec3 ℝ) :
    (kind.shifted t).value (p + t) = kind.value p := by
  have hacross (axis : Axis) (centre : Vec2 ℝ) :
      (p + t).across axis - (centre + t.across axis) = p.across axis - centre := by
    cases axis <;> exact Vec2.ext (add_sub_add_right_eq_sub _ _ _) (add_sub_add_right_eq_sub _ _ _)
  cases kind with
  | axisPlane axis offset =>
    cases axis <;> exact add_sub_add_right_eq_sub _ _ _
  | plane n offset =>
    show n.dot (p + t) - (offset + n.dot t) = n.dot p - offset
    rw [Vec3.dot_add_right]
    ring
  | axisCylinder axis centre radius =>
    simp only [shifted, value_axisCylinder, hacross]
  | cylinder a b radius =>
    simp only [shifted, value, value_cylinder, Vec3.add_sub_add_right]
  | sphere centre radius =>
    simp only [shifted, value_sphere, Vec3.add_sub_add_right]
  | cone axis apex slope =>
    simp only [shifted, value, Vec3.add_sub_add_right]
  | torus axis centre large tubeAlong tubeAcross =>
    simp only [shifted, value, Vec3.add_sub_add_right]
  | quadric q =>
    have hmoved := value_moved (QuadricForm.isSymmetric_form q) Mat3.isOrthonormal_identity t p
    rwa [Mat3.identity_apply] at hmoved

theorem isImage_shifted (kind : SurfaceKind ℝ) (t : Vec3 ℝ) :
    IsImage (· + t) kind (kind.shifted t) :=
  isImage_of_eq (kind.value_shifted t)

/-! ### Reduction to an axis -/

/-- A plane that is brought back to an axis keeps its sides. -/
theorem value_ofNormal (n : Vec3 ℝ) (d : ℝ) :
    ∃ a : ℝ, 0 < a ∧ ∀ p, (ofNormal n d).value p = a * (n.dot p - d) := by
  unfold ofNormal
  split
  · next axis s haxis =>
    obtain ⟨hacross, halong, -⟩ := Vec3.axis?_eq_some haxis
    split
    · next hpos =>
      have hpos : 0 < s := hpos
      refine ⟨1 / s, by positivity, fun p => ?_⟩
      rw [value_axisPlane, Vec3.dot_eq_along_across axis, hacross, halong]
      field_simp
      ring
    · exact ⟨1, one_pos, fun p => (one_mul _).symm⟩
  · exact ⟨1, one_pos, fun p => (one_mul _).symm⟩

/-- A cylinder that is brought back to an axis is the same surface. -/
theorem value_ofLine (a b : Vec3 ℝ) (radius : ℝ) (p : Vec3 ℝ) :
    (ofLine a b radius).value p = (cylinder a b radius).value p := by
  unfold ofLine
  split
  · next axis s haxis =>
    obtain ⟨hacross, halong, hne⟩ := Vec3.axis?_eq_some haxis
    have hdot (w : Vec3 ℝ) : (b - a).dot w = s * w.along axis := by
      rw [Vec3.dot_eq_along_across axis, hacross, halong]
      ring
    -- Only the square of the length matters, which is that of the part along the axis.
    have hlength : (b - a).length ^ 2 = s ^ 2 := by
      rw [Vec3.length_eq, Real.sq_sqrt (Vec3.dot_self_nonneg _), hdot, halong]
      ring
    have hpart : ((b - a).dot (p - a) / (b - a).length) ^ 2 = (p - a).along axis ^ 2 := by
      rw [div_pow, hlength, hdot]
      field_simp
    have hsquare := across_square_eq (p - a) axis
    have hsub : p.across axis - a.across axis = (p - a).across axis := by
      cases axis <;> rfl
    show _ = (QuadricForm.cylinder a b radius).value p
    rw [value_axisCylinder, value_cylinder, hpart, hsub, hsquare]
  · rfl

/-! ### Rotations -/

variable {r : Mat3 ℝ}

theorem value_cylinder_apply (hr : r.IsOrthonormal) (a b p : Vec3 ℝ) (radius : ℝ) :
    (cylinder (r.apply a) (r.apply b) radius).value (r.apply p) =
      (cylinder a b radius).value p := by
  simp only [value, value_cylinder, ← Mat3.apply_sub, hr.dot_apply_apply, hr.length_apply]

/-- An axis cylinder is the cylinder around a line along the axis. -/
theorem value_axisCylinder_eq (axis : Axis) (centre : Vec2 ℝ) (radius : ℝ) (p : Vec3 ℝ) :
    (cylinder (.ofAxis axis 0 centre) (.ofAxis axis 1 centre) radius).value p =
      (axisCylinder axis centre radius).value p := by
  have hunit : (Vec3.ofAxis axis 1 centre : Vec3 ℝ) - .ofAxis axis 0 centre = .unit axis := by
    cases axis <;> ext <;> simp only [Vec3.ofAxis, Vec3.sub_eq, Vec3.unit] <;> ring
  have hsub : (p - .ofAxis axis 0 centre).across axis = p.across axis - centre := by
    cases axis <;> rfl
  show (QuadricForm.cylinder _ _ radius).value p = _
  rw [value_cylinder, value_axisCylinder, hunit, Vec3.unit_dot, Vec3.length_unit, div_one, ← hsub,
    across_square_eq]

/-- A torus whose axis is turned onto a coordinate axis keeps its value at the points that are
    turned along. -/
theorem value_torus_apply (hr : r.IsOrthonormal) {axis axis' : Axis} {s : ℝ}
    (haxis : (r.apply (.unit axis)).axis? = some (axis', s)) (centre p : Vec3 ℝ)
    (large tubeAlong tubeAcross : ℝ) :
    (torus axis' (r.apply centre) large tubeAlong tubeAcross).value (r.apply p) =
      (torus axis centre large tubeAlong tubeAcross).value p := by
  obtain ⟨hacross, halong, -⟩ := Vec3.axis?_eq_some haxis
  have hdot (w : Vec3 ℝ) : (r.apply (.unit axis)).dot w = s * w.along axis' := by
    rw [Vec3.dot_eq_along_across axis', hacross, halong]
    ring
  -- The image of the axis has length one, so the factor is one or minus one.
  have hs : s ^ 2 = 1 := by
    have hself := hr.dot_apply_apply (.unit axis) (.unit axis)
    rw [hdot, halong, Vec3.unit_dot, Vec3.along_unit] at hself
    linarith
  have hpart (w : Vec3 ℝ) : (r.apply w).along axis' ^ 2 = w.along axis ^ 2 := by
    have himage := hr.dot_apply_apply (.unit axis) w
    rw [hdot, Vec3.unit_dot] at himage
    rw [← himage, mul_pow, hs, one_mul]
  show torusValue ((r.apply p - r.apply centre).along axis') _ large tubeAlong tubeAcross =
    torusValue ((p - centre).along axis) _ large tubeAlong tubeAcross
  rw [← Mat3.apply_sub]
  refine torusValue_congr (hpart _) ?_ large tubeAlong tubeAcross
  rw [across_square_eq, across_square_eq, hr.dot_apply_apply, hpart]

/-- A surface that is turned is the image of what it was. -/
theorem isImage_rotated (hr : r.IsOrthonormal) (hkind : kind.rotated? r = some kind') :
    IsImage r.apply kind kind' := by
  -- A plane of any kind is turned by turning its normal.
  have hplane (n : Vec3 ℝ) (d : ℝ) (hvalue : ∀ p, kind.value p = n.dot p - d) :
      IsImage r.apply kind (ofNormal (r.apply n) d) := by
    obtain ⟨a, ha, hnormal⟩ := value_ofNormal (r.apply n) d
    refine ⟨a, ha, fun p => ?_⟩
    rw [hnormal, hr.dot_apply_apply, hvalue]
  -- A surface of the second order is turned in its matrix form.
  have hform (f : QuadricForm ℝ) (hf : f.matrix.IsSymmetric)
      (hvalue : ∀ p, kind.value p = f.value p) :
      IsImage r.apply kind (quadric (f.moved r .zero).coefficients) := by
    refine isImage_of_eq fun p => ?_
    have hmoved := value_moved hf hr .zero p
    rw [Vec3.add_zero] at hmoved
    exact hmoved.trans (hvalue p).symm
  cases kind with
  | axisPlane axis offset =>
    obtain rfl := Option.some.inj hkind
    exact hplane (.unit axis) offset fun p => by rw [value_axisPlane, Vec3.unit_dot]
  | plane n offset =>
    obtain rfl := Option.some.inj hkind
    exact hplane n offset (value_plane n offset)
  | axisCylinder axis centre radius =>
    obtain rfl := Option.some.inj hkind
    refine isImage_of_eq fun p => ?_
    rw [value_ofLine, value_cylinder_apply hr, value_axisCylinder_eq]
  | cylinder a b radius =>
    obtain rfl := Option.some.inj hkind
    exact isImage_of_eq fun p => value_cylinder_apply hr a b p radius
  | sphere centre radius =>
    obtain rfl := Option.some.inj hkind
    refine isImage_of_eq fun p => ?_
    rw [value_sphere, value_sphere, ← Mat3.apply_sub, hr.dot_apply_apply]
  | cone axis apex slope =>
    obtain rfl := Option.some.inj hkind
    exact hform _ (Mat3.isSymmetric_diagonal _) (value_cone axis apex slope)
  | torus axis centre large tubeAlong tubeAcross =>
    obtain ⟨⟨axis', s⟩, haxis, rfl⟩ := Option.map_eq_some_iff.1 hkind
    exact isImage_of_eq fun p => value_torus_apply hr haxis centre p large tubeAlong tubeAcross
  | quadric q =>
    obtain rfl := Option.some.inj hkind
    exact hform q.form (QuadricForm.isSymmetric_form q) fun _ => rfl

/-! ### What cannot be turned -/

/-- A torus is refused exactly if its axis is carried onto no coordinate axis, and no other kind
    ever is. -/
theorem rotated?_eq_none_iff :
    kind.rotated? r = none ↔
      ∃ axis centre large tubeAlong tubeAcross,
        kind = torus axis centre large tubeAlong tubeAcross ∧
        ∀ axis', ¬ (r.apply (.unit axis)).LiesAlong axis' := by
  cases kind with
  | torus axis centre large tubeAlong tubeAcross =>
    have hnone : (torus axis centre large tubeAlong tubeAcross).rotated? r = none ↔
        ∀ axis', ¬ (r.apply (.unit axis)).LiesAlong axis' := by
      rw [rotated?, Option.map_eq_none_iff, Vec3.axis?_eq_none_iff]
    rw [hnone]
    constructor
    · intro hlies
      exact ⟨axis, centre, large, tubeAlong, tubeAcross, rfl, hlies⟩
    · intro htorus
      obtain ⟨_, _, _, _, _, heq, hlies⟩ := htorus
      cases heq
      exact hlies
  | _ => simp [rotated?, form?]

/-- Motions of surfaces are exact: a shifted surface has the same value at the shifted point, a
    turned surface has a positive multiple of the value at the turned point and so the same
    sides, and only a torus whose axis leaves the coordinate axes cannot be turned. -/
theorem value_moved_exactly (kind : SurfaceKind ℝ) :
    (∀ t p, (kind.shifted t).value (p + t) = kind.value p) ∧
    ∀ r : Mat3 ℝ, r.IsOrthonormal →
      (∀ kind', kind.rotated? r = some kind' →
        (∃ a : ℝ, 0 < a ∧ ∀ p, kind'.value (r.apply p) = a * kind.value p) ∧
        ∀ p, kind'.value (r.apply p) < 0 ↔ kind.value p < 0) ∧
      (kind.rotated? r = none ↔
        ∃ axis centre large tubeAlong tubeAcross,
          kind = torus axis centre large tubeAlong tubeAcross ∧
          ∀ axis', ¬ (r.apply (.unit axis)).LiesAlong axis') := by
  refine ⟨kind.value_shifted, fun r hr => ⟨fun kind' hkind => ?_, rotated?_eq_none_iff⟩⟩
  have himage : IsImage r.apply kind kind' := isImage_rotated hr hkind
  exact ⟨himage, himage.value_neg_iff⟩

/-- Rotation about the x axis with the sines and cosines of a right triangle of sides three, four
    and five. -/
noncomputable def tilt : Mat3 ℝ := ⟨⟨1, 0, 0⟩, ⟨0, 3 / 5, -(4 / 5)⟩, ⟨0, 4 / 5, 3 / 5⟩⟩

theorem isOrthonormal_tilt : tilt.IsOrthonormal := by
  unfold Mat3.IsOrthonormal
  rw [Mat3.identity_eq]
  ext <;> simp only [tilt, Mat3.mul_eq, Mat3.transpose, Vec3.dot_eq] <;> norm_num

/-- The tilt takes a cone to a quadric with the same sides, and a torus around z to nothing. -/
theorem value_moved_exactly_tilt :
    tilt.IsOrthonormal ∧
    (∃ kind', (cone .z ⟨1, 2, 3⟩ 4).rotated? tilt = some kind' ∧
      ∀ p, kind'.value (tilt.apply p) < 0 ↔ (cone .z ⟨1, 2, 3⟩ 4).value p < 0) ∧
    (torus .z ⟨1, 2, 3⟩ 5 1 1).rotated? tilt = none := by
  refine ⟨isOrthonormal_tilt, ⟨_, rfl, ?_⟩, ?_⟩
  · exact (((value_moved_exactly (cone .z ⟨1, 2, 3⟩ 4)).2 tilt isOrthonormal_tilt).1 _ rfl).2
  · refine ((value_moved_exactly _).2 tilt isOrthonormal_tilt).2.2
      ⟨.z, _, _, _, _, rfl, fun axis hlies => ?_⟩
    -- The image of the axis has two components that are not zero.
    obtain ⟨s, -, heq⟩ := hlies
    have hy := congrArg Vec3.y heq
    have hz := congrArg Vec3.z heq
    simp only [tilt, Mat3.apply_eq, Vec3.dot_eq, Vec3.unit, Vec3.scale_eq] at hy hz
    cases axis with
    | x => norm_num at hy
    | y => norm_num at hz
    | z => norm_num at hy

end SerpentCsg.SurfaceKind
