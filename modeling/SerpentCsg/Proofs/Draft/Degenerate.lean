import SerpentCsg.Proofs.Checked.Surface
import SerpentCsg.Proofs.Draft.Registering
import SerpentCsg.Scalar.Binary64

/-! # Surface Cards That Divide by Zero

  Cones without a height, planes through points of one line and composites without a width are
  refused. Two other cards are not, although their surfaces are degenerate: a torus whose tube has
  no width, and a cylinder around the line through two points without a distance. All other cards
  that are accepted register well-defined surfaces only.
-/

namespace SerpentCsg

variable {K : Type} [Scalar K]

/-- A card of a torus whose tube has no width, or of a cylinder around no line. -/
inductive Card.SurfaceCard.Degenerate : Card.SurfaceCard K → Prop where
  | torus {name type : String} {x y z large tubeAlong tubeAcross : K} :
      type = "torx" ∨ type = "tory" ∨ type = "torz" →
      (tubeAlong * tubeAlong == 0) = true ∨ (tubeAcross * tubeAcross == 0) = true →
      Degenerate ⟨name, type, [x, y, z, large, tubeAlong, tubeAcross]⟩
  | cylinder {name : String} {p q : Vec3 K} {radius : K} :
      ((q - p).length == 0) = true →
      Degenerate ⟨name, "cylv", [p.x, p.y, p.z, q.x, q.y, q.z, radius]⟩

namespace Shape

open Card (SurfaceCard)

/-! ### Surfaces that are never degenerate -/

section Sound

variable {card : SurfaceCard K} {kind : SurfaceKind K}

/-- Surfaces that are made of the parameters of their card as they are. -/
theorem not_degenerate_of_params
    (h : (∃ axis, axisPlane axis card = .ok kind) ∨ (∃ axis, axisCylinder axis card = .ok kind) ∨
      sphere card = .ok kind ∨ quadric card = .ok kind) : ¬ kind.Degenerate := by
  rcases h with ⟨axis, h⟩ | ⟨axis, h⟩ | h | h
  all_goals
    simp only [axisPlane, axisCylinder, sphere, quadric] at h
    split at h
    · obtain rfl := Except.ok.inj h
      exact SurfaceKind.not_degenerate rfl
    · cases h

theorem not_degenerate_plane (h : plane card = .ok kind) : ¬ kind.Degenerate := by
  unfold plane at h
  split at h
  · obtain rfl := Except.ok.inj h
    exact SurfaceKind.not_degenerate rfl
  · dsimp only at h
    split at h
    · cases h
    · obtain rfl := Except.ok.inj h
      exact SurfaceKind.not_degenerate rfl
  · cases h

theorem not_degenerate_cone (h : cone card = .ok kind) : ¬ kind.Degenerate := by
  unfold cone at h
  split at h
  · split at h
    · cases h
    · obtain rfl := Except.ok.inj h
      exact SurfaceKind.not_degenerate rfl
  · cases h

end Sound

section Faces

variable {card : SurfaceCard K} {faces : Composite (SurfaceKind K)}

theorem not_degenerate_prism {xmin xmax ymin ymax : K}
    (h : prism card xmin xmax ymin ymax = .ok faces) :
    ∀ kind ∈ faces.faces, ¬ kind.Degenerate := by
  unfold prism at h
  split at h
  · cases h
  · obtain rfl := Except.ok.inj h
    exact SurfaceKind.not_degenerate_of_all rfl

theorem not_degenerate_box {xmin xmax ymin ymax zmin zmax : K}
    (h : box card xmin xmax ymin ymax zmin zmax = .ok faces) :
    ∀ kind ∈ faces.faces, ¬ kind.Degenerate := by
  unfold box at h
  split at h
  · cases h
  · obtain rfl := Except.ok.inj h
    exact SurfaceKind.not_degenerate_of_all rfl

theorem not_degenerate_hexagon {flats : HexFlats} (h : hexagon flats card = .ok faces) :
    ∀ kind ∈ faces.faces, ¬ kind.Degenerate := by
  unfold hexagon at h
  split at h
  · dsimp only at h
    split at h
    · cases h
    · cases flats <;> obtain rfl := Except.ok.inj h
      all_goals exact SurfaceKind.not_degenerate_of_all rfl
  · cases h

/-- No face of a prism or of a box is degenerate, however its limits are given. -/
theorem not_degenerate_composite
    (h : squarePrism card = .ok faces ∨ rectangularPrism card = .ok faces ∨
      cube card = .ok faces ∨ cuboid card = .ok faces) :
    ∀ kind ∈ faces.faces, ¬ kind.Degenerate := by
  rcases h with h | h | h | h
  all_goals
    simp only [squarePrism, rectangularPrism, cube, cuboid] at h
    split at h
  · exact not_degenerate_prism h
  · cases h
  · exact not_degenerate_prism h
  · cases h
  · exact not_degenerate_box h
  · cases h
  · exact not_degenerate_box h
  · cases h

end Faces

/-! ### Cards and their surfaces -/

section Cards

variable {card : SurfaceCard K}

/-- Only tori and cylinders around lines have degenerate cards. -/
theorem type_of_degenerate (h : card.Degenerate) :
    card.type = "torx" ∨ card.type = "tory" ∨ card.type = "torz" ∨ card.type = "cylv" := by
  cases h with
  | torus htype _ => exact htype.imp_right fun htype => htype.imp_right .inl
  | cylinder _ => exact .inr (.inr (.inr rfl))

theorem torus_degenerate_iff {axis : Axis} {kind : SurfaceKind K}
    (htype : card.type = "torx" ∨ card.type = "tory" ∨ card.type = "torz")
    (h : torus axis card = .ok kind) : kind.Degenerate ↔ card.Degenerate := by
  obtain ⟨name, type, params⟩ := card
  unfold torus at h
  split at h
  · next hparams =>
    obtain rfl : params = _ := hparams
    obtain rfl := Except.ok.inj h
    constructor
    · intro hkind
      cases hkind with
      | torus hzero => exact .torus htype hzero
    · intro hcard
      cases hcard with
      | torus _ hzero => exact .torus hzero
  · cases h

theorem cylinder_degenerate_iff {kind : SurfaceKind K} (htype : card.type = "cylv")
    (h : cylinder card = .ok kind) : kind.Degenerate ↔ card.Degenerate := by
  obtain ⟨name, type, params⟩ := card
  obtain rfl : type = _ := htype
  unfold cylinder at h
  split at h
  · next hparams =>
    obtain rfl : params = _ := hparams
    obtain rfl := Except.ok.inj h
    constructor
    · intro hkind
      cases hkind with
      | cylinder hzero => exact .cylinder hzero
    · intro hcard
      cases hcard with
      | cylinder hzero => exact .cylinder hzero
  · cases h

private theorem kinds_of_primitive {x : Except Fault (SurfaceKind K)} {shape : Shape K}
    (h : x.map primitive = .ok shape) (hx : ∀ kind, x = .ok kind → ¬ kind.Degenerate) :
    ∀ kind ∈ shape.kinds, ¬ kind.Degenerate := by
  obtain ⟨kind, hkind, rfl⟩ := map_eq_ok_iff.1 h
  exact List.forall_mem_singleton.2 (hx kind hkind)

private theorem kinds_of_composite {x : Except Fault (Composite (SurfaceKind K))}
    {shape : Shape K} (h : x.map composite = .ok shape)
    (hx : ∀ faces, x = .ok faces → ∀ kind ∈ faces.faces, ¬ kind.Degenerate) :
    ∀ kind ∈ shape.kinds, ¬ kind.Degenerate := by
  obtain ⟨faces, hfaces, rfl⟩ := map_eq_ok_iff.1 h
  exact hx faces hfaces

private theorem kinds_of_unbounded {shape : Shape K} (h : unbounded card = .ok shape) :
    ∀ kind ∈ shape.kinds, ¬ kind.Degenerate := by
  unfold unbounded at h
  split at h
  · obtain rfl := Except.ok.inj h
    exact SurfaceKind.not_degenerate_of_all rfl
  · cases h

/-- Cards of all other types describe no degenerate surfaces. -/
theorem not_degenerate_of_type {shape : Shape K} (h : ofCard card = .ok shape)
    (htype : ¬ (card.type = "torx" ∨ card.type = "tory" ∨ card.type = "torz" ∨
      card.type = "cylv")) : ∀ kind ∈ shape.kinds, ¬ kind.Degenerate := by
  unfold ofCard at h
  split at h
  case h_1 => exact kinds_of_unbounded h
  case h_2 => exact kinds_of_composite h fun _ hx => not_degenerate_composite (.inl hx)
  case h_3 => exact kinds_of_composite h fun _ hx => not_degenerate_composite (.inr (.inl hx))
  case h_4 | h_5 => exact kinds_of_composite h fun _ hx => not_degenerate_hexagon hx
  case h_6 =>
    exact kinds_of_composite h fun _ hx => not_degenerate_composite (.inr (.inr (.inl hx)))
  case h_7 =>
    exact kinds_of_composite h fun _ hx => not_degenerate_composite (.inr (.inr (.inr hx)))
  case h_8 | h_9 | h_10 =>
    exact kinds_of_primitive h fun _ hx => not_degenerate_of_params (.inl ⟨_, hx⟩)
  case h_11 => exact kinds_of_primitive h fun _ hx => not_degenerate_plane hx
  case h_12 | h_13 | h_14 | h_15 =>
    exact kinds_of_primitive h fun _ hx => not_degenerate_of_params (.inr (.inl ⟨_, hx⟩))
  case h_17 =>
    exact kinds_of_primitive h fun _ hx => not_degenerate_of_params (.inr (.inr (.inl hx)))
  case h_18 => exact kinds_of_primitive h fun _ hx => not_degenerate_cone hx
  case h_19 =>
    exact kinds_of_primitive h fun _ hx => not_degenerate_of_params (.inr (.inr (.inr hx)))
  case h_23 => cases h
  all_goals
    next hcard => exact absurd (by simp [hcard]) htype

/-- A card that is accepted describes a degenerate surface exactly if it is a degenerate card. -/
theorem ofCard_degenerate_iff {shape : Shape K} (h : ofCard card = .ok shape) :
    (∃ kind ∈ shape.kinds, kind.Degenerate) ↔ card.Degenerate := by
  by_cases htype : card.type = "torx" ∨ card.type = "tory" ∨ card.type = "torz" ∨
    card.type = "cylv"
  · have htorus (axis : Axis) (hx : (torus axis card).map primitive = .ok shape)
        (hcard : card.type = "torx" ∨ card.type = "tory" ∨ card.type = "torz") :
        (∃ kind ∈ shape.kinds, kind.Degenerate) ↔ card.Degenerate := by
      obtain ⟨kind, hkind, rfl⟩ := map_eq_ok_iff.1 hx
      simpa [kinds] using torus_degenerate_iff hcard hkind
    unfold ofCard at h
    rcases htype with hcard | hcard | hcard | hcard
    · exact htorus .x (by simpa only [hcard] using h) (.inl hcard)
    · exact htorus .y (by simpa only [hcard] using h) (.inr (.inl hcard))
    · exact htorus .z (by simpa only [hcard] using h) (.inr (.inr hcard))
    · obtain ⟨kind, hkind, rfl⟩ := map_eq_ok_iff.1
        (show (cylinder card).map primitive = .ok shape by simpa only [hcard] using h)
      simpa [kinds] using cylinder_degenerate_iff hcard hkind
  · refine iff_of_false ?_ fun hcard => htype (type_of_degenerate hcard)
    rintro ⟨kind, hkind, hdegenerate⟩
    exact not_degenerate_of_type h htype kind hkind hdegenerate

end Cards

end Shape

/-! ### What is registered -/

namespace Draft

open Checked (defined undefined)

theorem addSurfaceCard_registers {d d' : Draft K} {text : String}
    (h : d.addSurfaceCard text = .ok d') :
    ∃ card shape, Card.readSurface text.toList = some card ∧ Shape.ofCard card = .ok shape ∧
      d.Registers (shape.parts card.name) d' := by
  obtain ⟨card, shape, hcard, -, hshape, -, rfl⟩ := addSurfaceCard_describes h
  exact ⟨card, shape, hcard, hshape, addShape_registers d card.name shape⟩

/-- The surfaces that a surface card registers are well-defined exactly if the card is not
    degenerate. A degenerate card registers a surface that has no value at any point. -/
theorem addSurfaceCard_wellDefined_iff {d d' : Draft Float} {text : String}
    (h : d.addSurfaceCard text = .ok d') :
    ∃ (card : Card.SurfaceCard Float) (added : List (Surface Float)),
      Card.readSurface text.toList = some card ∧
      d'.surfaces.values = d.surfaces.values ++ added ∧
      ((∀ s ∈ added, s.kind.WellDefined) ↔ ¬ card.Degenerate) ∧
      (card.Degenerate → ∃ s ∈ added, ∀ p : Vec3 Float,
        s.kind.checked.value (p.map defined) = undefined) := by
  obtain ⟨card, shape, hcard, hshape, added, hvalues, hparts⟩ := addSurfaceCard_registers h
  have htwo : (Scalar.two == (0 : Float)) = false := by decide
  have hkinds : added.map (·.kind) = shape.kinds := by
    rw [← Shape.map_snd_parts card.name, ← hparts, List.map_map]
    rfl
  have hsome : (∃ s ∈ added, s.kind.Degenerate) ↔ card.Degenerate := by
    rw [← Shape.ofCard_degenerate_iff hshape, ← hkinds]
    simp
  refine ⟨card, added, hcard, hvalues, ?_, fun hdegenerate => ?_⟩
  · rw [← hsome]
    push Not
    exact forall₂_congr fun s _ => SurfaceKind.wellDefined_iff htwo
  · obtain ⟨s, hs, hkind⟩ := hsome.2 hdegenerate
    exact ⟨s, hs, hkind.value_checked⟩

/-- A torus whose tube has no width along its axis. -/
def flatTorus : String := "surf t torz 0 0 0 5 0 1"

/-- Its card is accepted. -/
theorem addSurfaceCard_wellDefined_iff_flatTorus :
    ∃ d' : Draft Float, (new .empty).addSurfaceCard flatTorus = .ok d' ∧
      ∃ (card : Card.SurfaceCard Float) (added : List (Surface Float)),
        Card.readSurface flatTorus.toList = some card ∧
        d'.surfaces.values = (new .empty).surfaces.values ++ added ∧
        ((∀ s ∈ added, s.kind.WellDefined) ↔ ¬ card.Degenerate) ∧
        (card.Degenerate → ∃ s ∈ added, ∀ p : Vec3 Float,
          s.kind.checked.value (p.map defined) = undefined) := by
  have hrun : ((new .empty : Draft Float).addSurfaceCard flatTorus).toOption.isSome = true := by
    decide +kernel
  cases h : (new .empty : Draft Float).addSurfaceCard flatTorus with
  | error fault => simp [h, Except.toOption] at hrun
  | ok d' => exact ⟨d', rfl, addSurfaceCard_wellDefined_iff h⟩

/-- A cylinder around the line through a point and the same point. -/
def pointCylinder : String := "surf c cylv 1 2 3 1 2 3 1"

/-- Where a surface is a cylinder, whether its two points have no distance. -/
def isPointCylinder : SurfaceKind K → Bool
  | .cylinder p q _ => (q - p).length == 0
  | _ => false

/-- The cylinder is accepted, although it has neither values nor coefficients. -/
theorem accepts_pointCylinder :
    ∃ (d' : Draft Float) (s : Surface Float),
      (new .empty).addSurfaceCard pointCylinder = .ok d' ∧ d'.surfaces.values = [s] ∧
      (∀ p : Vec3 Float, s.kind.checked.value (p.map defined) = undefined) ∧
      s.kind.checked.openmcCoefficients = List.replicate 10 undefined := by
  have hrun : (((new .empty : Draft Float).addSurfaceCard pointCylinder).toOption.map
      fun d' => d'.surfaces.values.map fun s => isPointCylinder s.kind) = some [true] := by
    decide +kernel
  obtain ⟨d', hd', hvalues⟩ := exists_ok_of_map_eq_some hrun
  obtain ⟨s, rest, hs, hzero, hrest⟩ := List.map_eq_cons_iff.1 hvalues
  obtain rfl := List.map_eq_nil_iff.1 hrest
  refine ⟨d', s, hd', hs, ?_⟩
  cases hkind : s.kind with
  | cylinder p q radius =>
    have hlength : ((q - p).length == 0) = true := by rwa [hkind] at hzero
    refine ⟨(SurfaceKind.Degenerate.cylinder hlength).value_checked, ?_⟩
    simp only [SurfaceKind.checked, SurfaceKind.map, SurfaceKind.openmcCoefficients]
    rw [cylinder_checked_of_eq _ hlength]
    rfl
  | _ => simp [hkind, isPointCylinder] at hzero

end Draft

end SerpentCsg
