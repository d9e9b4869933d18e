import Mathlib.Order.Interval.Set.Defs
import SerpentCsg.Proofs.Cell.Blocks
import SerpentCsg.Proofs.Draft.SurfaceCards
import SerpentCsg.Proofs.Exact.Linear

/-! # The Shape of Composites

  A composite is put together from faces, each with the side of it that the inside is on. Over the
  real numbers, the region of a composite is the half-open shape that its card describes: limits
  between two values of a coordinate for prisms and boxes, and distances from the centre along three
  normals for hexagons.

  - `Card.SurfaceCard.Encloses` says which points a card encloses, by its type and its parameters.
  - `Shape.ofCard_encloses` says that these are the points on the inner sides of the faces that are
    read from the card.
  - `Composite.contains_region_iff` says that the region with the numbers of the faces contains the
    points on the inner sides of the faces.
-/

namespace SerpentCsg

open Set (Ico)

/-! ### What a card encloses -/

/-- The normals of the faces of a hexagon, one for each pair of faces. -/
noncomputable def HexFlats.normals : HexFlats → List (Vec2 ℝ)
  | .x => [⟨1, 0⟩, ⟨Scalar.half, Shape.sin60⟩, ⟨Scalar.half, -Shape.sin60⟩]
  | .y => [⟨0, 1⟩, ⟨Shape.sin60, Scalar.half⟩, ⟨Shape.sin60, -Scalar.half⟩]

/-- A point is in the hexagonal prism around a centre: along each normal it is less than the
    apothem away, or just as far backwards. -/
def HexFlats.Encloses (flats : HexFlats) (x y d : ℝ) (p : Vec3 ℝ) : Prop :=
  ∀ n ∈ flats.normals, n.x * (p.x - x) + n.y * (p.y - y) ∈ Ico (-d) d

/-- A card of a composite encloses a point. -/
def Card.SurfaceCard.Encloses (card : Card.SurfaceCard ℝ) (p : Vec3 ℝ) : Prop :=
  match card.type, card.params with
  | "sqc", [x, y, d] => p.x ∈ Ico (x - d) (x + d) ∧ p.y ∈ Ico (y - d) (y + d)
  | "rect", [xmin, xmax, ymin, ymax] => p.x ∈ Ico xmin xmax ∧ p.y ∈ Ico ymin ymax
  | "hexxc", [x, y, d] => HexFlats.x.Encloses x y d p
  | "hexyc", [x, y, d] => HexFlats.y.Encloses x y d p
  | "cube", [x, y, z, d] =>
    p.x ∈ Ico (x - d) (x + d) ∧ p.y ∈ Ico (y - d) (y + d) ∧ p.z ∈ Ico (z - d) (z + d)
  | "cuboid", [xmin, xmax, ymin, ymax, zmin, zmax] =>
    p.x ∈ Ico xmin xmax ∧ p.y ∈ Ico ymin ymax ∧ p.z ∈ Ico zmin zmax
  | _, _ => False

/-! ### Sides of faces -/

/-- A point is on a side of a face. -/
def SurfaceKind.OnSide (kind : SurfaceKind ℝ) (p : Vec3 ℝ) : Side → Prop
  | .negative => kind.value p < 0
  | .positive => 0 ≤ kind.value p

namespace SurfaceKind

variable {p : Vec3 ℝ}

theorem onSide_axisPlane {axis : Axis} {offset : ℝ} :
    ((axisPlane axis offset).OnSide p .positive ↔ offset ≤ p.along axis) ∧
    ((axisPlane axis offset).OnSide p .negative ↔ p.along axis < offset) :=
  ⟨sub_nonneg, sub_neg⟩

/-- Distance of a point from a centre along a normal. -/
theorem onSide_slanted {n c : Vec2 ℝ} {distance : ℝ} :
    ((Shape.slanted n c distance).OnSide p .positive ↔
      distance ≤ n.x * (p.x - c.x) + n.y * (p.y - c.y)) ∧
    ((Shape.slanted n c distance).OnSide p .negative ↔
      n.x * (p.x - c.x) + n.y * (p.y - c.y) < distance) := by
  have hvalue : (Shape.slanted n c distance).value p =
      n.x * (p.x - c.x) + n.y * (p.y - c.y) - distance := by
    show n.x * p.x + n.y * p.y + (0 : ℝ) * p.z - (n.x * c.x + n.y * c.y + distance) = _
    ring
  constructor
  · show 0 ≤ (Shape.slanted n c distance).value p ↔ _
    rw [hvalue]
    exact sub_nonneg
  · show (Shape.slanted n c distance).value p < 0 ↔ _
    rw [hvalue]
    exact sub_neg

end SurfaceKind

/-- A point is on the inner side of every face. -/
def Composite.Holds (kinds : Composite (SurfaceKind ℝ)) (p : Vec3 ℝ) : Prop :=
  ∀ face ∈ kinds.sides, face.1.OnSide p face.2

namespace Shape

open Card (SurfaceCard)
open SurfaceKind (onSide_axisPlane onSide_slanted)

variable {card : SurfaceCard ℝ} {kinds : Composite (SurfaceKind ℝ)} {p : Vec3 ℝ}

theorem holds_prism {xmin xmax ymin ymax : ℝ} (h : prism card xmin xmax ymin ymax = .ok kinds) :
    kinds.Holds p ↔ p.x ∈ Ico xmin xmax ∧ p.y ∈ Ico ymin ymax := by
  unfold prism at h
  split at h
  · cases h
  · obtain rfl := Except.ok.inj h
    simp only [Composite.Holds, Composite.sides, List.forall_mem_cons, onSide_axisPlane,
      Vec3.along, Set.mem_Ico, List.not_mem_nil, false_implies, implies_true, and_true, and_assoc]

theorem holds_box {xmin xmax ymin ymax zmin zmax : ℝ}
    (h : box card xmin xmax ymin ymax zmin zmax = .ok kinds) :
    kinds.Holds p ↔ p.x ∈ Ico xmin xmax ∧ p.y ∈ Ico ymin ymax ∧ p.z ∈ Ico zmin zmax := by
  unfold box at h
  split at h
  · cases h
  · obtain rfl := Except.ok.inj h
    simp only [Composite.Holds, Composite.sides, List.forall_mem_cons, onSide_axisPlane,
      Vec3.along, Set.mem_Ico, List.not_mem_nil, false_implies, implies_true, and_true]
    tauto

theorem holds_hexagon {flats : HexFlats} (h : hexagon flats card = .ok kinds) :
    ∃ x y d, card.params = [x, y, d] ∧ (kinds.Holds p ↔ flats.Encloses x y d p) := by
  unfold hexagon at h
  split at h
  · next x y d hparams =>
    refine ⟨x, y, d, hparams, ?_⟩
    dsimp only at h
    split at h
    · cases h
    · -- The first two faces, by their distance from the centre.
      have hlow (a c : ℝ) : c - d ≤ a ↔ -d ≤ a - c := by
        constructor <;> intro ha <;> linarith
      have hhigh (a c : ℝ) : a < c + d ↔ a - c < d := by
        constructor <;> intro ha <;> linarith
      cases flats with
      | x =>
        obtain rfl := Except.ok.inj h
        simp only [Composite.Holds, Composite.sides, List.forall_mem_cons, onSide_axisPlane,
          onSide_slanted, Vec3.along, HexFlats.Encloses, HexFlats.normals, Set.mem_Ico,
          List.not_mem_nil, false_implies, implies_true, and_true, one_mul,
          zero_mul, add_zero]
        constructor
        · intro hp
          obtain ⟨hleft, hright, hup, hdown, hup', hdown'⟩ := hp
          exact ⟨⟨(hlow _ _).1 hleft, (hhigh _ _).1 hright⟩, ⟨hup, hup'⟩, hdown, hdown'⟩
        · intro hp
          obtain ⟨⟨hleft, hright⟩, ⟨hup, hup'⟩, hdown, hdown'⟩ := hp
          exact ⟨(hlow _ _).2 hleft, (hhigh _ _).2 hright, hup, hdown, hup', hdown'⟩
      | y =>
        obtain rfl := Except.ok.inj h
        simp only [Composite.Holds, Composite.sides, List.forall_mem_cons, onSide_axisPlane,
          onSide_slanted, Vec3.along, HexFlats.Encloses, HexFlats.normals, Set.mem_Ico,
          List.not_mem_nil, false_implies, implies_true, and_true, one_mul,
          zero_mul, zero_add]
        constructor
        · intro hp
          obtain ⟨hleft, hright, hup, hup', hdown', hdown⟩ := hp
          exact ⟨⟨(hlow _ _).1 hleft, (hhigh _ _).1 hright⟩, ⟨hup, hup'⟩, hdown, hdown'⟩
        · intro hp
          obtain ⟨⟨hleft, hright⟩, ⟨hup, hup'⟩, hdown, hdown'⟩ := hp
          exact ⟨(hlow _ _).2 hleft, (hhigh _ _).2 hright, hup, hup', hdown', hdown⟩
  · cases h

/-- The points on the inner sides of the faces of a composite are those that its card encloses. -/
theorem ofCard_encloses (h : ofCard card = .ok (.composite kinds)) :
    kinds.Holds p ↔ card.Encloses p := by
  obtain ⟨name, type, params⟩ := card
  have hcomposite {x : Except Fault (Composite (SurfaceKind ℝ))}
      (hx : x.map composite = .ok (.composite kinds)) : x = .ok kinds := by
    obtain ⟨faces, hfaces, hkinds⟩ := map_eq_ok_iff.1 hx
    rw [hfaces, Shape.composite.inj hkinds]
  unfold ofCard at h
  split at h
  case h_1 =>
    unfold unbounded at h
    split at h <;> cases h
  case h_2 htype =>
    obtain rfl : type = "sqc" := htype
    have hfaces := hcomposite h
    unfold squarePrism at hfaces
    split at hfaces
    · next hparams =>
      obtain rfl : params = _ := hparams
      exact holds_prism hfaces
    · cases hfaces
  case h_3 htype =>
    obtain rfl : type = "rect" := htype
    have hfaces := hcomposite h
    unfold rectangularPrism at hfaces
    split at hfaces
    · next hparams =>
      obtain rfl : params = _ := hparams
      exact holds_prism hfaces
    · cases hfaces
  case h_4 htype =>
    obtain rfl : type = "hexxc" := htype
    obtain ⟨x, y, d, hparams, hholds⟩ := holds_hexagon (hcomposite h)
    obtain rfl : params = _ := hparams
    exact hholds
  case h_5 htype =>
    obtain rfl : type = "hexyc" := htype
    obtain ⟨x, y, d, hparams, hholds⟩ := holds_hexagon (hcomposite h)
    obtain rfl : params = _ := hparams
    exact hholds
  case h_6 htype =>
    obtain rfl : type = "cube" := htype
    have hfaces := hcomposite h
    unfold cube at hfaces
    split at hfaces
    · next hparams =>
      obtain rfl : params = _ := hparams
      exact holds_box hfaces
    · cases hfaces
  case h_7 htype =>
    obtain rfl : type = "cuboid" := htype
    have hfaces := hcomposite h
    unfold cuboid at hfaces
    split at hfaces
    · next hparams =>
      obtain rfl : params = _ := hparams
      exact holds_box hfaces
    · cases hfaces
  case h_23 => cases h
  -- All other types describe single surfaces.
  all_goals
    obtain ⟨_, _, hkind⟩ := map_eq_ok_iff.1 h
    cases hkind

end Shape

/-! ### The region of a composite -/

namespace Composite

/-- Pairs correspond if their parts do. -/
private theorem forall₂_pairs {α β γ : Type} {R : α → β → Prop} {l : List (α × γ)}
    {l' : List (β × γ)} (hfst : List.Forall₂ R (l.map (·.1)) (l'.map (·.1)))
    (hsnd : l.map (·.2) = l'.map (·.2)) :
    List.Forall₂ (fun a b => R a.1 b.1 ∧ a.2 = b.2) l l' := by
  rw [← List.forall₂_eq_eq_eq, List.forall₂_map_left_iff, List.forall₂_map_right_iff] at hsnd
  rw [List.forall₂_map_left_iff, List.forall₂_map_right_iff] at hfst
  obtain ⟨hlength, hfst⟩ := List.forall₂_iff_zip.1 hfst
  obtain ⟨-, hsnd⟩ := List.forall₂_iff_zip.1 hsnd
  exact List.forall₂_iff_zip.2 ⟨hlength, fun hab => ⟨hfst hab, hsnd hab⟩⟩

/-- The form tells the inner sides of the faces. -/
theorem map_snd_sides {α : Type} (c : Composite α) :
    c.sides.map (·.2) = c.outline.sides.map (·.2) := by
  cases c with
  | hexPrism flats => cases flats <;> rfl
  | _ => rfl

variable {table : Table Nat (Surface ℝ)} {faces : Composite Nat}
  {kinds : Composite (SurfaceKind ℝ)}

/-- A region contains the points on the inner sides of the surfaces that its faces are. -/
theorem contains_region_iff (hform : faces.outline = kinds.outline)
    (hfaces : List.Forall₂ (fun id kind => ∃ s, table.find? id = some s ∧ s.kind = kind)
      faces.faces kinds.faces) (p : Vec3 ℝ) :
    faces.region.contains table p = true ↔ kinds.Holds p := by
  have hsides : faces.sides.map (·.2) = kinds.sides.map (·.2) := by
    rw [map_snd_sides, map_snd_sides kinds, hform]
  have hpairs := forall₂_pairs hfaces hsides
  have hregion : faces.region.contains table p = true ↔
      ∀ face ∈ faces.sides, (Halfspace.mk face.1 face.2).contains table p = true := by
    simp [region, inside, Region.contains, Function.comp_def, List.and]
  rw [hregion, Holds]
  generalize faces.sides = sides at hpairs
  generalize kinds.sides = others at hpairs
  induction hpairs with
  | nil => simp
  | @cons face other sides others hface _ ih =>
    obtain ⟨⟨s, hs, hkind⟩, hside⟩ := hface
    rw [List.forall_mem_cons, List.forall_mem_cons]
    refine and_congr ?_ ih
    unfold Halfspace.contains
    rw [hs, hside, ← hkind]
    cases other.2 <;> exact decide_eq_true_iff

end Composite

/-! ### Cards of composites -/

namespace Draft

open Card (compositeTypes)
open Identifier (largest)

/-- A card of a composite that is worked in makes its name stand for the shape that the card
    describes: the region of the name contains what the card encloses, and its complement the rest.
    These are the regions of the name on its two sides, as long as there are numbers for all
    surfaces. -/
theorem composite_encloses {d d' : Draft ℝ} {text : String} {card : Card.SurfaceCard ℝ}
    (hread : Card.readSurface text.toList = some card) (htype : card.type ∈ compositeTypes)
    (hadd : d.addSurfaceCard text = .ok d') :
    ∃ faces : Composite Nat, d'.entries.find? card.name = some (.composite faces) ∧
      (∀ p, faces.region.contains d'.surfaces p = true ↔ card.Encloses p) ∧
      (∀ p, (Region.complement faces.region).contains d'.surfaces p = true ↔ ¬ card.Encloses p) ∧
      (d'.surfaces.size ≤ largest → ∀ cell,
        d'.regionOf cell [.surface true card.name] = .ok faces.region ∧
        d'.regionOf cell [.surface false card.name] = .ok (.complement faces.region)) := by
  obtain ⟨card', shape, hread', hname, hshape, hof, rfl⟩ := addSurfaceCard_describes hadd
  obtain rfl : card = card' := Option.some.inj (hread.symm.trans hread')
  obtain ⟨entry, hframe, hform, hputs⟩ := addShape_puts d card.name shape
  match shape, entry with
  | .infinite, .infinite =>
    rw [show card.type = "inf" from hof] at htype
    exact absurd htype (by decide)
  | .primitive _, .primitive _ => exact absurd htype hof.2
  | .composite kinds, .composite faces =>
    have hfound : (d.addShape card.name (.composite kinds)).entries.find? card.name =
        some (.composite faces) := by
      rw [hframe]
      show (d.entries.insert card.name (.composite faces)).find? card.name = _
      rw [Table.find?_insert, if_pos rfl]
    have hfaces := hputs.forall₂_kinds
    rw [Shape.map_snd_parts] at hfaces
    have hregion (p : Vec3 ℝ) := Composite.contains_region_iff hform hfaces p
    refine ⟨faces, hfound, ?_, ?_, ?_⟩
    · intro p
      exact (hregion p).trans (Shape.ofCard_encloses hshape)
    · intro p
      rw [← Shape.ofCard_encloses hshape, ← hregion]
      simp [Region.contains]
    · intro hsize cell
      have hfit : ∀ id ∈ (SurfaceEntry.composite faces).surfaces, id ≤ Text.max32 := by
        intro id hid
        have hle := hputs.le_largest hsize id hid
        simp only [largest, Text.max32] at *
        omega
      exact ⟨regionOf_surface cell true hfound (by simp) hfit,
        regionOf_surface cell false hfound (by simp) hfit⟩

/-- A hexagon with its flats across x, of apothem one, around the z axis. -/
noncomputable def hexagonCard : Card.SurfaceCard ℝ := ⟨"b", "hexxc", [0, 0, 1]⟩

/-- The left edge is in the hexagon, and the right edge is not. -/
theorem composite_encloses_hexagon :
    ∃ (d' : Draft ℝ) (faces : Composite Nat),
      (new .empty : Draft ℝ).addSurfaceCard "surf b hexxc 0 0 1" = .ok d' ∧
      d'.entries.find? "b" = some (.composite faces) ∧
      faces.region.contains d'.surfaces ⟨-1, 0, 7⟩ = true ∧
      (Region.complement faces.region).contains d'.surfaces ⟨1, 0, 7⟩ = true := by
  have hread : Card.readSurface (K := ℝ) "surf b hexxc 0 0 1".toList = some hexagonCard := by
    have hnumerals : Card.readSurface (K := ℝ) "surf b hexxc 0 0 1".toList =
        some ⟨"b", "hexxc", [0, 0, 1].map fun n => realOfNumeral (.finite false n 0)⟩ := rfl
    simpa [realOfNumeral_whole, hexagonCard] using hnumerals
  have hpos : ¬ (1 : ℝ) ≤ 0 := by norm_num
  have hhexagon : Shape.hexagon .x hexagonCard = .ok _ := if_neg hpos
  have hshape : Shape.ofCard hexagonCard = .ok (.composite _) :=
    congrArg (Except.map Shape.composite) hhexagon
  have hadd := addSurfaceCard_of_describes (d := new .empty) hread rfl hshape
  have htype : hexagonCard.type ∈ compositeTypes := by
    show "hexxc" ∈ compositeTypes
    decide
  obtain ⟨faces, hfound, hinside, houtside, -⟩ := composite_encloses hread htype hadd
  refine ⟨_, faces, hadd, hfound, (hinside _).2 ?_, (houtside _).2 ?_⟩
  · show HexFlats.x.Encloses 0 0 1 ⟨-1, 0, 7⟩
    norm_num [HexFlats.Encloses, HexFlats.normals, Scalar.half_eq]
  · show ¬ HexFlats.x.Encloses 0 0 1 ⟨1, 0, 7⟩
    norm_num [HexFlats.Encloses, HexFlats.normals, Scalar.half_eq]

end Draft

end SerpentCsg
