import Mathlib.GroupTheory.Perm.Fin
import Mathlib.LinearAlgebra.AffineSpace.FiniteDimensional
import Mathlib.LinearAlgebra.CrossProduct
import SerpentCsg.Proofs.Draft.SurfaceCards
import SerpentCsg.Proofs.Exact.Linear

/-! # Planes Through Three Points

  A plane may be given by three points. Over the real numbers there is such a plane unless the
  points lie on a line, which they also do if two of them coincide. The plane vanishes at the
  points, its normal is the vector product of the two edges from the first point, and the order of
  the points matters by its sign only: an even permutation gives the same implicit function, an odd
  one its negative.
-/

namespace SerpentCsg

open Equiv (Perm swap swap_comm swap_apply_left swap_apply_right swap_apply_of_ne_of_ne)

/-! ### Points by their coordinates -/

namespace Vec3

/-- The coordinates of a point under indices. -/
def coordinates (v : Vec3 ℝ) : Fin 3 → ℝ := ![v.x, v.y, v.z]

theorem coordinates_sub (v w : Vec3 ℝ) : (v - w).coordinates = v.coordinates - w.coordinates := by
  ext i
  fin_cases i <;> rfl

theorem coordinates_cross (v w : Vec3 ℝ) :
    (v.cross w).coordinates = crossProduct v.coordinates w.coordinates := by
  rw [cross_apply]
  rfl

theorem coordinates_eq_zero_iff {v : Vec3 ℝ} :
    v.coordinates = 0 ↔ v.x = 0 ∧ v.y = 0 ∧ v.z = 0 := by
  rw [funext_iff, Fin.forall_fin_succ, Fin.forall_fin_two]
  rfl

end Vec3

/-- The points lie on a line. -/
def OnLine (p : Fin 3 → Vec3 ℝ) : Prop := Collinear ℝ (Set.range fun i => (p i).coordinates)

theorem onLine_comp (p : Fin 3 → Vec3 ℝ) (σ : Perm (Fin 3)) : OnLine (p ∘ σ) ↔ OnLine p := by
  have hrange : (Set.range fun i => ((p ∘ σ) i).coordinates) =
      Set.range fun i => (p i).coordinates :=
    σ.surjective.range_comp fun i => (p i).coordinates
  rw [OnLine, OnLine, hrange]

namespace Card.SurfaceCard

/-- The card gives a plane by three points. -/
def ByPoints (card : SurfaceCard ℝ) : Prop := card.type = "plane" ∧ card.params.length = 9

/-- The points that the numbers on a card are, three by three. -/
noncomputable def points (card : SurfaceCard ℝ) (i : Fin 3) : Vec3 ℝ :=
  let number j := card.params.getD (3 * i + j) 0
  ⟨number 0, number 1, number 2⟩

end Card.SurfaceCard

namespace Shape

open Card (SurfaceCard)

/-! ### The plane through three points -/

/-- Vector product of the edges from the first point. -/
noncomputable def normal (p : Fin 3 → Vec3 ℝ) : Vec3 ℝ := (p 1 - p 0).cross (p 2 - p 0)

/-- The plane that is read from a card with three points, on a line or not. -/
noncomputable def through (p : Fin 3 → Vec3 ℝ) : SurfaceKind ℝ :=
  .plane (normal p) (-(normal p).dot (-p 0))

theorem coordinates_normal (p : Fin 3 → Vec3 ℝ) :
    (normal p).coordinates = crossProduct ((p 1).coordinates - (p 0).coordinates)
      ((p 2).coordinates - (p 0).coordinates) := by
  rw [normal, Vec3.coordinates_cross, Vec3.coordinates_sub, Vec3.coordinates_sub]

/-- Three points lie on a line exactly if the edges from the first point have no normal. -/
theorem onLine_iff (p : Fin 3 → Vec3 ℝ) : OnLine p ↔ (normal p).coordinates = 0 := by
  -- Points are affinely independent if the edges from one of them are linearly independent.
  let edges := ![(p 1).coordinates - (p 0).coordinates, (p 2).coordinates - (p 0).coordinates]
  have hedges : (fun i : {i : Fin 3 // i ≠ 0} => (p i).coordinates -ᵥ (p 0).coordinates) ∘
      finSuccAboveEquiv 0 = edges := by
    ext i
    fin_cases i <;> rfl
  rw [OnLine, collinear_iff_not_affineIndependent,
    affineIndependent_iff_linearIndependent_vsub ℝ _ (0 : Fin 3),
    ← linearIndependent_equiv (finSuccAboveEquiv (0 : Fin 3)), hedges, coordinates_normal,
    ← crossProduct_ne_zero_iff_linearIndependent, not_not]

theorem value_through (p : Fin 3 → Vec3 ℝ) (x : Vec3 ℝ) :
    (through p).value x = (normal p).dot (x - p 0) := by
  show (normal p).dot x - -(normal p).dot (-p 0) = (normal p).dot (x - p 0)
  have hneg : -p 0 = ⟨-(p 0).x, -(p 0).y, -(p 0).z⟩ := rfl
  rw [hneg, Vec3.dot_sub_right, Vec3.dot_eq, Vec3.dot_eq, Vec3.dot_eq]
  ring

/-- The plane goes through the points. -/
theorem value_through_self (p : Fin 3 → Vec3 ℝ) (i : Fin 3) : (through p).value (p i) = 0 := by
  rw [value_through]
  match i with
  | 0 | 1 | 2 =>
    simp only [normal, Vec3.dot_eq, Vec3.sub_eq, Vec3.cross]
    ring

/-- Two points that change places turn the plane around. -/
theorem value_through_swap (p : Fin 3 → Vec3 ℝ) {i j : Fin 3} (hij : i ≠ j) (x : Vec3 ℝ) :
    (through (p ∘ swap i j)).value x = -(through p).value x := by
  have hother (a b : Fin 3) : (through (p ∘ swap a b)).value x =
      ((p (swap a b 1) - p (swap a b 0)).cross (p (swap a b 2) - p (swap a b 0))).dot
        (x - p (swap a b 0)) :=
    value_through _ x
  -- Which two they are does not matter, so each pair comes once.
  wlog hlt : i < j generalizing i j
  · rw [swap_comm]
    exact this hij.symm (lt_of_le_of_ne (not_lt.1 hlt) hij.symm)
  rw [hother, value_through, normal]
  have hpairs : ∀ i j : Fin 3, i < j → i = 0 ∧ j = 1 ∨ i = 0 ∧ j = 2 ∨ i = 1 ∧ j = 2 := by
    decide
  obtain ⟨rfl, rfl⟩ | ⟨rfl, rfl⟩ | ⟨rfl, rfl⟩ := hpairs i j hlt
  all_goals
    rw [swap_apply_left, swap_apply_right, swap_apply_of_ne_of_ne (by decide) (by decide)]
    simp only [Vec3.dot_eq, Vec3.sub_eq, Vec3.cross]
    ring

/-- The order of the points matters by its sign only. -/
theorem value_through_perm (σ : Perm (Fin 3)) (p : Fin 3 → Vec3 ℝ) (x : Vec3 ℝ) :
    (through (p ∘ σ)).value x = σ.sign * (through p).value x := by
  -- By induction on swaps, for all points: what a swap leaves is permuted by the rest.
  induction σ using Perm.swap_induction_on generalizing p with
  | one => simp
  | swap_mul σ i j hij ih =>
    rw [Perm.sign_mul, Perm.sign_swap hij, Perm.coe_mul, ← Function.comp_assoc, ih,
      value_through_swap p hij]
    push_cast
    ring

/-- The plane of a card with three points, unless they are on a line. -/
theorem ofCard_byPoints {card : SurfaceCard ℝ} (h : card.ByPoints) :
    (OnLine card.points → ofCard card = .error (.collinearPoints card.name)) ∧
    (¬ OnLine card.points → ofCard card = .ok (.primitive (through card.points))) := by
  obtain ⟨name, type, params⟩ := card
  obtain ⟨htype, hcount⟩ := h
  obtain rfl : type = "plane" := htype
  match params, hcount with
  | [x₁, y₁, z₁, x₂, y₂, z₂, x₃, y₃, z₃], _ =>
    let card : SurfaceCard ℝ := ⟨name, "plane", [x₁, y₁, z₁, x₂, y₂, z₂, x₃, y₃, z₃]⟩
    let n := normal card.points
    -- The plane is stored with the other sign of its offset than the one it is read with.
    let read : Except Fault (SurfaceKind ℝ) :=
      if n.x == 0 && n.y == 0 && n.z == 0 then .error (.collinearPoints name)
      else .ok (through card.points)
    have hcard : ofCard card = read.map primitive := rfl
    have hzero : (n.x == 0 && n.y == 0 && n.z == 0) = true ↔ OnLine card.points := by
      rw [onLine_iff, Vec3.coordinates_eq_zero_iff, Bool.and_eq_true, Bool.and_eq_true,
        Scalar.beq_iff, Scalar.beq_iff, Scalar.beq_iff, and_assoc]
    constructor
    · intro hline
      have hread : read = _ := if_pos (hzero.2 hline)
      rw [hcard, hread]
      rfl
    · intro hline
      have hread : read = _ := if_neg (mt hzero.1 hline)
      rw [hcard, hread]
      rfl

end Shape

/-! ### Cards -/

namespace Draft

open Card (SurfaceCard)

/-- A card adds a surface under a name. -/
def MakesSurface (d : Draft ℝ) (text name : String) (s : Surface ℝ) : Prop :=
  ∃ d', d.addSurfaceCard text = .ok d' ∧ d'.surface? name = some s

theorem makesSurface_through {d : Draft ℝ} {text : String} {card : SurfaceCard ℝ}
    (hread : Card.readSurface text.toList = some card) (hpoints : card.ByPoints)
    (hname : d.entries.contains card.name = false) (hline : ¬ OnLine card.points) :
    ∃ s, d.MakesSurface text card.name s ∧ s.kind = Shape.through card.points := by
  have hshape := (Shape.ofCard_byPoints hpoints).2 hline
  have hadd := addSurfaceCard_of_describes hread hname hshape
  let id := Identifier.allocate card.name d.surfaces.keys
  let s : Surface ℝ := { id, name := card.name, kind := Shape.through card.points }
  have hentry : (d.entries.insert card.name (.primitive id)).find? card.name =
      some (.primitive id) := by
    rw [Table.find?_insert, if_pos rfl]
  have hsurface : (d.surfaces.insert id s).find? id = some s := by
    rw [Table.find?_insert, if_pos rfl]
  refine ⟨s, ⟨_, hadd, ?_⟩, rfl⟩
  unfold surface?
  rw [show (d.addShape card.name (.primitive (Shape.through card.points))).entries.find? card.name =
    some (.primitive id) from hentry]
  exact hsurface

/-- A card with three points is rejected if they are on a line, and only then. If not, it adds a
    plane that goes through them, with the vector product of the edges from the first point as its
    normal. Another order of the points gives the same implicit function if they have changed places
    in a circle, and its negative if two of them have been exchanged. -/
theorem addSurfaceCard_byPoints {d : Draft ℝ} {text : String} {card : SurfaceCard ℝ}
    (hread : Card.readSurface text.toList = some card) (hpoints : card.ByPoints)
    (hname : d.entries.contains card.name = false) :
    (d.addSurfaceCard text = .error (.collinearPoints card.name) ↔ OnLine card.points) ∧
    (¬ OnLine card.points → ∃ (s : Surface ℝ) (n : Vec3 ℝ) (offset : ℝ),
      d.MakesSurface text card.name s ∧ s.kind = .plane n offset ∧
      n.coordinates = crossProduct ((card.points 1).coordinates - (card.points 0).coordinates)
        ((card.points 2).coordinates - (card.points 0).coordinates) ∧
      (∀ i, s.kind.value (card.points i) = 0) ∧
      ∀ (σ : Perm (Fin 3)) (e : Draft ℝ) (text' : String) (card' : SurfaceCard ℝ),
        Card.readSurface text'.toList = some card' → card'.ByPoints →
        card'.points = card.points ∘ σ → e.entries.contains card'.name = false →
        ∃ t, e.MakesSurface text' card'.name t ∧
          (σ.IsThreeCycle → ∀ x, t.kind.value x = s.kind.value x) ∧
          (σ.IsSwap → ∀ x, t.kind.value x = -s.kind.value x)) := by
  constructor
  · constructor
    · intro herror
      by_contra hline
      obtain ⟨s, ⟨d', hadd, -⟩, -⟩ := makesSurface_through hread hpoints hname hline
      rw [herror] at hadd
      cases hadd
    · intro hline
      rw [addSurfaceCard_of_free hread hname, (Shape.ofCard_byPoints hpoints).1 hline]
      rfl
  · intro hline
    obtain ⟨s, hs, hkind⟩ := makesSurface_through hread hpoints hname hline
    refine ⟨s, _, _, hs, hkind, Shape.coordinates_normal card.points, ?_, ?_⟩
    · intro i
      rw [hkind]
      exact Shape.value_through_self card.points i
    · intro σ e text' card' hread' hpoints' hσ hname'
      -- The points of the other card are the same ones, so they are on no line either.
      have hline' : ¬ OnLine card'.points := by
        rw [hσ, onLine_comp]
        exact hline
      obtain ⟨t, ht, hkind'⟩ := makesSurface_through hread' hpoints' hname' hline'
      have hvalue (x : Vec3 ℝ) : t.kind.value x = σ.sign * s.kind.value x := by
        rw [hkind', hσ, hkind]
        exact Shape.value_through_perm σ card.points x
      refine ⟨t, ht, ?_, ?_⟩
      · intro hcycle x
        rw [hvalue, hcycle.sign]
        simp
      · intro hswap x
        rw [hvalue, hswap.sign_eq]
        simp

/-- The plane that cuts one off each axis: its normal is the same in each component, and it turns
    around when the points on the first two axes are exchanged. -/
theorem addSurfaceCard_byPoints_corners :
    ∃ s t u : Surface ℝ, (new .empty).MakesSurface "surf p plane 1 0 0 0 1 0 0 0 1" "p" s ∧
      (new .empty).MakesSurface "surf q plane 0 1 0 0 0 1 1 0 0" "q" t ∧
      (new .empty).MakesSurface "surf r plane 0 1 0 1 0 0 0 0 1" "r" u ∧
      (∃ offset, s.kind = .plane ⟨1, 1, 1⟩ offset) ∧ (∀ x, t.kind.value x = s.kind.value x) ∧
      ∀ x, u.kind.value x = -s.kind.value x := by
  have hcard (text name : String) (numbers : List Nat)
      (h : Card.readSurface (K := ℝ) text.toList = some ⟨name, "plane", numbers.map fun n =>
        realOfNumeral (.finite false n 0)⟩) :
      Card.readSurface text.toList = some ⟨name, "plane", numbers.map fun n : Nat => (n : ℝ)⟩ := by
    rw [h]
    simp only [realOfNumeral_whole]
  have hp := hcard "surf p plane 1 0 0 0 1 0 0 0 1" "p" [1, 0, 0, 0, 1, 0, 0, 0, 1] rfl
  have hq := hcard "surf q plane 0 1 0 0 0 1 1 0 0" "q" [0, 1, 0, 0, 0, 1, 1, 0, 0] rfl
  have hr := hcard "surf r plane 0 1 0 1 0 0 0 0 1" "r" [0, 1, 0, 1, 0, 0, 0, 0, 1] rfl
  obtain ⟨-, hplane⟩ := addSurfaceCard_byPoints (d := new .empty) hp ⟨rfl, rfl⟩ rfl
  obtain ⟨s, n, offset, hs, hkind, hnormal, -, horder⟩ := hplane (by
    rw [Shape.onLine_iff, Vec3.coordinates_eq_zero_iff]
    simp [Shape.normal, Card.SurfaceCard.points, Vec3.sub_eq, Vec3.cross])
  obtain ⟨t, ht, hcycle, -⟩ := horder (finRotate 3) (new .empty) _ _ hq ⟨rfl, rfl⟩ (by
    funext i
    fin_cases i <;> rfl) rfl
  obtain ⟨u, hu, -, hswap⟩ := horder (swap 0 1) (new .empty) _ _ hr ⟨rfl, rfl⟩ (by
    funext i
    fin_cases i <;> rfl) rfl
  refine ⟨s, t, u, hs, ht, hu, ⟨offset, ?_⟩, hcycle cycleType_finRotate,
    hswap ⟨0, 1, by decide, rfl⟩⟩
  have hn : n = ⟨1, 1, 1⟩ := by
    have hcomponent (i : Fin 3) := congrFun hnormal i
    ext
    · simpa [Card.SurfaceCard.points, Vec3.coordinates, cross_apply] using hcomponent 0
    · simpa [Card.SurfaceCard.points, Vec3.coordinates, cross_apply] using hcomponent 1
    · simpa [Card.SurfaceCard.points, Vec3.coordinates, cross_apply] using hcomponent 2
  rw [hkind, hn]

end Draft

end SerpentCsg
