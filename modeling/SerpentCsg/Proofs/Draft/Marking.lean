import SerpentCsg.Proofs.Draft.Effects

/-! # Boundary Conditions

  A surface gets its boundary condition from an outside cell that is bounded by it. As long as
  nothing is moved, and no card fails, no other surfaces have boundary conditions: a card that marks
  surfaces goes on to add a cell that is bounded by all of them, and no card but a motion takes a
  surface from a cell.
-/

namespace SerpentCsg

open Card (CellToken)

variable {K : Type}

/-! ### Marked surfaces -/

namespace Geometry

/-- The surface has a boundary condition. -/
def Marked (g : Geometry K) (id : Nat) : Prop :=
  ∃ s, g.surfaces.find? id = some s ∧ s.boundary ≠ .transmission

/-- The surface bounds a cell that has the outside in it. -/
def BoundsOutside (g : Geometry K) (id : Nat) : Prop :=
  ∃ name c r, g.cells.find? name = some c ∧ c.fill = .outside ∧ c.region = some r ∧
    id ∈ r.surfaces

/-- Only surfaces that bound the outside have boundary conditions. -/
def MarksOutside (g : Geometry K) : Prop := ∀ id, g.Marked id → g.BoundsOutside id

theorem marked_congr {g g' : Geometry K} (h : g'.surfaces = g.surfaces) {id : Nat} :
    g'.Marked id ↔ g.Marked id := by
  unfold Marked
  rw [h]

end Geometry

open SerpentCsg.Geometry (marked_congr)

namespace Draft

theorem marksOutside_new (materials : MaterialLibrary) :
    (new materials : Draft K).geometry.MarksOutside := by
  rintro id ⟨s, hs, -⟩
  simp [new, geometry] at hs

/-- Cells that stay go on to bound what they bound. -/
theorem boundsOutside_mono {d d' : Draft K}
    (hcells : ∀ name c, d.cells.find? name = some c → d'.cells.find? name = some c) {id : Nat}
    (h : d.geometry.BoundsOutside id) : d'.geometry.BoundsOutside id := by
  obtain ⟨name, c, r, hc, hfill, hr, hid⟩ := h
  exact ⟨name, c, r, hcells name c hc, hfill, hr, hid⟩

/-! ### Which surfaces a card marks -/

/-- A new surface has no boundary condition. -/
theorem marked_addSurface {d : Draft K} {name : String} {kind : SurfaceKind K} {id : Nat}
    (h : (d.addSurface name kind).1.geometry.Marked id) : d.geometry.Marked id := by
  obtain ⟨s, hs, hmarked⟩ := h
  have hs : (d.surfaces.insert (d.addSurface name kind).2
      { id := (d.addSurface name kind).2, name, kind }).find? id = some s := hs
  rw [Table.find?_insert] at hs
  split at hs
  · obtain rfl := Option.some.inj hs
    exact absurd rfl hmarked
  · exact ⟨s, hs, hmarked⟩

theorem marked_addShape {d : Draft K} {name : String} {shape : Shape K} {id : Nat}
    (h : (d.addShape name shape).geometry.Marked id) : d.geometry.Marked id := by
  cases shape with
  | infinite => exact h
  | primitive kind => exact marked_addSurface h
  | composite kinds =>
    let P (s : Draft K × Nat) := ∀ id, s.1.geometry.Marked id → d.geometry.Marked id
    have hnew (s : Draft K × Nat) (kind : SurfaceKind K) (hs : P s) :
        P (addFace name s kind).1 ∧ True :=
      ⟨fun id hid => hs id (marked_addSurface hid), trivial⟩
    have hfaces := Composite.mapAccum_invariant (Q := fun _ _ => True) hnew
      (fun _ _ _ _ _ => trivial) (s := (d, 0)) (fun _ hid => hid) kinds
    exact hfaces.1 id h

theorem marked_markSurface {d : Draft K} {other id : Nat}
    (h : (d.markSurface other).geometry.Marked id) : d.geometry.Marked id ∨ id = other := by
  obtain ⟨s, hs, hmarked⟩ := h
  have hs : (d.surfaces.modify other _).find? id = some s := hs
  rw [Table.find?_modify] at hs
  split at hs
  · next heq => exact .inr heq.symm
  · exact .inl ⟨s, hs, hmarked⟩

/-- The surfaces that an outside cell marks are those that its expression names. -/
theorem marked_markSurfaces {d : Draft K} {tokens : List CellToken} {id : Nat}
    (h : (d.markSurfaces tokens).geometry.Marked id) :
    d.geometry.Marked id ∨ id ∈ d.surfacesNamed tokens := by
  have hlist : ∀ (ids : List Nat) (d : Draft K), (ids.foldl markSurface d).geometry.Marked id →
      d.geometry.Marked id ∨ id ∈ ids := by
    intro ids
    induction ids with
    | nil => exact fun d h => .inl h
    | cons other ids ih =>
      intro d h
      rcases ih (d.markSurface other) h with hmarked | hmem
      · rcases marked_markSurface hmarked with hbefore | rfl
        · exact .inl hbefore
        · exact .inr List.mem_cons_self
      · exact .inr (List.mem_cons_of_mem other hmem)
  exact hlist _ d h

theorem surfacesNamed_markSurfaces (d : Draft K) (tokens : List CellToken) :
    (d.markSurfaces tokens).surfacesNamed tokens = d.surfacesNamed tokens := by
  have hlist : ∀ (ids : List Nat) (d : Draft K),
      (ids.foldl markSurface d).surfacesNamed tokens = d.surfacesNamed tokens := by
    intro ids
    induction ids with
    | nil => exact fun _ => rfl
    | cons id ids ih => exact fun d => ih (d.markSurface id)
  exact hlist _ d

/-- What a cell card marks bounds the cell that it adds, which has the outside in it. -/
theorem marked_addPlannedCell {d : Draft K} {plan : CellPlan}
    (hdone : (d.addPlannedCell plan).fault = none) {id : Nat}
    (h : (d.addPlannedCell plan).draft.geometry.Marked id) :
    d.geometry.Marked id ∨ (d.addPlannedCell plan).draft.geometry.BoundsOutside id := by
  rcases addPlannedCell_done hdone with ⟨-, hsame⟩ | ⟨marked, r, hmarked, hregion, hsame⟩
  · rw [hsame] at hdone h
    exact .inl ((marked_congr (registerCell_done hdone).1).1 h)
  · rw [hsame] at hdone h ⊢
    obtain ⟨hsurfaces, c, hc, hfill, hr⟩ := registerCell_done hdone
    have hid : marked.geometry.Marked id := (marked_congr hsurfaces).1 h
    by_cases houtside : plan.fill = .outside
    · rw [if_pos houtside] at hmarked
      subst hmarked
      rcases marked_markSurfaces hid with hbefore | hnamed
      · exact .inl hbefore
      · -- The region of the cell has all surfaces that are named.
        rw [← surfacesNamed_markSurfaces, ← mem_surfaces_of_regionOf hregion] at hnamed
        exact .inr ⟨plan.card.name, c, r, hc, hfill.trans houtside, hr, hnamed⟩
    · rw [if_neg houtside] at hmarked
      exact .inl (hmarked ▸ hid)

theorem marked_addCellCard {d : Draft K} {text : String} (hdone : (d.addCellCard text).fault = none)
    {id : Nat} (h : (d.addCellCard text).draft.geometry.Marked id) :
    d.geometry.Marked id ∨ (d.addCellCard text).draft.geometry.BoundsOutside id := by
  unfold addCellCard at hdone h ⊢
  cases hplan : d.planCell text with
  | error fault => simp [hplan, Outcome.stopped] at hdone
  | ok plan =>
    simp only [hplan] at hdone h ⊢
    exact marked_addPlannedCell hdone h

/-! ### Cards -/

variable [Scalar K]

theorem marked_addSurfaceCard {d d' : Draft K} {text : String}
    (hadd : d.addSurfaceCard text = .ok d') {id : Nat} (h : d'.geometry.Marked id) :
    d.geometry.Marked id := by
  obtain ⟨name, shape, -, rfl⟩ := addSurfaceCard_eq_ok hadd
  exact marked_addShape h

/-- A card that moves nothing, and is worked in to the end, marks surfaces that bound the outside
    only. -/
theorem marked_addCard {d : Draft K} {card : Card} (hkind : card.kind ≠ .motion)
    (hdone : (d.addCard card).fault = none) {id : Nat}
    (h : (d.addCard card).draft.geometry.Marked id) :
    d.geometry.Marked id ∨ (d.addCard card).draft.geometry.BoundsOutside id := by
  by_cases hsetting : IsSetting card
  · -- Settings change no surfaces.
    have hsurfaces : (d.addCard card).draft.surfaces = d.surfaces := by
      rcases addCard_sets d hsetting with hsame | hsets
      · rw [hsame]
      · rw [hsets.frame]
    exact .inl ((marked_congr hsurfaces).1 h)
  · unfold addCard at h hdone ⊢
    cases hcard : card.kind with
    | boundaries => exact absurd (.inl hcard) hsetting
    | root => exact absurd (.inr hcard) hsetting
    | surface =>
      simp only [hcard] at h
      refine .inl ?_
      revert h
      exact draft_ofStep (P := fun d' => d'.geometry.Marked id → d.geometry.Marked id)
        (fun h => h) fun d' hadd => marked_addSurfaceCard hadd
    | cellMaterial | cellFill | cellOutside =>
      simp only [hcard] at h hdone ⊢
      exact marked_addCellCard hdone h
    | lattice =>
      simp only [hcard] at h
      have hsurfaces : (d.addLatticeCard card.text).draft.surfaces = d.surfaces := by
        rw [addLatticeCard_frame]
      exact .inl ((marked_congr hsurfaces).1 h)
    | motion => exact absurd hcard hkind
    | other =>
      simp only [hcard] at h
      exact .inl h

/-- A card that moves nothing, and is worked in to the end, keeps boundary conditions at the
    outside. -/
theorem marksOutside_addCard {d : Draft K} (hsound : d.Sound) (h : d.geometry.MarksOutside)
    {card : Card} (hkind : card.kind ≠ .motion) (hdone : (d.addCard card).fault = none) :
    (d.addCard card).draft.geometry.MarksOutside := by
  intro id hid
  rcases marked_addCard hkind hdone hid with hbefore | hbounds
  · refine boundsOutside_mono (fun name c hc => ?_) (h id hbefore)
    rcases addCard_cases hsound card with ⟨-, hsame | hsets⟩ | ⟨hmotion, -⟩ | ⟨-, hdeclaring⟩
    · rw [hsame, hc]
    · generalize (d.addCard card).draft = changed at hsets ⊢
      cases hsets <;> exact hc
    · exact absurd hmotion hkind
    · exact find?_cells_declaring hdeclaring hc
  · exact hbounds

/-- As long as nothing is moved and no card fails, boundary conditions are at the outside only. -/
theorem marksOutside_addCards {d d' : Draft K} (hsound : d.Sound) (h : d.geometry.MarksOutside)
    {cards : List Card} (hkinds : ∀ card ∈ cards, card.kind ≠ .motion)
    (hdone : d.addCards cards = (d', none)) : d'.geometry.MarksOutside := by
  let P (d : Draft K) := d.Sound ∧ d.geometry.MarksOutside
  suffices hboth : P d' from hboth.2
  refine addCards_done_invariant (fun d card hcard hd hdone => ?_) ⟨hsound, h⟩ hdone
  obtain ⟨hsound, hmarks⟩ := hd
  exact ⟨hsound.changes (addCard_changes hsound card),
    marksOutside_addCard hsound hmarks (hkinds card hcard) hdone⟩

end Draft
end SerpentCsg
