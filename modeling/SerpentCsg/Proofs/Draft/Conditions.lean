import SerpentCsg.Proofs.Draft.Marking

/-! # Conditions at the Outside

  Every surface that bounds an outside cell has the condition that the settings give to a surface of
  its kind. The cell marks its surfaces by their names, before its region is made, and the region
  has the same surfaces in the end, on whichever side of them the cell is.

  A surface that is declared later bounds nothing yet, and a surface that is marked more than
  once gets the same condition every time, as settings come before everything else. So the
  conditions stay right until something is moved.
-/

namespace SerpentCsg

open Card (CellToken)

variable {K : Type}

/-! ### The condition of a kind of surface -/

namespace Boundary

/-- A list of conditions gives a condition to surfaces of a kind. -/
inductive Given (boundaries : List Boundary) : SurfaceKind K → Boundary → Prop where
  /-- A single condition is that of all surfaces. -/
  | everywhere {kind b} : boundaries = [b] → Given boundaries kind b
  /-- With several conditions, a plane across an axis has the one of its axis. -/
  | ofAxis {axis offset b} : 2 ≤ boundaries.length → boundaries[axis.index]? = some b →
      Given boundaries (.axisPlane axis offset) b
  /-- A plane across an axis that has none has the first one. -/
  | missing {axis offset b} : boundaries[axis.index]? = none → boundaries.head? = some b →
      Given boundaries (.axisPlane axis offset) b
  /-- Surfaces of all other kinds have the first one. -/
  | other {kind b} : (∀ axis offset, kind ≠ .axisPlane axis offset) → boundaries.head? = some b →
      Given boundaries kind b

/-- The condition that is chosen for a surface is the one that surfaces of its kind are given. -/
theorem given_choose {boundaries : List Boundary} (hne : boundaries ≠ []) (s : Surface K) :
    Given boundaries s.kind (choose boundaries s.planeAxis?) := by
  match boundaries with
  | [] => exact absurd rfl hne
  | [b] => exact .everywhere rfl
  | b :: second :: others =>
    unfold Surface.planeAxis?
    cases s.kind with
    | axisPlane axis offset =>
      show Given _ _ ((b :: second :: others)[axis.index]?.getD b)
      cases hentry : (b :: second :: others)[axis.index]? with
      | none => exact .missing hentry rfl
      | some own =>
        have htwo : 2 ≤ (b :: second :: others).length := by
          simp only [List.length_cons]
          omega
        exact .ofAxis htwo hentry
    | _ => exact .other (fun _ _ => by simp) rfl

end Boundary

namespace Draft

/-! ### Surfaces that are there already -/

theorem find?_addSurface {d : Draft K} (name : String) (kind : SurfaceKind K) {id : Nat}
    (hid : d.surfaces.contains id = true) :
    (d.addSurface name kind).1.surfaces.find? id = d.surfaces.find? id :=
  Table.find?_insert_of_contains _ (addSurface_fresh d name kind) hid

/-- Whatever is declared under a name, surfaces that are there stay as they are. -/
theorem find?_addShape {d : Draft K} (name : String) (shape : Shape K) {id : Nat}
    (hid : d.surfaces.contains id = true) :
    (d.addShape name shape).surfaces.find? id = d.surfaces.find? id := by
  cases shape with
  | infinite => rfl
  | primitive kind => exact find?_addSurface name kind hid
  | composite kinds =>
    -- Every face is a new surface, next to those that have been added before it.
    let P (s : Draft K × Nat) := s.1.surfaces.find? id = d.surfaces.find? id
    have hnew (s : Draft K × Nat) (kind : SurfaceKind K) (hs : P s) :
        P (addFace name s kind).1 ∧ True := by
      have hthere : s.1.surfaces.contains id = true := by
        unfold Table.contains at hid ⊢
        rwa [show s.1.surfaces.find? id = _ from hs]
      exact ⟨(find?_addSurface (faceName name s.2) kind hthere).trans hs, trivial⟩
    have hfaces := Composite.mapAccum_invariant (Q := fun _ _ => True) hnew
      (fun _ _ _ _ _ => trivial) (s := (d, 0)) rfl kinds
    exact hfaces.1

/-! ### Marking -/

/-- The surface with the condition that is chosen for it. -/
def marked (boundaries : List Boundary) (s : Surface K) : Surface K :=
  { s with boundary := Boundary.choose boundaries s.planeAxis? }

/-- What an expression names is marked, and no other surface. -/
theorem find?_markSurfaces (d : Draft K) (tokens : List CellToken) (id : Nat) :
    (d.markSurfaces tokens).surfaces.find? id =
      if id ∈ d.surfacesNamed tokens then (d.surfaces.find? id).map (marked d.boundaries)
      else d.surfaces.find? id := by
  have hlist : ∀ (ids : List Nat) (d : Draft K), (ids.foldl markSurface d).surfaces.find? id =
      if id ∈ ids then (d.surfaces.find? id).map (marked d.boundaries)
      else d.surfaces.find? id := by
    intro ids
    induction ids with
    | nil => exact fun _ => rfl
    | cons first ids ih =>
      intro d
      have hfirst : (d.markSurface first).surfaces.find? id =
          if first = id then (d.surfaces.find? id).map (marked d.boundaries)
          else d.surfaces.find? id :=
        Table.find?_modify _ _ _ _
      have hrest : (ids.foldl markSurface (d.markSurface first)).surfaces.find? id = _ :=
        ih (d.markSurface first)
      rw [hfirst] at hrest
      rw [List.foldl_cons, hrest]
      by_cases hmem : id ∈ ids <;> by_cases heq : first = id
      · -- The surface is named again, and marking it once more makes no difference.
        rw [if_pos hmem, if_pos heq, if_pos (List.mem_cons_of_mem first hmem), Option.map_map]
        rfl
      · rw [if_pos hmem, if_neg heq, if_pos (List.mem_cons_of_mem first hmem)]
        rfl
      · rw [if_neg hmem, if_pos heq, if_pos (List.mem_cons.2 (.inl heq.symm))]
      · have hnot : id ∉ first :: ids := by
          simpa [hmem] using Ne.symm heq
        rw [if_neg hmem, if_neg heq, if_neg hnot]
  exact hlist _ d

/-! ### What bounds the outside -/

/-- A cell that is registered bounds the outside if it is an outside cell, and no other cell
    comes to do so. -/
theorem boundsOutside_of_registerCell {d : Draft K} {plan : CellPlan} {region : Option Region}
    (hdone : (d.registerCell plan region).fault = none) {id : Nat}
    (h : (d.registerCell plan region).draft.geometry.BoundsOutside id) :
    d.geometry.BoundsOutside id ∨
      plan.fill = .outside ∧ ∃ r, region = some r ∧ id ∈ r.surfaces := by
  obtain ⟨name, c, r, hc, hfill, hr, hid⟩ := h
  obtain ⟨added, hadded⟩ := registerCell_added hdone
  obtain ⟨-, own, hown, hownFill, hownRegion⟩ := registerCell_done hdone
  by_cases hname : name = plan.card.name
  · -- This is the cell of the plan.
    subst hname
    obtain rfl : own = c := Option.some.inj (hown.symm.trans hc)
    exact .inr ⟨hownFill.symm.trans hfill, r, hownRegion.symm.trans hr, hid⟩
  · have hbefore : d.cells.find? name = some c := by
      have hc : (d.registerCell plan region).draft.cells.find? name = some c := hc
      rwa [hadded.cells, Table.find?_insert, hadded.name, if_neg (Ne.symm hname)] at hc
    exact .inl ⟨name, c, r, hbefore, hfill, hr, hid⟩

/-- Surfaces that bound the outside are declared. -/
theorem Sound.contains_of_boundsOutside {d : Draft K} (h : d.Sound) {id : Nat}
    (hid : d.geometry.BoundsOutside id) : d.surfaces.contains id = true := by
  obtain ⟨name, c, r, hc, -, hr, hmem⟩ := hid
  exact (h.cells.find? hc).2.region r hr id hmem

/-! ### The invariant -/

/-- The settings give some conditions, and every surface that bounds the outside has the one that is
    chosen for it among them. -/
structure Conditioned (conditions : List Boundary) (d : Draft K) : Prop where
  boundaries : d.boundaries = conditions
  outside : ∀ id s, d.surfaces.find? id = some s → d.geometry.BoundsOutside id →
    s.boundary = Boundary.choose conditions s.planeAxis?

variable {conditions : List Boundary}

/-- Without cells nothing bounds the outside. -/
theorem conditioned_of_cells_empty {d : Draft K} (hcells : d.cells = .empty) :
    d.Conditioned d.boundaries := by
  refine ⟨rfl, fun id s _ hbounds => ?_⟩
  obtain ⟨name, c, r, hc, -⟩ := hbounds
  have hc : d.cells.find? name = some c := hc
  rw [hcells] at hc
  simp at hc

/-- Where no cell is added and nothing that bounds the outside is touched, the conditions stay
    right. -/
theorem Conditioned.of_cells_eq {d d' : Draft K} (h : d.Conditioned conditions)
    (hboundaries : d'.boundaries = d.boundaries) (hcells : d'.cells = d.cells)
    (hsurfaces : ∀ id, d.geometry.BoundsOutside id →
      d'.surfaces.find? id = d.surfaces.find? id) : d'.Conditioned conditions := by
  refine ⟨hboundaries.trans h.boundaries, fun id s hs hbounds => ?_⟩
  have hbefore : d.geometry.BoundsOutside id :=
    boundsOutside_mono (fun _ _ hc => hcells ▸ hc) hbounds
  rw [hsurfaces id hbefore] at hs
  exact h.outside id s hs hbefore

/-- A cell that is planned and worked in to the end has all its surfaces in the right condition. -/
theorem Conditioned.addPlannedCell {d : Draft K} {plan : CellPlan} (h : d.Conditioned conditions)
    (hdone : (d.addPlannedCell plan).fault = none) {id : Nat} {s : Surface K}
    (hs : (d.addPlannedCell plan).draft.surfaces.find? id = some s)
    (hbounds : (d.addPlannedCell plan).draft.geometry.BoundsOutside id) :
    s.boundary = Boundary.choose conditions s.planeAxis? := by
  rcases addPlannedCell_done hdone with ⟨-, hsame⟩ | ⟨next, region, hnext, hregion, hsame⟩
  · -- A cell without a region is bounded by nothing.
    rw [hsame] at hdone hs hbounds
    rw [(registerCell_done hdone).1] at hs
    rcases boundsOutside_of_registerCell hdone hbounds with hbefore | ⟨-, r, hr, -⟩
    · exact h.outside id s hs hbefore
    · simp at hr
  · rw [hsame] at hdone hs hbounds
    rw [(registerCell_done hdone).1] at hs
    have hcases := boundsOutside_of_registerCell hdone hbounds
    by_cases houtside : plan.fill = .outside
    · rw [if_pos houtside] at hnext
      subst hnext
      rw [find?_markSurfaces] at hs
      by_cases hnamed : id ∈ d.surfacesNamed plan.tokens
      · rw [if_pos hnamed, h.boundaries] at hs
        obtain ⟨before, -, rfl⟩ := Option.map_eq_some_iff.1 hs
        rfl
      · -- The new cell is bounded by what its expression names, so it must have been another one.
        rw [if_neg hnamed] at hs
        rcases hcases with hbefore | ⟨-, r, hr, hmem⟩
        · have hcells : (d.markSurfaces plan.tokens).cells = d.cells := by
            rw [markSurfaces_frame]
          exact h.outside id s hs (boundsOutside_mono (fun _ _ hc => hcells ▸ hc) hbefore)
        · obtain rfl := Option.some.inj hr
          rw [mem_surfaces_of_regionOf hregion, surfacesNamed_markSurfaces] at hmem
          exact absurd hmem hnamed
    · rw [if_neg houtside] at hnext
      subst hnext
      rcases hcases with hbefore | ⟨hfill, -⟩
      · exact h.outside id s hs hbefore
      · exact absurd hfill houtside

/-! ### Cards -/

variable [Scalar K]

/-- What is neither a setting nor a motion, and is worked in to the end, keeps the conditions
    right. -/
theorem Conditioned.addCard {d : Draft K} (h : d.Conditioned conditions) (hsound : d.Sound)
    {card : Card} (hsetting : ¬ IsSetting card) (hmotion : card.kind ≠ .motion)
    (hdone : (d.addCard card).fault = none) : (d.addCard card).draft.Conditioned conditions := by
  have heffect := addCard_effect hsound hdone
  by_cases hcell : card.kind.isCell = true
  · -- What a cell card marks is told from its expression, which its effect says nothing about.
    have hboundaries : (d.addCard card).draft.boundaries = d.boundaries := by
      obtain ⟨plan, cell, -, hadded⟩ := heffect.of_isCell hcell
      rw [hadded.frame]
    refine ⟨hboundaries.trans h.boundaries, fun id s hs hbounds => ?_⟩
    rw [addCard_of_isCell d hcell] at hdone hs hbounds
    unfold addCellCard at hdone hs hbounds
    cases hplan : d.planCell card.text with
    | error fault => simp [hplan, Outcome.stopped] at hdone
    | ok plan =>
      simp only [hplan] at hdone hs hbounds
      exact h.addPlannedCell hdone hs hbounds
  · generalize (d.addCard card).draft = d' at heffect ⊢
    cases heffect with
    | setting hset => exact absurd hset hsetting
    | surface _ hadd =>
      have hframe := addSurfaceCard_frame hadd
      obtain ⟨name, shape, -, rfl⟩ := addSurfaceCard_eq_ok hadd
      refine h.of_cells_eq (by rw [hframe]) (by rw [hframe]) fun id hbounds => ?_
      exact find?_addShape name shape (hsound.contains_of_boundsOutside hbounds)
    | cell hkind => exact absurd hkind hcell
    | lattice _ _ _ hadded =>
      have hframe := hadded.frame
      exact h.of_cells_eq (by rw [hframe]) (by rw [hframe]) fun id _ => by rw [hframe]
    | motion hkind => exact absurd hkind hmotion
    | other => exact h

/-- As long as nothing is set or moved, and no card fails, the conditions stay right. -/
theorem Conditioned.addCards {d d' : Draft K} (h : d.Conditioned conditions) (hsound : d.Sound)
    {cards : List Card} (hsettings : ∀ card ∈ cards, ¬ IsSetting card)
    (hmotions : ∀ card ∈ cards, card.kind ≠ .motion) (hdone : d.addCards cards = (d', none)) :
    d'.Conditioned conditions := by
  let P (d : Draft K) := d.Sound ∧ d.Conditioned conditions
  suffices hboth : P d' from hboth.2
  refine addCards_done_invariant (fun d card hcard hd hdone => ?_) ⟨hsound, h⟩ hdone
  exact ⟨hd.1.changes (addCard_changes hd.1 card),
    hd.2.addCard hd.1 (hsettings card hcard) (hmotions card hcard) hdone⟩

end Draft

end SerpentCsg
