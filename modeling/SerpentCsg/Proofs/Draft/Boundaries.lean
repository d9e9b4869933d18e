import SerpentCsg.Proofs.Draft.Carrying
import SerpentCsg.Proofs.Draft.Marking

/-! # Boundary Conditions and Motions

  A copy of a surface has the boundary condition of its original. So when a universe is moved, its
  cells take boundary conditions along to copies that bound nothing else, and the originals
  keep theirs although these cells are no longer bounded by them.

  `Remade` is the invariant of a run of motions. It compares a draft with the one before the first
  motion, given which universes have been moved: their cells are bounded by copies, all others
  by what they were bounded by.
-/

namespace SerpentCsg

variable {K : Type}

/-- The boundary conditions stay at the outside when the cells of certain universes are moved. -/
structure Geometry.MarksStay (g : Geometry K) (moved : String → Prop) : Prop where
  /-- An outside cell that stays where it is keeps the surface. -/
  kept : ∀ id, g.Marked id → ∃ name c r, g.cells.find? name = some c ∧ c.fill = .outside ∧
    c.region = some r ∧ id ∈ r.surfaces ∧ ¬ moved c.parent
  /-- No cell gets a copy of the surface but outside cells. A cell that is filled with a universe
      gets none either, as only the filling moves. -/
  copied : ∀ id, g.Marked id → ∀ name c r, g.cells.find? name = some c → c.region = some r →
    id ∈ r.surfaces → moved c.parent → c.fill = .outside ∨ ∃ u, c.fill = .universe u

namespace Draft

variable [Scalar K]

/-! ### One motion -/

/-- A surface that comes to lie elsewhere keeps its boundary condition. -/
theorem boundary_of_becomes {moves : List (Move K)} {s s' : Surface K} (h : Becomes moves s s') :
    s'.boundary = s.boundary := by
  obtain ⟨copy, -, hboundary, hmoved⟩ := h
  have hkeeps := (movedAll_keeps copy moves).2.2
  rw [hmoved] at hkeeps
  exact hkeeps.trans hboundary

/-- Motions make no surfaces but copies. -/
theorem contains_of_moving {d d' : Draft K} (h : Moving d d') {id : Nat}
    (hid : d'.surfaces.contains id = true) :
    d.surfaces.contains id = true ∨ d'.owners.contains id = true := by
  induction h with
  | refl => exact .inl hid
  | tail _ hlast ih =>
    cases hlast with
    | surface =>
      rw [Table.contains_modify] at hid
      exact ih hid
    | copy _ _ _ hcopy =>
      obtain ⟨s, -, -, rfl⟩ := copySurface_eq_some hcopy
      rw [Table.contains_insert, Bool.or_eq_true, decide_eq_true_iff] at hid
      rcases hid with rfl | hid
      · exact .inr (Table.contains_insert_self _ _ _)
      · rcases ih hid with hbefore | howned
        · exact .inl hbefore
        · exact .inr (Table.contains_insert_of_contains _ _ howned)
    | renumber | filling => exact ih hid

/-- Moving a surface by its name keeps everything but where the surface lies. -/
theorem moveNamedSurface_keeps (d : Draft K) (moves : List (Move K)) (name : String) :
    (d.moveNamedSurface moves name).draft.owners = d.owners ∧
    ∀ id s, d.surfaces.find? id = some s →
      ∃ s', (d.moveNamedSurface moves name).draft.surfaces.find? id = some s' ∧
        s'.boundary = s.boundary := by
  unfold moveNamedSurface
  split
  · next other _ =>
    cases hother : d.surfaces.find? other with
    | none =>
      simp only [moveSurface, hother]
      exact ⟨rfl, fun id s hs => ⟨s, hs, rfl⟩⟩
    | some old =>
      rw [moveSurface_eq moves hother]
      refine ⟨rfl, fun id s hs => ?_⟩
      show ∃ s', (d.surfaces.modify other _).find? id = some s' ∧ _
      rw [Table.find?_modify]
      by_cases heq : other = id
      · subst heq
        obtain rfl : old = s := Option.some.inj (hother.symm.trans hs)
        rw [if_pos rfl, hs]
        exact ⟨_, rfl, (movedAll_keeps old moves).2.2⟩
      · rw [if_neg heq]
        exact ⟨s, hs, rfl⟩
  · exact ⟨rfl, fun id s hs => ⟨s, hs, rfl⟩⟩
  · exact ⟨rfl, fun id s hs => ⟨s, hs, rfl⟩⟩

/-! ### The invariant -/

/-- The cell with the surfaces of its region renumbered. -/
def renumbered (c : Cell K) (f : Nat → Nat) : Cell K :=
  { c with region := c.region.map (·.renumber f) }

omit [Scalar K] in
theorem renumbered_id (c : Cell K) : renumbered c id = c := by
  have hid : (fun r : Region => r.renumber id) = id := funext Region.renumber_id
  unfold renumbered
  rw [hid, Option.map_id]
  rfl

/-- What has become of a cell that is not filled with a universe: it is bounded by surfaces with the
    boundary conditions that those of its region had, by copies if its universe has been moved, and
    by the same surfaces if not. -/
structure CellRemade (d₀ d : Draft K) (moved : Prop) (c : Cell K) (f : Nat → Nat) : Prop where
  boundary : ∀ r, c.region = some r → ∀ id ∈ r.surfaces, ∀ s, d₀.surfaces.find? id = some s →
    ∃ s', d.surfaces.find? (f id) = some s' ∧ s'.boundary = s.boundary
  copies : moved → ∀ r, c.region = some r → ∀ id ∈ r.surfaces, d.owners.contains (f id) = true
  same : ¬ moved → f = id

/-- What has become of a draft since the first motion, if certain universes have been moved. -/
structure Remade (d₀ : Draft K) (moved : String → Prop) (d : Draft K) : Prop where
  bounded : ∀ name c, d₀.cells.find? name = some c → (∀ u, c.fill ≠ .universe u) →
    ∃ f, d.cells.find? name = some (renumbered c f) ∧ CellRemade d₀ d (moved c.parent) c f
  filled : ∀ name c u, d₀.cells.find? name = some c → c.fill = .universe u →
    ∃ c', d.cells.find? name = some c' ∧ c'.fill = c.fill ∧ c'.region = c.region
  /-- No cells come into being. -/
  known : ∀ name, d.cells.contains name = true → d₀.cells.contains name = true
  /-- Surfaces from before keep their boundary conditions. -/
  surfaces : ∀ id s, d₀.surfaces.find? id = some s →
    ∃ s', d.surfaces.find? id = some s' ∧ s'.boundary = s.boundary
  /-- All others are copies. -/
  made : ∀ id, d.surfaces.contains id = true →
    d₀.surfaces.contains id = true ∨ d.owners.contains id = true
  fresh : ∀ id, d.owners.contains id = true → d₀.surfaces.contains id = false

omit [Scalar K] in
theorem remade_refl {d : Draft K} (hnone : d.owners = .empty) :
    Remade d (fun _ => False) d where
  bounded name c hc _ := by
    refine ⟨id, ?_, fun _ _ _ _ s hs => ⟨s, hs, rfl⟩, fun hmoved => absurd hmoved not_false,
      fun _ => rfl⟩
    rw [renumbered_id, hc]
  filled name c u hc _ := ⟨c, hc, rfl, rfl⟩
  known name hname := hname
  surfaces id s hs := ⟨s, hs, rfl⟩
  made id hid := .inl hid
  fresh id howned := by
    rw [hnone] at howned
    simp [Table.contains] at howned

section Step

variable {d₀ d d' : Draft K} {moved : String → Prop}

/-- A cell that is carried along is bound to copies, of its surfaces or of earlier copies. -/
theorem CellRemade.carried {moves : List (Move K)} {before after : Prop} {c c' : Cell K}
    {f : Nat → Nat} (h : CellRemade d₀ d before c f) (hfill : ∀ u, c.fill ≠ .universe u)
    (hafter : after) (hcell : CellCarried moves d d' (renumbered c f) c') :
    ∃ g, c' = renumbered c g ∧ CellRemade d₀ d' after c g := by
  cases hcell with
  | filling hfilled => exact absurd hfilled (hfill _)
  | @bounds q g _ hq hsurfaces howned =>
    obtain ⟨r, hr, rfl⟩ := Option.map_eq_some_iff.1 hq
    have hcopy {id : Nat} (hid : id ∈ r.surfaces) : f id ∈ (r.renumber f).surfaces :=
      Region.mem_surfaces_renumber.2 ⟨id, hid, rfl⟩
    refine ⟨g ∘ f, ?_, ?_, ?_, fun hno => absurd hafter hno⟩
    · simp [renumbered, hr, Region.renumber_renumber]
    · intro r' hr' id hid s hs
      obtain rfl : r = r' := Option.some.inj (hr.symm.trans hr')
      obtain ⟨s₁, hs₁, hboundary⟩ := h.boundary r hr id hid s hs
      obtain ⟨s', hs', hbecomes⟩ := hsurfaces (f id) (hcopy hid) s₁ hs₁
      exact ⟨s', hs', (boundary_of_becomes hbecomes).trans hboundary⟩
    · intro _ r' hr' id hid
      obtain rfl : r = r' := Option.some.inj (hr.symm.trans hr')
      exact howned (f id) (hcopy hid)

theorem contains_owners_moved {names : List String} (hm : Moved names d d') {id : Nat}
    (howned : d.owners.contains id = true) : d'.owners.contains id = true := by
  obtain ⟨owner, howner⟩ := Table.contains_iff.1 howned
  exact Table.contains_of_find? (hm.owners id owner howner)

/-- What bounds a cell that is not among those that are moved belongs to it or to nobody, and so
    is not moved either. -/
theorem CellRemade.kept {names : List String} {before after : Prop} {name : String} {c : Cell K}
    {f : Nat → Nat} (h : CellRemade d₀ d before c f) (ho : d.Owned) (hm : Moved names d d')
    (hout : name ∉ names) (hfound : d.cells.find? name = some (renumbered c f))
    (hafter : after ↔ before) : CellRemade d₀ d' after c f where
  boundary r hr id hid s hs := by
    obtain ⟨s₁, hs₁, hboundary⟩ := h.boundary r hr id hid s hs
    refine ⟨s₁, hm.surfaces (f id) s₁ hs₁ fun owner howner hin => ?_, hboundary⟩
    have hbounds : f id ∈ (r.renumber f).surfaces :=
      Region.mem_surfaces_renumber.2 ⟨id, hid, rfl⟩
    have hsame := ho.bounding (f id) owner howner name _ (r.renumber f) hfound
      (by simp [renumbered, hr]) hbounds
    exact hout (hsame ▸ hin)
  copies hmoved r hr id hid := contains_owners_moved hm (h.copies (hafter.1 hmoved) r hr id hid)
  same hno := h.same fun hmoved => hno (hafter.2 hmoved)

/-- A surface that is moved by its name remains what it is for the boundary conditions. -/
theorem Remade.moveNamedSurface (h : Remade d₀ moved d) (moves : List (Move K)) (name : String) :
    Remade d₀ moved (d.moveNamedSurface moves name).draft := by
  obtain ⟨howners, hsurfaces⟩ := moveNamedSurface_keeps d moves name
  have hcells := moveNamedSurface_cells d moves name
  have hmoving := moveNamedSurface_moving d moves name
  -- Boundary conditions are compared with those in between.
  have hthrough {id : Nat} {s : Surface K} {b : Boundary} (hs : d.surfaces.find? id = some s)
      (hb : s.boundary = b) :
      ∃ s', (d.moveNamedSurface moves name).draft.surfaces.find? id = some s' ∧
        s'.boundary = b := by
    obtain ⟨s', hs', hboundary⟩ := hsurfaces id s hs
    exact ⟨s', hs', hboundary.trans hb⟩
  generalize (d.moveNamedSurface moves name).draft = d' at *
  constructor
  case bounded =>
    intro other c hc hfill
    obtain ⟨f, hfound, hremade⟩ := h.bounded other c hc hfill
    refine ⟨f, hcells ▸ hfound, fun r hr id hid s hs => ?_, ?_, hremade.same⟩
    · obtain ⟨s₁, hs₁, hboundary⟩ := hremade.boundary r hr id hid s hs
      exact hthrough hs₁ hboundary
    · rw [howners]
      exact hremade.copies
  case filled =>
    rw [hcells]
    exact h.filled
  case known =>
    rw [hcells]
    exact h.known
  case surfaces =>
    intro id s hs
    obtain ⟨s₁, hs₁, hboundary⟩ := h.surfaces id s hs
    exact hthrough hs₁ hboundary
  case made =>
    intro id hid
    rcases contains_of_moving hmoving hid with hbefore | howned
    · rw [howners]
      exact h.made id hbefore
    · exact .inr howned
  case fresh =>
    rw [howners]
    exact h.fresh

/-- The cells of one more universe are moved. -/
theorem Remade.moveUniverse {moves : List (Move K)} (h : Remade d₀ moved d) (hl : d.Listed)
    (ho : d.Owned) (hmoving : Moving d d') {parent : String} {u : Universe K}
    (hu : d.universes.find? parent = some u) (hm : Moved u.cells d d')
    (hcarried : Carried moves u.cells d d') :
    Remade d₀ (fun v => moved v ∨ v = parent) d' := by
  constructor
  case bounded =>
    intro name c hc hfill
    obtain ⟨f, hfound, hremade⟩ := h.bounded name c hc hfill
    have hmember := hl.mem_cells_iff hu hfound
    by_cases hparent : c.parent = parent
    · obtain ⟨c', hc', hcell⟩ := hcarried name (hmember.2 hparent) _ hfound
      have hafter : moved c.parent ∨ c.parent = parent := .inr hparent
      obtain ⟨g, rfl, hcarried⟩ := hremade.carried hfill hafter hcell
      exact ⟨g, hc', hcarried⟩
    · have hout : name ∉ u.cells := fun hmem => hparent (hmember.1 hmem)
      have hsame : moved c.parent ∨ c.parent = parent ↔ moved c.parent := or_iff_left hparent
      exact ⟨f, (hm.others name hout).trans hfound, hremade.kept ho hm hout hfound hsame⟩
  case filled =>
    intro name c v hc hfill
    obtain ⟨c₁, hc₁, hfill₁, hregion₁⟩ := h.filled name c v hc hfill
    by_cases hmem : name ∈ u.cells
    · obtain ⟨c', hc', hcell⟩ := hcarried name hmem c₁ hc₁
      cases hcell with
      | filling _ =>
        obtain ⟨-, -, hfill', hregion'⟩ := fillMovedAll_keeps c₁ moves
        exact ⟨_, hc', hfill'.trans hfill₁, hregion'.trans hregion₁⟩
      | bounds hplain => exact absurd (hfill₁.trans hfill) (hplain v)
    · exact ⟨c₁, (hm.others name hmem).trans hc₁, hfill₁, hregion₁⟩
  case known =>
    intro name hname
    by_cases hmem : name ∈ u.cells
    · obtain ⟨c, hc, -⟩ := hl.declared parent u hu name hmem
      exact h.known name (Table.contains_of_find? hc)
    · obtain ⟨c', hc'⟩ := Table.contains_iff.1 hname
      rw [hm.others name hmem] at hc'
      exact h.known name (Table.contains_of_find? hc')
  case surfaces =>
    intro id s hs
    obtain ⟨s₁, hs₁, hboundary⟩ := h.surfaces id s hs
    refine ⟨s₁, hm.surfaces id s₁ hs₁ fun owner howner _ => ?_, hboundary⟩
    -- A surface from before the first motion is no copy.
    have hfresh := h.fresh id (Table.contains_of_find? howner)
    rw [Table.contains_of_find? hs] at hfresh
    simp at hfresh
  case made =>
    intro id hid
    rcases contains_of_moving hmoving hid with hbefore | howned
    · rcases h.made id hbefore with hfirst | howned
      · exact .inl hfirst
      · exact .inr (contains_owners_moved hm howned)
    · exact .inr howned
  case fresh =>
    intro id howned
    obtain ⟨owner, howner⟩ := Table.contains_iff.1 howned
    rcases hm.made id owner howner with hbefore | ⟨-, hnew⟩
    · exact h.fresh id (Table.contains_of_find? hbefore)
    · rw [Bool.eq_false_iff] at hnew ⊢
      intro hthere
      obtain ⟨s, hs⟩ := Table.contains_iff.1 hthere
      obtain ⟨s₁, hs₁, -⟩ := h.surfaces id s hs
      exact hnew (Table.contains_of_find? hs₁)

end Step

/-! ### Runs of motions -/

/-- Motions that all succeed, which move those universes that cards among them name. -/
theorem remade_addCards {d₀ d' : Draft K} {cards : List Card}
    (hkinds : ∀ card ∈ cards, card.kind = .motion) :
    ∀ {moved : String → Prop} {d : Draft K}, d.Sound → d.Listed → d.Owned → Remade d₀ moved d →
      d.addCards cards = (d', none) →
      Remade d₀ (fun v => moved v ∨ ∃ card ∈ cards, MovesUniverse K card v) d' := by
  induction cards with
  | nil =>
    intro moved d _ _ _ h hdone
    obtain ⟨rfl, -⟩ := Prod.mk.inj hdone
    simpa using h
  | cons card cards ih =>
    intro moved d hsound hl ho h hdone
    obtain ⟨hfirst, hrest⟩ := addCards_cons_done hdone
    rw [List.forall_mem_cons] at hkinds
    have hchanges := addCard_changes hsound card
    have hmoving : Moving d (d.addCard card).draft := by
      rw [addCard_motion d hkinds.1]
      exact addMotionCard_moving hsound card.text
    -- What the card moves is added to what has been moved before.
    have hstep : Remade d₀ (fun v => moved v ∨ MovesUniverse K card v) (d.addCard card).draft := by
      by_cases hcard : ∃ parent, MovesUniverse K card parent
      · obtain ⟨parent, hkind, args, hread⟩ := hcard
        have hnames (v : String) : MovesUniverse K card v ↔ v = parent := by
          constructor
          · rintro ⟨-, args', hread'⟩
            have heq := hread'.symm.trans hread
            simp only [Option.some.injEq, Card.MotionCard.mk.injEq] at heq
            exact heq.2.1
          · rintro rfl
            exact ⟨hkind, args, hread⟩
        obtain ⟨moves, u, -, hu, hmoved, hcarried⟩ :=
          addCard_carried hsound hl ho hkind hread hfirst
        simpa only [hnames] using h.moveUniverse hl ho hmoving hu hmoved hcarried
      · rcases addCard_motion_cases hkinds.1 hfirst with hmoves | ⟨moves, name, hmove⟩
        · exact absurd hmoves hcard
        · have hnone (v : String) : ¬ MovesUniverse K card v := fun hv => hcard ⟨v, hv⟩
          rw [hmove]
          simpa only [hnone, or_false] using h.moveNamedSurface moves name
    have hlast := ih hkinds.2 (hsound.changes hchanges) (hl.changes hchanges)
      (ho.changes hsound hchanges) hstep hrest
    simpa only [List.exists_mem_cons_iff, or_assoc] using hlast

/-! ### What the motions leave of boundary conditions -/

section Marks

variable {d₀ d : Draft K} {moved : String → Prop}

omit [Scalar K]

/-- Copies bounded no cell before the first motion. -/
theorem Remade.not_mem_surfaces (h : Remade d₀ moved d) (hsound₀ : d₀.Sound) {id : Nat}
    (howned : d.owners.contains id = true) {name : String} {c : Cell K} {r : Region}
    (hc : d₀.cells.find? name = some c) (hr : c.region = some r) : id ∉ r.surfaces := by
  intro hid
  have hfresh := h.fresh id howned
  rw [(hsound₀.cells.find? hc).2.region r hr id hid] at hfresh
  simp at hfresh

/-- A cell was there before the first motion, and has become what it is from that. -/
theorem Remade.cell_before (h : Remade d₀ moved d) {name : String} {c' : Cell K}
    (hc' : d.cells.find? name = some c') :
    ∃ c, d₀.cells.find? name = some c ∧
      ((∃ u, c.fill = .universe u ∧ c'.fill = c.fill ∧ c'.region = c.region) ∨
        ∃ f, c' = renumbered c f ∧ CellRemade d₀ d (moved c.parent) c f) := by
  obtain ⟨c, hc⟩ := Table.contains_iff.1 (h.known name (Table.contains_of_find? hc'))
  refine ⟨c, hc, ?_⟩
  by_cases hfilled : ∃ u, c.fill = .universe u
  · obtain ⟨u, hu⟩ := hfilled
    obtain ⟨c₁, hc₁, hfill₁, hregion₁⟩ := h.filled name c u hc hu
    obtain rfl : c' = c₁ := Option.some.inj (hc'.symm.trans hc₁)
    exact .inl ⟨u, hu, hfill₁, hregion₁⟩
  · obtain ⟨f, hfound, hremade⟩ := h.bounded name c hc fun u hu => hfilled ⟨u, hu⟩
    exact .inr ⟨f, Option.some.inj (hc'.symm.trans hfound), hremade⟩

/-- Boundary conditions that are at the outside after the motions have stayed there. -/
theorem Remade.marksStay (h : Remade d₀ moved d) (ho : d.Owned) (hmarks : d.geometry.MarksOutside) :
    d₀.geometry.MarksStay moved := by
  constructor
  case kept =>
    -- The surface keeps its condition, so it bounds an outside cell, and not as a copy.
    rintro id ⟨s, hs, hmarked⟩
    obtain ⟨s', hs', hboundary⟩ := h.surfaces id s hs
    obtain ⟨name, c', r', hc', hfill', hr', hmem⟩ := hmarks id ⟨s', hs', by rwa [hboundary]⟩
    obtain ⟨c, hc, ⟨u, hu, hsame, -⟩ | ⟨f, rfl, hremade⟩⟩ := h.cell_before hc'
    · rw [hfill', hu] at hsame
      simp at hsame
    · obtain ⟨r, hr, rfl⟩ := Option.map_eq_some_iff.1 hr'
      obtain ⟨old, hold, heq⟩ := Region.mem_surfaces_renumber.1 hmem
      have hstill : ¬ moved c.parent := by
        intro hmoved
        have hfresh := h.fresh (f old) (hremade.copies hmoved r hr old hold)
        have hthere : d₀.surfaces.contains id = true := Table.contains_of_find? hs
        rw [heq, hthere] at hfresh
        simp at hfresh
      rw [hremade.same hstill] at heq
      obtain rfl : old = id := heq
      exact ⟨name, c, r, hc, hfill', hr, hold, hstill⟩
  case copied =>
    -- The copy has the same condition, and bounds the cell that was moved and no other.
    rintro id ⟨s, hs, hmarked⟩ name c r hc hr hmem hmoved
    by_cases hfilled : ∃ u, c.fill = .universe u
    · exact .inr hfilled
    · obtain ⟨f, hfound, hremade⟩ := h.bounded name c hc fun u hu => hfilled ⟨u, hu⟩
      obtain ⟨s', hs', hboundary⟩ := hremade.boundary r hr id hmem s hs
      obtain ⟨other, c₂, r₂, hc₂, hfill₂, hr₂, hmem₂⟩ :=
        hmarks (f id) ⟨s', hs', by rwa [hboundary]⟩
      obtain ⟨owner, howner⟩ := Table.contains_iff.1 (hremade.copies hmoved r hr id hmem)
      have hbounds : f id ∈ (r.renumber f).surfaces :=
        Region.mem_surfaces_renumber.2 ⟨id, hmem, rfl⟩
      have hfirst := ho.bounding (f id) owner howner other c₂ r₂ hc₂ hr₂ hmem₂
      have hsecond := ho.bounding (f id) owner howner name _ (r.renumber f) hfound
        (by simp [renumbered, hr]) hbounds
      have hother : other = name := hfirst.trans hsecond.symm
      have hsame : some (renumbered c f) = some c₂ := (hother ▸ hfound).symm.trans hc₂
      obtain rfl := Option.some.inj hsame
      exact .inl hfill₂

/-- Boundary conditions that stay at the outside are there after the motions. -/
theorem Remade.marksOutside (h : Remade d₀ moved d) (hsound₀ : d₀.Sound) (hsettled : d.Settled)
    (hstay : d₀.geometry.MarksStay moved) : d.geometry.MarksOutside := by
  rintro id ⟨s', hs', hmarked⟩
  rcases h.made id (Table.contains_of_find? hs') with hthere | howned
  · obtain ⟨s, hs⟩ := Table.contains_iff.1 hthere
    obtain ⟨s₁, hs₁, hboundary⟩ := h.surfaces id s hs
    obtain rfl : s' = s₁ := Option.some.inj (hs'.symm.trans hs₁)
    obtain ⟨name, c, r, hc, hfill, hr, hmem, hstill⟩ :=
      hstay.kept id ⟨s, hs, by rwa [← hboundary]⟩
    obtain ⟨f, hfound, hremade⟩ := h.bounded name c hc fun u hu => by
      rw [hfill] at hu
      simp at hu
    rw [hremade.same hstill, renumbered_id] at hfound
    exact ⟨name, c, r, hfound, hfill, hr, hmem⟩
  · -- A copy bounds its owner, which has been moved.
    obtain ⟨owner, howner⟩ := Table.contains_iff.1 howned
    obtain ⟨c', r', hc', hr', hmem⟩ := hsettled id owner howner
    obtain ⟨c, hc, ⟨-, -, -, hsame⟩ | ⟨f, rfl, hremade⟩⟩ := h.cell_before hc'
    · exact absurd hmem (h.not_mem_surfaces hsound₀ howned hc (hsame.symm.trans hr'))
    · obtain ⟨r, hr, rfl⟩ := Option.map_eq_some_iff.1 hr'
      obtain ⟨old, hold, rfl⟩ := Region.mem_surfaces_renumber.1 hmem
      have hmoved : moved c.parent := by
        by_contra hstill
        rw [hremade.same hstill] at howned
        exact h.not_mem_surfaces hsound₀ howned hc hr hold
      obtain ⟨s, hs⟩ := Table.contains_iff.1 ((hsound₀.cells.find? hc).2.region r hr old hold)
      obtain ⟨s₁, hs₁, hboundary⟩ := hremade.boundary r hr old hold s hs
      obtain rfl : s' = s₁ := Option.some.inj (hs'.symm.trans hs₁)
      have hmark : d₀.geometry.Marked old := ⟨s, hs, by rwa [← hboundary]⟩
      rcases hstay.copied old hmark owner c r hc hr hold hmoved with houtside | ⟨u, hu⟩
      · exact ⟨owner, _, r.renumber f, hc', houtside, hr', hmem⟩
      · -- A cell that is filled with a universe gets no copies.
        obtain ⟨c₁, hc₁, -, hregion₁⟩ := h.filled owner c u hc hu
        have hsame : some (renumbered c f) = some c₁ := hc'.symm.trans hc₁
        obtain rfl := Option.some.inj hsame
        have hkept : c.region = some (r.renumber f) := hregion₁.symm.trans hr'
        exact absurd hmem (h.not_mem_surfaces hsound₀ howned hc hkept)

end Marks

end Draft
end SerpentCsg
