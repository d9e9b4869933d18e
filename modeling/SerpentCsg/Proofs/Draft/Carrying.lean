import SerpentCsg.Proofs.Draft.Isolation

/-! # Where Moved Cells Come to Lie

  When a universe is moved, the filling of its cells with a filling universe is placed anew, and
  every other cell is bound to copies of its surfaces that have been moved. Here all steps of the
  motion are said to have been carried out on each of these copies exactly once, whether the copy is
  new or was made by an earlier motion.

  This is a step: `CellCarried` relates a cell before one motion to the cell after it. A run of
  motions is a chain of such steps.
-/

namespace SerpentCsg.Draft

variable {K : Type} [Scalar K] {moves : List (Move K)}

/-- How a cell comes to lie when it is moved. -/
inductive CellCarried (moves : List (Move K)) (d d' : Draft K) (c : Cell K) : Cell K → Prop where
  /-- The filling universe is placed anew. -/
  | filling {u : String} : c.fill = .universe u → CellCarried moves d d' c (c.fillMovedAll moves)
  /-- The region is bound to copies of its surfaces, which have been moved. -/
  | bounds {r : Region} {f : Nat → Nat} :
      (∀ u, c.fill ≠ .universe u) → c.region = some r →
      (∀ id ∈ r.surfaces, ∀ s, d.surfaces.find? id = some s →
        ∃ s', d'.surfaces.find? (f id) = some s' ∧ Becomes moves s s') →
      (∀ id ∈ r.surfaces, d'.owners.contains (f id) = true) →
      CellCarried moves d d' c { c with region := some (r.renumber f) }

/-- How some cells come to lie when they are moved. -/
def Carried (moves : List (Move K)) (names : List String) (d d' : Draft K) : Prop :=
  ∀ name ∈ names, ∀ c, d.cells.find? name = some c →
    ∃ c', d'.cells.find? name = some c' ∧ CellCarried moves d d' c c'

theorem MovesCell.carried {name : String} {d d' : Draft K} (h : MovesCell moves name d d') :
    Carried moves [name] d d' := by
  intro other hother c hc
  obtain rfl := List.mem_singleton.1 hother
  cases h with
  | missing hnone =>
    rw [hnone] at hc
    simp at hc
  | @filling cell u hcell hfill =>
    obtain rfl : cell = c := Option.some.inj (hcell.symm.trans hc)
    refine ⟨cell.fillMovedAll moves, ?_, .filling hfill⟩
    show (d.cells.modify other _).find? other = _
    rw [Table.find?_modify, if_pos rfl, hc]
    rfl
  | @bounds cell r d₁ f hcell hr hfill hrebound hcarries =>
    obtain rfl : cell = c := Option.some.inj (hcell.symm.trans hc)
    refine ⟨{ cell with region := some (r.renumber f) }, ?_, ?_⟩
    · show (d₁.cells.modify other _).find? other = _
      rw [Table.find?_modify, if_pos rfl, hrebound.cells, hc]
      simp [hr]
    · refine .bounds hfill hr hcarries.carried fun id hid => ?_
      exact Table.contains_of_find? (hrebound.owned id hid)

/-- One cell is moved, and then others: what bounds the first is not moved again, and what bounds
    the others has not been moved before. -/
theorem Carried.cons {name : String} {names : List String} {d d₁ d' : Draft K} (ho : d.Owned)
    (ho₁ : d₁.Owned) (hm : Moved [name] d d₁) (hm' : Moved names d₁ d') (hnew : name ∉ names)
    (h : Carried moves [name] d d₁) (h' : Carried moves names d₁ d') :
    Carried moves (name :: names) d d' := by
  intro other hother c hc
  rcases List.mem_cons.1 hother with rfl | hmem
  · obtain ⟨c', hc', hcarried⟩ := h other (List.mem_singleton_self other) c hc
    refine ⟨c', (hm'.others other hnew).trans hc', ?_⟩
    cases hcarried with
    | filling hfill => exact .filling hfill
    | @bounds r f hfill hr hsurfaces howned =>
      refine .bounds hfill hr (fun id hid s hs => ?_) fun id hid => ?_
      · obtain ⟨s', hs', hbecomes⟩ := hsurfaces id hid s hs
        refine ⟨s', hm'.surfaces _ s' hs' fun owner howner hin => ?_, hbecomes⟩
        -- The copy bounds the first cell, so no other cell owns it.
        have hbounds : f id ∈ (r.renumber f).surfaces :=
          Region.mem_surfaces_renumber.2 ⟨id, hid, rfl⟩
        have hsame := ho₁.bounding (f id) owner howner other _ _ hc' rfl hbounds
        exact hnew (hsame ▸ hin)
      · obtain ⟨owner, howner⟩ := Table.contains_iff.1 (howned id hid)
        exact Table.contains_of_find? (hm'.owners _ owner howner)
  · have hne : other ∉ [name] := by
      intro hin
      exact hnew (List.mem_singleton.1 hin ▸ hmem)
    have hc₁ : d₁.cells.find? other = some c := (hm.others other hne).trans hc
    obtain ⟨c', hc', hcarried⟩ := h' other hmem c hc₁
    refine ⟨c', hc', ?_⟩
    cases hcarried with
    | filling hfill => exact .filling hfill
    | @bounds r f hfill hr hsurfaces howned =>
      refine .bounds hfill hr (fun id hid s hs => ?_) howned
      refine hsurfaces id hid s (hm.surfaces id s hs fun owner howner hin => ?_)
      have hsame := ho.bounding id owner howner other c r hc hr hid
      exact hne (hsame ▸ hin)

theorem moveCells_carried (moves : List (Move K)) (names : List String) :
    ∀ {d : Draft K}, d.Sound → d.Owned → names.Nodup →
      Reaches d (Carried moves names d) (d.moveCells moves names) := by
  induction names with
  | nil => exact fun _ _ _ => reaches_done .refl (by simp [Carried])
  | cons name names ih =>
    intro d h ho hnodup
    rw [List.nodup_cons] at hnodup
    have hfirst := moveCell_reaches h moves name
    unfold moveCells
    refine Reaches.andThen (P := fun d₁ => Moving d d₁ ∧ MovesCell moves name d d₁)
      ⟨hfirst.moving, fun hfault => ⟨hfirst.moving, hfirst.done hfault⟩⟩ ?_
    rintro d₁ ⟨hmoving, hcell⟩
    have h₁ := h.moving hmoving
    have ho₁ := ho.changes h hmoving.changes
    have hmoved := moveCells_reaches moves names h₁ hnodup.2
    have hcarried := ih h₁ ho₁ hnodup.2
    refine ⟨hmoving.trans hcarried.moving, fun hfault => ?_⟩
    exact Carried.cons ho ho₁ hcell.moved (hmoved.done hfault) hnodup.1 hcell.carried
      (hcarried.done hfault)

/-! ### Motion cards -/

/-- A card that moves a universe moves its cells, and where they come to lie is up to the numbers of
    the card. -/
theorem addCard_carried {d : Draft K} (hsound : d.Sound) (hl : d.Listed) (ho : d.Owned)
    {card : Card} {parent : String} {args : List K} (hkind : card.kind = .motion)
    (hread : Card.readMotion card.text.toList = some { target := 'U', name := parent, args })
    (hdone : (d.addCard card).fault = none) :
    ∃ moves u, Motion.movesOf { target := 'U', name := parent, args } = .ok moves ∧
      d.universes.find? parent = some u ∧ Moved u.cells d (d.addCard card).draft ∧
      Carried moves u.cells d (d.addCard card).draft := by
  obtain ⟨moves, hmoves, hmove⟩ := addCard_eq_moveUniverse hkind hread hdone
  rw [hmove] at hdone ⊢
  obtain ⟨u, hu, hcells⟩ := moveUniverse_done hdone
  rw [hcells] at hdone ⊢
  have hnodup := hl.nodup parent u hu
  exact ⟨moves, u, hmoves, hu, (moveCells_reaches moves u.cells hsound hnodup).done hdone,
    (moveCells_carried moves u.cells hsound ho hnodup).done hdone⟩

end SerpentCsg.Draft
