import Mathlib.Data.List.Perm.Subperm
import SerpentCsg.Proofs.Draft.Ownership

/-! # How Many Copies Are Made

  The copies of a cell are made when it is moved for the first time, and later motions move them. So
  there are never more copies of a cell than surfaces that bound it.

  This takes that no motion has failed. A motion that fails between two cells, or between two
  surfaces of one cell, leaves copies behind that bound nothing, and the next motion makes new
  ones. `Settled` says that there are none of these: every copy bounds its owner.

  - `copies` counts records of owners, and `Makes` the copies as they are made, one change after
    another. `copies_eq_made`: they are the same number.
  - `copies_le_surfaceCount`: a cell of a settled draft has no more copies than surfaces.
-/

namespace SerpentCsg.Draft

variable {K : Type}

/-! ### Copies that bound their owner -/

/-- Number of copies that have been made for a cell. -/
def copies (d : Draft K) (name : String) : Nat := d.owners.values.count name

/-- Every copy bounds the cell that owns it. -/
def Settled (d : Draft K) : Prop :=
  ∀ id owner, d.owners.find? id = some owner →
    ∃ c r, d.cells.find? owner = some c ∧ c.region = some r ∧ id ∈ r.surfaces

theorem settled_new (materials : MaterialLibrary) : (new materials : Draft K).Settled := by
  intro id owner howner
  simp [new] at howner

theorem owners_declares {d d' : Draft K} (h : Declares d d') : d'.owners = d.owners := by
  cases h with
  | mention name => exact ensureUniverse_owners d name
  | @cell _ cell hadd =>
    obtain ⟨-, -, rfl⟩ := addCell_eq_ok hadd
    exact ensureUniverse_owners d cell.parent
  | _ => rfl

theorem owners_declaring {d d' : Draft K} (h : Declaring d d') : d'.owners = d.owners := by
  induction h with
  | refl => rfl
  | tail _ hlast ih => exact (owners_declares hlast).trans ih

theorem Settled.sets {d d' : Draft K} (h : d.Settled) (hs : Sets d d') : d'.Settled := by
  cases hs <;> exact h

theorem Settled.declares {d d' : Draft K} (h : d.Settled) (hd : Declares d d') : d'.Settled := by
  intro id owner howner
  rw [owners_declares hd] at howner
  obtain ⟨c, r, hc, hr, hid⟩ := h id owner howner
  exact ⟨c, r, find?_cells_declares hd hc, hr, hid⟩

theorem Settled.declaring {d d' : Draft K} (h : d.Settled) (hd : Declaring d d') : d'.Settled := by
  induction hd with
  | refl => exact h
  | tail _ hlast ih => exact ih.declares hlast

variable [Scalar K]

/-! ### Copies that are made -/

omit [Scalar K] in
/-- A copy is one more surface, under a number that was free, and one more record of an owner. -/
theorem copySurface_adds {d d' : Draft K} (h : d.Sound) {owner : String} {id copy : Nat}
    (hcopy : d.copySurface owner id = some (d', copy)) :
    (∃ s, d'.surfaces.entries = d.surfaces.entries ++ [(copy, s)]) ∧
      d'.owners.entries = d.owners.entries ++ [(copy, owner)] := by
  obtain ⟨s, -, hfree, rfl⟩ := copySurface_eq_some hcopy
  exact ⟨⟨_, Table.entries_insert _ hfree⟩, Table.entries_insert owner (h.not_owned hfree)⟩

omit [Scalar K] in
theorem copies_copySurface {d d' : Draft K} (h : d.Sound) {owner : String} {id copy : Nat}
    (hcopy : d.copySurface owner id = some (d', copy)) (name : String) :
    d'.copies name = d.copies name + if owner = name then 1 else 0 := by
  obtain ⟨-, howners⟩ := copySurface_adds h hcopy
  unfold copies Table.values
  rw [howners, List.map_append, List.count_append]
  simp [List.count_singleton]

/-- Every change but the making of a copy leaves the records of owners as they are. -/
theorem owners_or_copySurface {d d' : Draft K} (h : Change d d') :
    d'.owners = d.owners ∨ ∃ owner id copy, d.copySurface owner id = some (d', copy) := by
  cases h with
  | sets hsets =>
    left
    cases hsets <;> rfl
  | declares hdeclares => exact .inl (owners_declares hdeclares)
  | moves hmoves =>
    cases hmoves with
    | copy _ _ _ hcopy => exact .inr ⟨_, _, _, hcopy⟩
    | surface | renumber | filling => exact .inl rfl

/-- Changes one after another, with the number of copies that they make for a cell. -/
inductive Makes (name : String) : Nat → Draft K → Draft K → Prop where
  | refl (d : Draft K) : Makes name 0 d d
  /-- One more copy is made for the cell. -/
  | copy {n id copy : Nat} {d d' d'' : Draft K} :
      Makes name n d d' → Change d' d'' → d'.copySurface name id = some (d'', copy) →
      Makes name (n + 1) d d''
  /-- Something else is changed. -/
  | other {n : Nat} {d d' d'' : Draft K} :
      Makes name n d d' → Change d' d'' →
      (∀ id copy, d'.copySurface name id ≠ some (d'', copy)) → Makes name n d d''

theorem makes_of_changes (name : String) {d d' : Draft K} (h : Changes d d') :
    ∃ n, Makes name n d d' := by
  induction h with
  | refl => exact ⟨0, .refl d⟩
  | @tail between last _ hlast ih =>
    obtain ⟨n, hmakes⟩ := ih
    by_cases hcopy : ∃ id copy, between.copySurface name id = some (last, copy)
    · obtain ⟨id, copy, hcopy⟩ := hcopy
      exact ⟨n + 1, hmakes.copy hlast hcopy⟩
    · push Not at hcopy
      exact ⟨n, hmakes.other hlast hcopy⟩

theorem Makes.changes {name : String} {n : Nat} {d d' : Draft K} (h : Makes name n d d') :
    Changes d d' := by
  induction h with
  | refl => exact .refl
  | copy _ hlast _ ih | other _ hlast _ ih => exact ih.tail hlast

/-- The copies of a cell are as many as have been made for it. -/
theorem copies_of_makes {name : String} {n : Nat} {d d' : Draft K} (h : d.Sound)
    (hmakes : Makes name n d d') : d'.copies name = d.copies name + n := by
  induction hmakes with
  | refl => rfl
  | copy hbefore _ hcopy ih =>
    rw [copies_copySurface (h.changes hbefore.changes) hcopy, if_pos rfl, ih h, Nat.add_assoc]
  | other hbefore hlast hnone ih =>
    rcases owners_or_copySurface hlast with howners | ⟨owner, id, copy, hcopy⟩
    · rw [← ih h]
      exact congrArg (fun owners => owners.values.count name) howners
    · -- The copy has been made for another cell.
      have hother : owner ≠ name := by
        rintro rfl
        exact hnone id copy hcopy
      rw [copies_copySurface (h.changes hbefore.changes) hcopy, if_neg hother, Nat.add_zero, ih h]

/-- On every draft that changes lead to, the records of a cell count the copies made for it. -/
theorem copies_eq_made {materials : MaterialLibrary} {d : Draft K}
    (h : Changes (new materials) d) (name : String) : Makes name (d.copies name) (new materials) d := by
  obtain ⟨n, hmakes⟩ := makes_of_changes name h
  have hcount := copies_of_makes (sound_new materials) hmakes
  rw [show (new materials : Draft K).copies name = 0 from rfl, Nat.zero_add] at hcount
  rw [hcount]
  exact hmakes

/-! ### Cells that are moved -/

/-- Cells that are moved, all of them to the end, are bound by their copies. -/
theorem Settled.moved {names : List String} {d d' : Draft K} (h : d.Settled)
    (hm : Moved names d d') (hnames : ∀ name ∈ names, ∃ c, d.cells.find? name = some c) :
    d'.Settled := by
  intro id owner howner
  by_cases hmem : owner ∈ names
  · obtain ⟨c, hc⟩ := hnames owner hmem
    obtain ⟨c', hc', hmoved⟩ := hm.cells owner hmem c hc
    refine ⟨c', ?_⟩
    -- A copy that was there bounds the cell, and where it does it is kept.
    have hbefore (howner : d.owners.find? id = some owner) :
        ∃ r, c.region = some r ∧ id ∈ r.surfaces := by
      obtain ⟨c₀, r, hc₀, hr, hid⟩ := h id owner howner
      obtain rfl : c = c₀ := Option.some.inj (hc.symm.trans hc₀)
      exact ⟨r, hr, hid⟩
    cases hmoved with
    | filling moves hfill hmade =>
      obtain ⟨r, hr, hid⟩ := hbefore (hmade id howner)
      exact ⟨r, hc', (fillMovedAll_keeps c moves).2.2.2.trans hr, hid⟩
    | @bounds r f hfill hr hcopied =>
      refine ⟨r.renumber f, hc', rfl, Region.mem_surfaces_renumber.2 ?_⟩
      rcases hcopied.made id howner with hown | hold
      · obtain ⟨r₀, hr₀, hid⟩ := hbefore hown
        obtain rfl : r = r₀ := Option.some.inj (hr.symm.trans hr₀)
        exact ⟨id, hid, hcopied.kept id hid hown⟩
      · exact hold
  · rw [hm.owner_iff hmem] at howner
    obtain ⟨c, r, hc, hr, hid⟩ := h id owner howner
    exact ⟨c, r, (hm.others owner hmem).trans hc, hr, hid⟩

/-! ### Motions that succeed -/

/-- A motion card that is worked in to the end carries out its motion. -/
theorem addMotionCard_done {d : Draft K} {text : String} (h : (d.addMotionCard text).fault = none) :
    ∃ card motion, Card.readMotion text.toList = some card ∧ Motion.ofCard card = .ok motion ∧
      d.addMotionCard text = d.move motion := by
  unfold addMotionCard at h ⊢
  cases hcard : Card.readMotion (K := K) text.toList with
  | none => simp [hcard, Outcome.stopped] at h
  | some card =>
    cases hmotion : Motion.ofCard card with
    | error fault => simp [hcard, hmotion, Outcome.stopped] at h
    | ok motion => exact ⟨card, motion, rfl, hmotion, by simp only [hmotion]⟩

/-- A motion of a universe that is carried out to the end moves the cells that it lists. -/
theorem moveUniverse_done {d : Draft K} {moves : List (Move K)} {name : String}
    (hdone : (d.moveUniverse moves name).fault = none) :
    ∃ u, d.universes.find? name = some u ∧
      d.moveUniverse moves name = d.moveCells moves u.cells := by
  unfold moveUniverse at hdone ⊢
  cases hu : d.universes.find? name with
  | none => simp [hu, Outcome.stopped] at hdone
  | some u =>
    simp only [hu] at hdone ⊢
    by_cases hcells : u.cells.isEmpty = true
    · simp [hcells, Outcome.stopped] at hdone
    · exact ⟨u, rfl, if_neg hcells⟩

theorem moveUniverse_moved {d : Draft K} (h : d.Sound) (hl : d.Listed) {moves : List (Move K)}
    {name : String} (hdone : (d.moveUniverse moves name).fault = none) :
    ∃ u, d.universes.find? name = some u ∧ Moved u.cells d (d.moveUniverse moves name).draft := by
  obtain ⟨u, hu, hcells⟩ := moveUniverse_done hdone
  rw [hcells] at hdone ⊢
  exact ⟨u, hu, (moveCells_reaches moves u.cells h (hl.nodup name u hu)).done hdone⟩

theorem Settled.moveNamedSurface {d : Draft K} (h : d.Settled) (moves : List (Move K))
    (name : String) : (d.moveNamedSurface moves name).draft.Settled := by
  unfold Draft.moveNamedSurface
  split
  · next id _ =>
    cases hs : d.surfaces.find? id with
    | none =>
      simp only [moveSurface, hs]
      exact h
    | some s =>
      rw [moveSurface_eq moves hs]
      exact h
  · exact h
  · exact h

theorem Settled.addMotionCard {d : Draft K} (h : d.Settled) (hsound : d.Sound) (hl : d.Listed)
    {text : String} (hdone : (d.addMotionCard text).fault = none) :
    (d.addMotionCard text).draft.Settled := by
  obtain ⟨card, motion, -, -, hmove⟩ := addMotionCard_done hdone
  rw [hmove] at hdone ⊢
  unfold move at hdone ⊢
  match htarget : motion.target with
  | .surface => exact h.moveNamedSurface motion.moves motion.name
  | .universe =>
    simp only [htarget] at hdone
    obtain ⟨u, hu, hmoved⟩ := moveUniverse_moved hsound hl hdone
    refine h.moved hmoved fun name hname => ?_
    obtain ⟨c, hc, -⟩ := hl.declared motion.name u hu name hname
    exact ⟨c, hc⟩

/-- A card keeps a draft settled, unless it is a motion that fails. -/
theorem Settled.addCard {d : Draft K} (h : d.Settled) (hsound : d.Sound) (hl : d.Listed)
    {card : Card} (hdone : card.kind = .motion → (d.addCard card).fault = none) :
    (d.addCard card).draft.Settled := by
  rcases addCard_cases hsound card with ⟨-, hsame | hsets⟩ | ⟨hmotion, -⟩ | ⟨-, hdeclaring⟩
  · rw [hsame]
    exact h
  · exact h.sets hsets
  · have hdone := hdone hmotion
    rw [addCard_motion d hmotion] at hdone ⊢
    exact h.addMotionCard hsound hl hdone
  · exact h.declaring hdeclaring

/-! ### Counting -/

omit [Scalar K] in
/-- In a settled draft a cell has no more copies than surfaces. -/
theorem copies_le_surfaceCount {d : Draft K} (h : d.Settled) (ho : d.Owned) {name : String}
    {c : Cell K} (hc : d.cells.find? name = some c) : d.copies name ≤ surfaceCount c := by
  let owned := d.owners.entries.filter fun entry => entry.2 == name
  have hcount : d.copies name = (owned.map (·.1)).length := by
    rw [List.length_map, ← List.countP_eq_length_filter, copies, List.count, Table.values,
      List.countP_map]
    rfl
  have hnodup : (owned.map (·.1)).Nodup := ho.distinct.sublist (List.filter_sublist.map _)
  -- All of them bound the cell, as the draft is settled.
  have hbounds (id : Nat) (hid : id ∈ owned.map (·.1)) :
      ∃ r, c.region = some r ∧ id ∈ r.surfaces := by
    obtain ⟨entry, hentry, rfl⟩ := List.mem_map.1 hid
    obtain ⟨hmem, hname⟩ := List.mem_filter.1 hentry
    have howner := Table.find?_of_mem ho.distinct hmem
    rw [beq_iff_eq.1 hname] at howner
    obtain ⟨c₀, r, hc₀, hr, hid⟩ := h _ _ howner
    obtain rfl : c = c₀ := Option.some.inj (hc.symm.trans hc₀)
    exact ⟨r, hr, hid⟩
  rw [hcount]
  cases hr : c.region with
  | none =>
    have hnone : owned.map (·.1) = [] := by
      refine List.eq_nil_iff_forall_not_mem.2 fun id hid => ?_
      obtain ⟨r, hsome, -⟩ := hbounds id hid
      simp [hr] at hsome
    simp [hnone]
  | some r =>
    have hsubset : owned.map (·.1) ⊆ r.surfaces := by
      intro id hid
      obtain ⟨r₀, hsome, hmem⟩ := hbounds id hid
      rw [hr] at hsome
      obtain rfl := Option.some.inj hsome
      exact hmem
    simpa [surfaceCount, hr] using (hnodup.subperm hsubset).length_le

end SerpentCsg.Draft
