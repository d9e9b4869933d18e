import SerpentCsg.Proofs.Draft.References

/-! # Membership and Ownership

  Two invariants beside soundness, which every single change keeps:

  - `Listed`: a universe lists the cells that are declared in it, each once;
  - `Owned`: the copies that a cell owns bound no other cell, and no name stands for them.

  Beside them, `Stays` says what no change takes from a cell.

  Names come to stand for surfaces before any copy of them is made, and cells are bounded by
  surfaces that have names when they are added. So a copy gets into no region but that of its owner.
-/

namespace SerpentCsg.Draft

variable {K : Type}

/-! ### The invariants -/

/-- Cells and universes know of each other. -/
structure Listed (d : Draft K) : Prop where
  listed : ∀ name c, d.cells.find? name = some c →
    ∃ u, d.universes.find? c.parent = some u ∧ name ∈ u.cells
  declared : ∀ parent u, d.universes.find? parent = some u → ∀ name ∈ u.cells,
    ∃ c, d.cells.find? name = some c ∧ c.parent = parent
  nodup : ∀ parent u, d.universes.find? parent = some u → u.cells.Nodup

/-- Copies belong to their owners alone. -/
structure Owned (d : Draft K) : Prop where
  unnamed : ∀ id owner, d.owners.find? id = some owner → ¬ d.Named id
  bounding : ∀ id owner, d.owners.find? id = some owner → ∀ name c r,
    d.cells.find? name = some c → c.region = some r → id ∈ r.surfaces → name = owner
  distinct : d.owners.keys.Nodup

theorem listed_new (materials : MaterialLibrary) : (new materials : Draft K).Listed where
  listed _ _ hc := by simp [new] at hc
  declared _ _ hu := by simp [new] at hu
  nodup _ _ hu := by simp [new] at hu

theorem owned_new (materials : MaterialLibrary) : (new materials : Draft K).Owned where
  unnamed _ _ howner := by simp [new] at howner
  bounding _ _ howner := by simp [new] at howner
  distinct := List.nodup_nil

/-! ### Membership -/

theorem find?_ensureUniverse_of_find? {d : Draft K} (name : String) {parent : String}
    {u : Universe K} (hu : d.universes.find? parent = some u) :
    (d.ensureUniverse name).universes.find? parent = some u := by
  unfold ensureUniverse
  split
  · exact hu
  · next hnew =>
    rw [Table.find?_insert_of_contains _ (by simpa using hnew) (Table.contains_of_find? hu)]
    exact hu

theorem Listed.ensureUniverse {d : Draft K} (h : d.Listed) (name : String) :
    (d.ensureUniverse name).Listed where
  listed other c hc := by
    rw [ensureUniverse_cells] at hc
    obtain ⟨u, hu, hmem⟩ := h.listed other c hc
    exact ⟨u, find?_ensureUniverse_of_find? name hu, hmem⟩
  declared parent u hu other hother := by
    rw [ensureUniverse_cells]
    rcases find?_ensureUniverse hu with hu | ⟨-, -, hnone, -⟩
    · exact h.declared parent u hu other hother
    · rw [hnone] at hother
      simp at hother
  nodup parent u hu := by
    rcases find?_ensureUniverse hu with hu | ⟨-, -, hnone, -⟩
    · exact h.nodup parent u hu
    · rw [hnone]
      exact List.nodup_nil

/-- Adding a cell changes the list of its own universe only. -/
theorem find?_addCell {d d' : Draft K} {cell : Cell K} (h : d.addCell cell = .ok d')
    (parent : String) :
    d'.universes.find? parent =
      if cell.parent = parent then
        ((d.ensureUniverse cell.parent).universes.find? parent).map
          fun u => { u with cells := u.cells ++ [cell.name] }
      else (d.ensureUniverse cell.parent).universes.find? parent := by
  obtain ⟨-, -, rfl⟩ := addCell_eq_ok h
  exact Table.find?_modify _ _ _ _

theorem cells_addCell {d d' : Draft K} {cell : Cell K} (h : d.addCell cell = .ok d') :
    d'.cells = d.cells.insert cell.name cell := by
  obtain ⟨-, -, rfl⟩ := addCell_eq_ok h
  rfl

theorem find?_cells_addCell_of_find? {d d' : Draft K} {cell : Cell K} (h : d.addCell cell = .ok d')
    {name : String} {c : Cell K} (hc : d.cells.find? name = some c) :
    d'.cells.find? name = some c := by
  rw [cells_addCell h, Table.find?_insert_of_contains _ (addCell_eq_ok h).1
    (Table.contains_of_find? hc)]
  exact hc

theorem Listed.addCell {d d' : Draft K} {cell : Cell K} (h : d.Listed)
    (hadd : d.addCell cell = .ok d') : d'.Listed := by
  have hensured := h.ensureUniverse cell.parent
  have hdeclared := hensured.declared
  rw [ensureUniverse_cells] at hdeclared
  constructor
  case listed =>
    intro name c hc
    rw [cells_addCell hadd, Table.find?_insert] at hc
    by_cases hname : cell.name = name
    · rw [if_pos hname] at hc
      obtain rfl := Option.some.inj hc
      obtain ⟨u, hu⟩ := Table.contains_iff.1 (ensureUniverse_contains_self d cell.parent)
      refine ⟨{ u with cells := u.cells ++ [cell.name] }, ?_, ?_⟩
      · rw [find?_addCell hadd, if_pos rfl, hu, Option.map_some]
      · exact List.mem_append_right _ (List.mem_singleton.2 hname.symm)
    · rw [if_neg hname] at hc
      obtain ⟨u, hu, hmem⟩ := hensured.listed name c (by rw [ensureUniverse_cells]; exact hc)
      -- The list of its universe gets longer at most.
      by_cases hparent : cell.parent = c.parent
      · refine ⟨{ u with cells := u.cells ++ [cell.name] }, ?_, ?_⟩
        · rw [find?_addCell hadd, if_pos hparent, hu, Option.map_some]
        · exact List.mem_append_left _ hmem
      · exact ⟨u, by rw [find?_addCell hadd, if_neg hparent, hu], hmem⟩
  case declared =>
    intro parent u hu name hname
    rw [find?_addCell hadd] at hu
    by_cases hparent : cell.parent = parent
    · rw [if_pos hparent] at hu
      obtain ⟨u₀, hu₀, rfl⟩ := Option.map_eq_some_iff.1 hu
      rcases List.mem_append.1 hname with hname | hname
      · obtain ⟨c, hc, hparent⟩ := hdeclared parent u₀ hu₀ name hname
        exact ⟨c, find?_cells_addCell_of_find? hadd hc, hparent⟩
      · refine ⟨cell, ?_, hparent⟩
        rw [cells_addCell hadd, Table.find?_insert, if_pos (List.mem_singleton.1 hname).symm]
    · rw [if_neg hparent] at hu
      obtain ⟨c, hc, hparent⟩ := hdeclared parent u hu name hname
      exact ⟨c, find?_cells_addCell_of_find? hadd hc, hparent⟩
  case nodup =>
    intro parent u hu
    rw [find?_addCell hadd] at hu
    by_cases hparent : cell.parent = parent
    · rw [if_pos hparent] at hu
      obtain ⟨u₀, hu₀, rfl⟩ := Option.map_eq_some_iff.1 hu
      -- A cell of that name would have been refused.
      have hfree : cell.name ∉ u₀.cells := by
        intro hmem
        obtain ⟨c, hc, -⟩ := hdeclared parent u₀ hu₀ cell.name hmem
        have hnew := (addCell_eq_ok hadd).1
        rw [Table.contains_of_find? hc] at hnew
        simp at hnew
      rw [List.nodup_append]
      refine ⟨hensured.nodup parent u₀ hu₀, List.nodup_singleton _, fun a ha b hb heq => ?_⟩
      rw [List.mem_singleton.1 hb] at heq
      exact hfree (heq ▸ ha)
    · rw [if_neg hparent] at hu
      exact hensured.nodup parent u hu

@[simp] theorem ensureFill_surfaces (d : Draft K) (fill : Fill) :
    (d.ensureFill fill).surfaces = d.surfaces := by
  match fill with
  | .universe name => exact ensureUniverse_surfaces d name
  | .material _ | .void | .outside => rfl

/-- A cell that is registered is there, as it has been planned, and no surface has changed. -/
theorem registerCell_done {d : Draft K} {plan : CellPlan} {region : Option Region}
    (h : (d.registerCell plan region).fault = none) :
    (d.registerCell plan region).draft.surfaces = d.surfaces ∧
    ∃ c, (d.registerCell plan region).draft.cells.find? plan.card.name = some c ∧
      c.fill = plan.fill ∧ c.region = region := by
  let reserved := (d.ensureFill plan.fill).reserveCellId plan.card.name
  let cell : Cell K :=
    { id := reserved.2, name := plan.card.name, parent := plan.card.parent, fill := plan.fill,
      region }
  have hstep : d.registerCell plan region = .ofStep reserved.1 (reserved.1.addCell cell) := rfl
  rw [hstep] at h ⊢
  cases hadd : reserved.1.addCell cell with
  | error fault => simp [hadd, Outcome.ofStep, Outcome.stopped] at h
  | ok d' =>
    constructor
    · obtain ⟨-, -, rfl⟩ := addCell_eq_ok hadd
      show (reserved.1.ensureUniverse cell.parent).surfaces = d.surfaces
      rw [ensureUniverse_surfaces]
      exact ensureFill_surfaces d plan.fill
    · refine ⟨cell, ?_, rfl, rfl⟩
      show d'.cells.find? cell.name = some cell
      rw [cells_addCell hadd, Table.find?_insert, if_pos rfl]

/-- A planned cell that is worked in to the end covers everything, or it has the region of its
    expression, whose surfaces have been marked before if the cell is an outside cell. -/
theorem addPlannedCell_done {d : Draft K} {plan : CellPlan}
    (h : (d.addPlannedCell plan).fault = none) :
    (d.coversEverything plan.tokens = true ∧ d.addPlannedCell plan = d.registerCell plan none) ∨
    ∃ marked r, marked = (if plan.fill = .outside then d.markSurfaces plan.tokens else d) ∧
      marked.regionOf plan.card.name plan.tokens = .ok r ∧
      d.addPlannedCell plan = marked.registerCell plan (some r) := by
  unfold addPlannedCell at h ⊢
  by_cases hcovers : d.coversEverything plan.tokens = true
  · rw [if_pos hcovers]
    exact .inl ⟨hcovers, rfl⟩
  · rw [if_neg hcovers] at h ⊢
    simp only [beq_iff_eq] at h ⊢
    cases hregion : (if plan.fill = .outside then d.markSurfaces plan.tokens else d).regionOf
        plan.card.name plan.tokens with
    | error fault => simp [hregion, Outcome.stopped] at h
    | ok r => exact .inr ⟨_, r, rfl, hregion, rfl⟩

/-- Changes of a universe that keep its cells keep the lists. -/
theorem Listed.modify_universe {d : Draft K} (h : d.Listed) (name : String)
    {f : Universe K → Universe K} (hf : ∀ u, (f u).cells = u.cells) :
    ({ d with universes := d.universes.modify name f } : Draft K).Listed := by
  have hback {parent : String} {u : Universe K}
      (hu : (d.universes.modify name f).find? parent = some u) :
      ∃ u₀, d.universes.find? parent = some u₀ ∧ u.cells = u₀.cells := by
    rw [Table.find?_modify] at hu
    split at hu
    · obtain ⟨u₀, hu₀, rfl⟩ := Option.map_eq_some_iff.1 hu
      exact ⟨u₀, hu₀, hf u₀⟩
    · exact ⟨u, hu, rfl⟩
  constructor
  case listed =>
    intro other c hc
    obtain ⟨u, hu, hmem⟩ := h.listed other c hc
    by_cases hname : name = c.parent
    · refine ⟨f u, ?_, by rw [hf]; exact hmem⟩
      rw [Table.find?_modify, if_pos hname, hu, Option.map_some]
    · refine ⟨u, ?_, hmem⟩
      rw [Table.find?_modify, if_neg hname, hu]
  case declared =>
    intro parent u hu other hother
    obtain ⟨u₀, hu₀, hcells⟩ := hback hu
    exact h.declared parent u₀ hu₀ other (hcells ▸ hother)
  case nodup =>
    intro parent u hu
    obtain ⟨u₀, hu₀, hcells⟩ := hback hu
    rw [hcells]
    exact h.nodup parent u₀ hu₀

/-- Changes of a cell that keep its parent keep the lists. -/
theorem Listed.modify_cell {d : Draft K} (h : d.Listed) (name : String)
    {f : Cell K → Cell K} (hf : ∀ c, (f c).parent = c.parent) :
    ({ d with cells := d.cells.modify name f } : Draft K).Listed := by
  constructor
  case listed =>
    intro other c hc
    rw [Table.find?_modify] at hc
    split at hc
    · obtain ⟨c₀, hc₀, rfl⟩ := Option.map_eq_some_iff.1 hc
      rw [hf]
      exact h.listed other c₀ hc₀
    · exact h.listed other c hc
  case declared =>
    intro parent u hu other hother
    obtain ⟨c, hc, hparent⟩ := h.declared parent u hu other hother
    by_cases hname : name = other
    · refine ⟨f c, ?_, (hf c).trans hparent⟩
      rw [Table.find?_modify, if_pos hname, hc, Option.map_some]
    · refine ⟨c, ?_, hparent⟩
      rw [Table.find?_modify, if_neg hname, hc]
  case nodup => exact h.nodup

theorem Listed.sets {d d' : Draft K} (h : d.Listed) (hs : Sets d d') : d'.Listed := by
  cases hs <;> exact ⟨h.listed, h.declared, h.nodup⟩

theorem Listed.declares {d d' : Draft K} (h : d.Listed) (hd : Declares d d') : d'.Listed := by
  cases hd with
  | surface | entry | mark | cellId => exact ⟨h.listed, h.declared, h.nodup⟩
  | mention name => exact h.ensureUniverse name
  | cell hadd => exact h.addCell hadd
  | lattice => exact h.modify_universe _ fun _ => rfl

theorem Listed.moves [Scalar K] {d d' : Draft K} (h : d.Listed) (hm : Moves d d') : d'.Listed := by
  cases hm with
  | surface => exact ⟨h.listed, h.declared, h.nodup⟩
  | copy hc hr hid hcopy =>
    obtain ⟨s, -, -, rfl⟩ := copySurface_eq_some hcopy
    exact ⟨h.listed, h.declared, h.nodup⟩
  | renumber => exact h.modify_cell _ fun _ => rfl
  | filling moves hc hfill => exact h.modify_cell _ fun c => (fillMovedAll_keeps c moves).2.1

theorem Listed.changes [Scalar K] {d d' : Draft K} (h : d.Listed) (hc : Changes d d') :
    d'.Listed := by
  induction hc with
  | refl => exact h
  | tail _ hlast ih =>
    cases hlast with
    | sets hs => exact ih.sets hs
    | declares hd => exact ih.declares hd
    | moves hm => exact ih.moves hm

/-- A universe lists the cells that are declared in it, and no others. -/
theorem Listed.mem_cells_iff {d : Draft K} (h : d.Listed) {parent : String} {u : Universe K}
    (hu : d.universes.find? parent = some u) {name : String} {c : Cell K}
    (hc : d.cells.find? name = some c) : name ∈ u.cells ↔ c.parent = parent := by
  constructor
  · intro hmem
    obtain ⟨c₀, hc₀, hparent⟩ := h.declared parent u hu name hmem
    obtain rfl := Option.some.inj (hc.symm.trans hc₀)
    exact hparent
  · intro hparent
    obtain ⟨u₀, hu₀, hmem⟩ := h.listed name c hc
    rw [hparent, hu] at hu₀
    obtain rfl := Option.some.inj hu₀
    exact hmem

/-! ### What stays of a cell -/

/-- Number of surfaces that bound a cell. -/
def surfaceCount (c : Cell K) : Nat := (c.region.map fun r => r.surfaces.length).getD 0

/-- What is never taken from a cell: its universe, its filling and the number of its surfaces. -/
structure Stays (c c' : Cell K) : Prop where
  parent : c'.parent = c.parent
  fill : c'.fill = c.fill
  count : surfaceCount c' = surfaceCount c

theorem Stays.refl (c : Cell K) : Stays c c := ⟨rfl, rfl, rfl⟩

theorem Stays.trans {c₁ c₂ c₃ : Cell K} (h : Stays c₁ c₂) (h' : Stays c₂ c₃) : Stays c₁ c₃ :=
  ⟨h'.parent.trans h.parent, h'.fill.trans h.fill, h'.count.trans h.count⟩

theorem find?_cells_declares {d d' : Draft K} (h : Declares d d') {name : String} {c : Cell K}
    (hc : d.cells.find? name = some c) : d'.cells.find? name = some c := by
  cases h with
  | mention other => rw [ensureUniverse_cells, hc]
  | cell hadd => exact find?_cells_addCell_of_find? hadd hc
  | _ => exact hc

theorem find?_cells_declaring {d d' : Draft K} (h : Declaring d d') {name : String} {c : Cell K}
    (hc : d.cells.find? name = some c) : d'.cells.find? name = some c := by
  induction h with
  | refl => exact hc
  | tail _ hlast ih => exact find?_cells_declares hlast ih

/-- A cell that is modified stays if what it is modified to does. -/
theorem stays_modify {d : Draft K} {other name : String} {f : Cell K → Cell K} {c : Cell K}
    (hc : d.cells.find? name = some c) (hf : other = name → Stays c (f c)) :
    ∃ c', (d.cells.modify other f).find? name = some c' ∧ Stays c c' := by
  by_cases hname : other = name
  · refine ⟨f c, ?_, hf hname⟩
    rw [Table.find?_modify, if_pos hname, hc, Option.map_some]
  · refine ⟨c, ?_, Stays.refl c⟩
    rw [Table.find?_modify, if_neg hname, hc]

theorem stays_change [Scalar K] {d d' : Draft K} (h : Change d d') {name : String} {c : Cell K}
    (hc : d.cells.find? name = some c) : ∃ c', d'.cells.find? name = some c' ∧ Stays c c' := by
  cases h with
  | sets hs => cases hs <;> exact ⟨c, hc, Stays.refl c⟩
  | declares hd => exact ⟨c, find?_cells_declares hd hc, Stays.refl c⟩
  | moves hm =>
    cases hm with
    | surface => exact ⟨c, hc, Stays.refl c⟩
    | copy hc' hr hid hcopy =>
      obtain ⟨s, -, -, rfl⟩ := copySurface_eq_some hcopy
      exact ⟨c, hc, Stays.refl c⟩
    | @renumber other cell r f hcell hr howned hapart =>
      refine stays_modify hc fun hname => ⟨rfl, rfl, ?_⟩
      rw [hname, hc] at hcell
      obtain rfl := Option.some.inj hcell
      simp [surfaceCount, hr, Region.length_surfaces_renumber hapart]
    | @filling other cell u moves hcell hfill =>
      obtain ⟨-, hparent, hfill, hregion⟩ := fillMovedAll_keeps c moves
      refine stays_modify hc fun _ => ⟨hparent, hfill, ?_⟩
      simp only [surfaceCount, hregion]

theorem stays_changes [Scalar K] {d d' : Draft K} (h : Changes d d') {name : String} {c : Cell K}
    (hc : d.cells.find? name = some c) : ∃ c', d'.cells.find? name = some c' ∧ Stays c c' := by
  induction h with
  | refl => exact ⟨c, hc, Stays.refl c⟩
  | tail _ hlast ih =>
    obtain ⟨c₁, hc₁, hstays₁⟩ := ih
    obtain ⟨c₂, hc₂, hstays₂⟩ := stays_change hlast hc₁
    exact ⟨c₂, hc₂, hstays₁.trans hstays₂⟩

/-! ### Ownership -/

/-- What concerns names, copies and cells alone keeps ownership if it changes none of them. -/
theorem Owned.of_eq {d d' : Draft K} (h : d.Owned) (hentries : d'.entries = d.entries)
    (hcells : d'.cells = d.cells) (howners : d'.owners = d.owners) : d'.Owned where
  unnamed id owner howner := by
    rw [howners] at howner
    unfold Named
    rw [hentries]
    exact h.unnamed id owner howner
  bounding id owner howner := by
    rw [howners] at howner
    rw [hcells]
    exact h.bounding id owner howner
  distinct := by
    rw [howners]
    exact h.distinct

theorem Owned.addEntry {d : Draft K} (h : d.Owned) {name : String} {entry : SurfaceEntry}
    (hfree : ∀ id ∈ entry.surfaces, d.owners.contains id = false) :
    (d.addEntry name entry).Owned := by
  refine ⟨?_, h.bounding, h.distinct⟩
  rintro id owner howner ⟨other, found, hfound, hid⟩
  have howner : d.owners.find? id = some owner := howner
  have hfound : (d.entries.insert name entry).find? other = some found := hfound
  rw [Table.find?_insert] at hfound
  by_cases hname : name = other
  · rw [if_pos hname] at hfound
    obtain rfl := Option.some.inj hfound
    have hnot := hfree id hid
    rw [Table.contains_of_find? howner] at hnot
    simp at hnot
  · rw [if_neg hname] at hfound
    exact h.unnamed id owner howner ⟨other, found, hfound, hid⟩

theorem Owned.addCell {d d' : Draft K} {cell : Cell K} (h : d.Owned)
    (hadd : d.addCell cell = .ok d')
    (hregion : ∀ r, cell.region = some r → ∀ id ∈ r.surfaces, d.Named id) : d'.Owned := by
  have hcells := cells_addCell hadd
  have howners : d'.owners = d.owners := by
    obtain ⟨-, -, rfl⟩ := addCell_eq_ok hadd
    exact ensureUniverse_owners d cell.parent
  have hentries : d'.entries = d.entries := by
    obtain ⟨-, -, rfl⟩ := addCell_eq_ok hadd
    exact ensureUniverse_entries d cell.parent
  constructor
  case unnamed =>
    intro id owner howner
    unfold Named
    rw [hentries]
    rw [howners] at howner
    exact h.unnamed id owner howner
  case bounding =>
    intro id owner howner name c r hc hr hid
    rw [howners] at howner
    rw [hcells, Table.find?_insert] at hc
    by_cases hname : cell.name = name
    · -- The new cell is bounded by surfaces that have names, so not by a copy.
      rw [if_pos hname] at hc
      obtain rfl := Option.some.inj hc
      exact absurd (hregion r hr id hid) (h.unnamed id owner howner)
    · rw [if_neg hname] at hc
      exact h.bounding id owner howner name c r hc hr hid
  case distinct =>
    rw [howners]
    exact h.distinct

theorem Owned.sets {d d' : Draft K} (h : d.Owned) (hs : Sets d d') : d'.Owned := by
  cases hs <;> exact h.of_eq rfl rfl rfl

theorem Owned.declares {d d' : Draft K} (h : d.Owned) (hd : Declares d d') : d'.Owned := by
  cases hd with
  | surface | mark | cellId | lattice => exact h.of_eq rfl rfl rfl
  | entry hnew hsurfaces => exact h.addEntry fun id hid => (hsurfaces id hid).2
  | mention name =>
    exact h.of_eq (ensureUniverse_entries d name) (ensureUniverse_cells d name)
      (ensureUniverse_owners d name)
  | cell hadd _ _ _ hregion => exact h.addCell hadd hregion

theorem Owned.copySurface {d d' : Draft K} (h : d.Owned) (hsound : d.Sound) {name : String}
    {id copy : Nat} (hcopy : d.copySurface name id = some (d', copy)) : d'.Owned := by
  obtain ⟨s, -, hfresh, rfl⟩ := copySurface_eq_some hcopy
  -- The copy is new, so nothing refers to it yet.
  have hnew {n : Nat} (hn : d.surfaces.contains n = true) : copy ≠ n :=
    Table.ne_of_contains hfresh hn
  constructor
  case unnamed =>
    intro n owner howner hnamed
    have howner : (d.owners.insert copy name).find? n = some owner := howner
    rw [Table.find?_insert, if_neg (hnew (hsound.contains_of_named hnamed))] at howner
    exact h.unnamed n owner howner hnamed
  case bounding =>
    intro n owner howner other c r hc hr hid
    have howner : (d.owners.insert copy name).find? n = some owner := howner
    have hthere := (hsound.cells.find? hc).2.region r hr n hid
    rw [Table.find?_insert, if_neg (hnew hthere)] at howner
    exact h.bounding n owner howner other c r hc hr hid
  case distinct => exact Table.nodup_keys_insert h.distinct _ _

/-- A cell is bound to its own copies. -/
theorem Owned.renumberCell {d : Draft K} (h : d.Owned) {name : String} {cell : Cell K} {r : Region}
    {f : Nat → Nat} (hc : d.cells.find? name = some cell) (hr : cell.region = some r)
    (howned : ∀ id ∈ r.surfaces, d.owners.find? (f id) = some name) :
    (d.renumberCell name f).Owned := by
  refine ⟨h.unnamed, fun id owner howner other c q hc' hq hid => ?_, h.distinct⟩
  have howner : d.owners.find? id = some owner := howner
  have hc' : (d.cells.modify name _).find? other = some c := hc'
  rw [Table.find?_modify] at hc'
  by_cases hname : name = other
  · rw [if_pos hname, ← hname, hc] at hc'
    obtain rfl := Option.some.inj hc'
    obtain rfl : r.renumber f = q := by simpa [hr] using hq
    obtain ⟨old, hold, rfl⟩ := Region.mem_surfaces_renumber.1 hid
    rw [howned old hold] at howner
    exact hname.symm.trans (Option.some.inj howner)
  · rw [if_neg hname] at hc'
    exact h.bounding id owner howner other c q hc' hq hid

theorem Owned.moves [Scalar K] {d d' : Draft K} (h : d.Owned) (hsound : d.Sound)
    (hm : Moves d d') : d'.Owned := by
  cases hm with
  | surface => exact h.of_eq rfl rfl rfl
  | copy hc hr hid hcopy => exact h.copySurface hsound hcopy
  | renumber hc hr howned hapart => exact h.renumberCell hc hr howned
  | @filling name cell u moves hc hfill =>
    refine ⟨h.unnamed, fun id owner howner other c r hc' hr hid => ?_, h.distinct⟩
    have hc' : (d.cells.modify name _).find? other = some c := hc'
    rw [Table.find?_modify] at hc'
    by_cases hname : name = other
    · rw [if_pos hname] at hc'
      obtain ⟨c₀, hc₀, rfl⟩ := Option.map_eq_some_iff.1 hc'
      rw [(fillMovedAll_keeps c₀ moves).2.2.2] at hr
      exact h.bounding id owner howner other c₀ r hc₀ hr hid
    · rw [if_neg hname] at hc'
      exact h.bounding id owner howner other c r hc' hr hid

theorem Owned.changes [Scalar K] {d d' : Draft K} (h : d.Owned) (hsound : d.Sound)
    (hc : Changes d d') : d'.Owned := by
  induction hc with
  | refl => exact h
  | tail hchain hlast ih =>
    cases hlast with
    | sets hs => exact ih.sets hs
    | declares hd => exact ih.declares hd
    | moves hm => exact ih.moves (hsound.changes hchain) hm

end SerpentCsg.Draft
