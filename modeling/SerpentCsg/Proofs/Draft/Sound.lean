import SerpentCsg.Proofs.Draft.Changes
import SerpentCsg.Proofs.Region.Surfaces
import SerpentCsg.Proofs.Table

/-! # Sound Drafts

  In a sound draft no reference dangles: what a cell, a surface name, a lattice or the record of
  copies refers to is in the tables. Every key is the number or name that the value carries,
  and no universe has both cells and a lattice.

  Every single change keeps a draft sound. For the most part a change only adds to what can be
  referred to (`Extends`), so that old references go on to resolve, and something has to be
  said only about the one entry that is new or changed.
-/

namespace SerpentCsg.Draft

variable {K : Type}

/-! ### The invariant -/

/-- Everything that a cell refers to is there. -/
structure CellResolved (d : Draft K) (c : Cell K) : Prop where
  parent : d.universes.contains c.parent = true
  fill : d.FillResolved c.fill
  region : ∀ r, c.region = some r → ∀ id ∈ r.surfaces, d.surfaces.contains id = true

/-- Everything that a universe refers to is there, and it has not both cells and a lattice. -/
structure UniverseResolved (d : Draft K) (u : Universe K) : Prop where
  lattice : ∀ l, u.lattice = some l → ∀ name ∈ l.names, d.universes.contains name = true
  either : u.cells = [] ∨ u.lattice = none

/-- No reference dangles. -/
structure Sound (d : Draft K) : Prop where
  surfaces : d.surfaces.All fun id s => s.id = id
  entries : d.entries.All fun _ entry => ∀ id ∈ entry.surfaces, d.surfaces.contains id = true
  cells : d.cells.All fun name c => c.name = name ∧ d.CellResolved c
  universes : d.universes.All fun name u => u.name = name ∧ d.UniverseResolved u
  /-- Copies are among the surfaces. -/
  owners : d.owners.All fun id _ => d.surfaces.contains id = true

theorem sound_new (materials : MaterialLibrary) : (new materials : Draft K).Sound where
  surfaces := Table.all_empty _
  entries := Table.all_empty _
  cells := Table.all_empty _
  universes := Table.all_empty _
  owners := Table.all_empty _

theorem Sound.contains_of_named {d : Draft K} (h : d.Sound) {id : Nat} (hid : d.Named id) :
    d.surfaces.contains id = true := by
  obtain ⟨name, entry, hentry, hmem⟩ := hid
  exact h.entries.find? hentry id hmem

/-- What is not among the surfaces is no copy. -/
theorem Sound.not_owned {d : Draft K} (h : d.Sound) {id : Nat}
    (hid : d.surfaces.contains id = false) : d.owners.contains id = false := by
  cases howned : d.owners.contains id with
  | false => rfl
  | true =>
    obtain ⟨owner, howner⟩ := Table.contains_iff.1 howned
    rw [h.owners.find? howner] at hid
    exact absurd hid (by simp)

/-! ### More to refer to -/

/-- Everything that could be referred to still can be. -/
structure Extends (d d' : Draft K) : Prop where
  surfaces : ∀ id, d.surfaces.contains id = true → d'.surfaces.contains id = true
  universes : ∀ name, d.universes.contains name = true → d'.universes.contains name = true
  materials : d'.materials = d.materials

theorem Extends.refl (d : Draft K) : Extends d d := ⟨fun _ h => h, fun _ h => h, rfl⟩

theorem Extends.trans {d₁ d₂ d₃ : Draft K} (h : Extends d₁ d₂) (h' : Extends d₂ d₃) :
    Extends d₁ d₃ :=
  ⟨fun id hid => h'.surfaces id (h.surfaces id hid),
    fun name hname => h'.universes name (h.universes name hname),
    h'.materials.trans h.materials⟩

theorem FillResolved.mono {d d' : Draft K} (he : Extends d d') {fill : Fill}
    (h : d.FillResolved fill) : d'.FillResolved fill := by
  match fill with
  | .material name =>
    show d'.materials.contains name = true
    rw [he.materials]
    exact h
  | .universe name => exact he.universes name h
  | .void | .outside => trivial

theorem CellResolved.mono {d d' : Draft K} (he : Extends d d') {c : Cell K}
    (h : d.CellResolved c) : d'.CellResolved c where
  parent := he.universes _ h.parent
  fill := h.fill.mono he
  region r hr id hid := he.surfaces id (h.region r hr id hid)

theorem UniverseResolved.mono {d d' : Draft K} (he : Extends d d') {u : Universe K}
    (h : d.UniverseResolved u) : d'.UniverseResolved u where
  lattice l hl name hname := he.universes name (h.lattice l hl name hname)
  either := h.either

/-- The references of a sound draft resolve in every draft that extends it. -/
structure ResolvedIn (d' d : Draft K) : Prop where
  entries : d.entries.All fun _ entry => ∀ id ∈ entry.surfaces, d'.surfaces.contains id = true
  cells : d.cells.All fun name c => c.name = name ∧ d'.CellResolved c
  universes : d.universes.All fun name u => u.name = name ∧ d'.UniverseResolved u
  owners : d.owners.All fun id _ => d'.surfaces.contains id = true

theorem Sound.resolvedIn {d d' : Draft K} (h : d.Sound) (he : Extends d d') : ResolvedIn d' d where
  entries := h.entries.mono fun _ _ hentry id hid => he.surfaces id (hentry id hid)
  cells := h.cells.mono fun _ _ hc => ⟨hc.1, hc.2.mono he⟩
  universes := h.universes.mono fun _ _ hu => ⟨hu.1, hu.2.mono he⟩
  owners := h.owners.mono fun id _ hid => he.surfaces id hid

/-! ### New surfaces -/

/-- A number that is given to a name is no key of the table yet. -/
theorem allocate_fresh {α : Type} (name : String) (table : Table Nat α) :
    table.contains (Identifier.allocate name table.keys) = false := by
  have hfresh := Identifier.allocate_not_mem name table.keys
  rw [Table.mem_keys_iff, Bool.not_eq_true] at hfresh
  exact hfresh

theorem addSurface_fresh (d : Draft K) (name : String) (kind : SurfaceKind K) :
    d.surfaces.contains (d.addSurface name kind).2 = false :=
  allocate_fresh name d.surfaces

theorem addSurface_contains (d : Draft K) (name : String) (kind : SurfaceKind K) :
    (d.addSurface name kind).1.surfaces.contains (d.addSurface name kind).2 = true :=
  Table.contains_insert_self _ _ _

/-! ### New universes -/

section Frame

variable (d : Draft K) (name : String)

@[simp] theorem ensureUniverse_entries : (d.ensureUniverse name).entries = d.entries := by
  unfold ensureUniverse
  split <;> rfl

@[simp] theorem ensureUniverse_surfaces : (d.ensureUniverse name).surfaces = d.surfaces := by
  unfold ensureUniverse
  split <;> rfl

@[simp] theorem ensureUniverse_cells : (d.ensureUniverse name).cells = d.cells := by
  unfold ensureUniverse
  split <;> rfl

@[simp] theorem ensureUniverse_owners : (d.ensureUniverse name).owners = d.owners := by
  unfold ensureUniverse
  split <;> rfl

@[simp] theorem ensureUniverse_materials : (d.ensureUniverse name).materials = d.materials := by
  unfold ensureUniverse
  split <;> rfl

@[simp] theorem ensureUniverse_root : (d.ensureUniverse name).root = d.root := by
  unfold ensureUniverse
  split <;> rfl

end Frame

theorem ensureUniverse_contains_self (d : Draft K) (name : String) :
    (d.ensureUniverse name).universes.contains name = true := by
  unfold ensureUniverse
  split
  · assumption
  · exact Table.contains_insert_self _ _ _

theorem ensureUniverse_extends (d : Draft K) (name : String) :
    Extends d (d.ensureUniverse name) := by
  unfold ensureUniverse
  split
  · exact Extends.refl d
  · exact ⟨fun _ hid => hid, fun _ hname => Table.contains_insert_of_contains _ _ hname, rfl⟩

theorem Sound.ensureUniverse {d : Draft K} (h : d.Sound) (name : String) :
    (d.ensureUniverse name).Sound := by
  have hold := h.resolvedIn (ensureUniverse_extends d name)
  revert hold
  unfold Draft.ensureUniverse
  split
  · exact fun _ => h
  · intro hold
    refine ⟨h.surfaces, hold.entries, hold.cells, hold.universes.insert ⟨rfl, ?_⟩, hold.owners⟩
    exact ⟨fun l hl => by simp at hl, .inl rfl⟩

/-- A universe of a draft in which it has been mentioned is the old one, or it is empty. -/
theorem find?_ensureUniverse {d : Draft K} {name other : String} {u : Universe K}
    (h : (d.ensureUniverse name).universes.find? other = some u) :
    d.universes.find? other = some u ∨
      d.universes.find? other = none ∧ name = other ∧ u.cells = [] ∧ u.lattice = none := by
  unfold ensureUniverse at h
  split at h
  · exact .inl h
  · next hnew =>
    rw [Table.find?_insert] at h
    split at h
    · next heq =>
      obtain rfl := heq
      obtain rfl := Option.some.inj h
      exact .inr ⟨Table.find?_eq_none_of_contains (by simpa using hnew), rfl, rfl, rfl⟩
    · exact .inl h

/-! ### New cells -/

theorem addCell_eq_ok {d d' : Draft K} {cell : Cell K} (h : d.addCell cell = .ok d') :
    d.cells.contains cell.name = false ∧ d.hasLattice cell.parent = false ∧
      d' = { d.addCellName cell.parent cell.name with
        cells := d.cells.insert cell.name cell } := by
  unfold addCell at h
  split at h
  · simp at h
  · next hnew =>
    split at h
    · simp at h
    · next hplain =>
      obtain rfl := Except.ok.inj h
      exact ⟨by simpa using hnew, by simpa using hplain, by simp [addCellName]⟩

theorem hasLattice_eq_false_iff {d : Draft K} {name : String} :
    d.hasLattice name = false ↔ ∀ u, d.universes.find? name = some u → u.lattice = none := by
  unfold hasLattice
  cases d.universes.find? name <;> simp

theorem addCell_extends {d d' : Draft K} {cell : Cell K} (h : d.addCell cell = .ok d') :
    Extends (d.ensureUniverse cell.parent) d' := by
  obtain ⟨-, -, rfl⟩ := addCell_eq_ok h
  refine ⟨fun _ hid => hid, fun name hname => ?_, rfl⟩
  show ((d.ensureUniverse cell.parent).universes.modify _ _).contains name = true
  rw [Table.contains_modify]
  exact hname

theorem Sound.addCell {d d' : Draft K} {cell : Cell K} (h : d.Sound)
    (hadd : d.addCell cell = .ok d') (hfill : d.FillResolved cell.fill)
    (hregion : ∀ r, cell.region = some r → ∀ id ∈ r.surfaces, d.Named id) : d'.Sound := by
  have hensured := h.ensureUniverse cell.parent
  have hext := addCell_extends hadd
  have hold := hensured.resolvedIn hext
  have hcell : d'.CellResolved cell := by
    have he := (ensureUniverse_extends d cell.parent).trans hext
    refine ⟨hext.universes _ (ensureUniverse_contains_self d cell.parent), hfill.mono he, ?_⟩
    intro r hr id hid
    exact he.surfaces id (h.contains_of_named (hregion r hr id hid))
  have hmember (u : Universe K)
      (hu : (d.ensureUniverse cell.parent).universes.find? cell.parent = some u) :
      u.name = cell.parent ∧ d'.UniverseResolved { u with cells := u.cells ++ [cell.name] } := by
    obtain ⟨hname, hresolved⟩ := hold.universes.find? hu
    refine ⟨hname, hresolved.lattice, .inr ?_⟩
    -- A universe with a lattice takes no cells.
    rcases find?_ensureUniverse hu with hu | ⟨-, -, -, hnone⟩
    · exact hasLattice_eq_false_iff.1 (addCell_eq_ok hadd).2.1 u hu
    · exact hnone
  have hcells := hold.cells
  rw [ensureUniverse_cells] at hcells
  obtain ⟨-, -, rfl⟩ := addCell_eq_ok hadd
  exact ⟨hensured.surfaces, hold.entries, hcells.insert ⟨rfl, hcell⟩,
    hold.universes.modify hmember, hold.owners⟩

/-! ### Single changes -/

theorem Sets.extends {d d' : Draft K} (h : Sets d d') : Extends d d' := by
  cases h <;> exact ⟨fun _ hid => hid, fun _ hname => hname, rfl⟩

theorem Sound.sets {d d' : Draft K} (h : d.Sound) (hs : Sets d d') : d'.Sound := by
  have hold := h.resolvedIn hs.extends
  cases hs <;> exact ⟨h.surfaces, hold.entries, hold.cells, hold.universes, hold.owners⟩

theorem Declares.extends {d d' : Draft K} (h : Declares d d') : Extends d d' := by
  cases h with
  | entry | cellId => exact ⟨fun _ hid => hid, fun _ hname => hname, rfl⟩
  | surface name kind =>
    exact ⟨fun _ hid => Table.contains_insert_of_contains _ _ hid, fun _ hname => hname, rfl⟩
  | mark hnamed =>
    refine ⟨fun id hid => ?_, fun _ hname => hname, rfl⟩
    rw [markSurface, Table.contains_modify]
    exact hid
  | mention name => exact ensureUniverse_extends d name
  | @cell _ cell hadd =>
    exact (ensureUniverse_extends d cell.parent).trans (addCell_extends hadd)
  | lattice =>
    refine ⟨fun _ hid => hid, fun name hname => ?_, rfl⟩
    rw [Table.contains_modify]
    exact hname

theorem Sound.declares {d d' : Draft K} (h : d.Sound) (hd : Declares d d') : d'.Sound := by
  -- References from before resolve; what is left is the entry that is new or changed.
  have hold := h.resolvedIn hd.extends
  cases hd with
  | cellId =>
    exact ⟨h.surfaces, hold.entries, hold.cells, hold.universes, hold.owners⟩
  | surface name kind =>
    exact ⟨h.surfaces.insert rfl, hold.entries, hold.cells, hold.universes, hold.owners⟩
  | entry hnew hsurfaces =>
    exact ⟨h.surfaces, hold.entries.insert fun id hid => (hsurfaces id hid).1, hold.cells,
      hold.universes, hold.owners⟩
  | mark hnamed =>
    refine ⟨h.surfaces.modify fun s hs => ?_, hold.entries, hold.cells, hold.universes,
      hold.owners⟩
    exact h.surfaces.find? (a := s) hs
  | mention name => exact h.ensureUniverse name
  | cell hadd _ hfill _ hregion => exact h.addCell hadd hfill hregion
  | @lattice name u lattice hu hplaceholder _ hnames =>
    refine ⟨h.surfaces, hold.entries, hold.cells, hold.universes.modify fun v hv => ?_,
      hold.owners⟩
    obtain rfl : u = v := Option.some.inj (hu.symm.trans hv)
    refine ⟨(hold.universes.find? hv).1, fun l hl n hn => ?_, .inl ?_⟩
    · -- The new lattice lists universes that are there.
      obtain rfl := Option.some.inj hl
      rw [Table.contains_modify]
      exact hnames n hn
    · simp only [Universe.isPlaceholder, Bool.and_eq_true, List.isEmpty_iff] at hplaceholder
      exact hplaceholder.1

theorem copySurface_eq_some {d d' : Draft K} {cell : String} {id copy : Nat}
    (h : d.copySurface cell id = some (d', copy)) :
    ∃ s, d.surfaces.find? id = some s ∧ d.surfaces.contains copy = false ∧
      d' = { d with
        surfaces := d.surfaces.insert copy
          { s with id := copy, name := s.name ++ "_" ++ d.surfaces.size.repr }
        owners := d.owners.insert copy cell } := by
  obtain ⟨s, hs, heq⟩ := Option.map_eq_some_iff.1 h
  obtain ⟨rfl, rfl⟩ := Prod.mk.inj heq
  exact ⟨s, hs, allocate_fresh _ d.surfaces, rfl⟩

theorem contains_of_copySurface {d d' : Draft K} {cell : String} {id copy : Nat}
    (h : d.copySurface cell id = some (d', copy)) : d'.surfaces.contains copy = true := by
  obtain ⟨s, -, -, rfl⟩ := copySurface_eq_some h
  exact Table.contains_insert_self _ _ _

section Moves

variable [Scalar K]

/-- Moving a surface keeps its number, its name and its boundary condition. -/
theorem movedAll_keeps (s : Surface K) (moves : List (Move K)) :
    (s.movedAll moves).1.id = s.id ∧ (s.movedAll moves).1.name = s.name ∧
      (s.movedAll moves).1.boundary = s.boundary := by
  induction moves generalizing s with
  | nil => exact ⟨rfl, rfl, rfl⟩
  | cons move moves ih =>
    unfold Surface.movedAll
    split
    · next moved hmoved =>
      obtain ⟨hid, hname, hboundary⟩ := ih moved
      have hkeeps : moved.id = s.id ∧ moved.name = s.name ∧ moved.boundary = s.boundary := by
        cases move with
        | shift t =>
          obtain rfl := Except.ok.inj hmoved
          exact ⟨rfl, rfl, rfl⟩
        | rotate r =>
          simp only [Surface.moved, Surface.rotated] at hmoved
          split at hmoved
          · obtain rfl := Except.ok.inj hmoved
            exact ⟨rfl, rfl, rfl⟩
          · simp at hmoved
      exact ⟨hid.trans hkeeps.1, hname.trans hkeeps.2.1, hboundary.trans hkeeps.2.2⟩
    · exact ⟨rfl, rfl, rfl⟩

/-- Moving the filling of a cell keeps everything but its place. -/
theorem fillMovedAll_keeps (c : Cell K) (moves : List (Move K)) :
    (c.fillMovedAll moves).name = c.name ∧ (c.fillMovedAll moves).parent = c.parent ∧
      (c.fillMovedAll moves).fill = c.fill ∧ (c.fillMovedAll moves).region = c.region := by
  unfold Cell.fillMovedAll
  induction moves generalizing c with
  | nil => exact ⟨rfl, rfl, rfl, rfl⟩
  | cons move moves ih =>
    obtain ⟨hname, hparent, hfill, hregion⟩ := ih (c.fillMoved move)
    cases move <;> exact ⟨hname, hparent, hfill, hregion⟩

theorem Moves.extends {d d' : Draft K} (h : Moves d d') : Extends d d' := by
  cases h with
  | surface moves hs =>
    refine ⟨fun id hid => ?_, fun _ hname => hname, rfl⟩
    rw [Table.contains_modify]
    exact hid
  | copy hc hr hid hcopy =>
    obtain ⟨s, hs, -, rfl⟩ := copySurface_eq_some hcopy
    exact ⟨fun id hid => Table.contains_insert_of_contains _ _ hid, fun _ hname => hname, rfl⟩
  | renumber | filling => exact ⟨fun _ hid => hid, fun _ hname => hname, rfl⟩

theorem Sound.moves {d d' : Draft K} (h : d.Sound) (hm : Moves d d') : d'.Sound := by
  have hold := h.resolvedIn hm.extends
  cases hm with
  | @surface id s moves hs =>
    refine ⟨h.surfaces.modify fun _ _ => ?_, hold.entries, hold.cells, hold.universes,
      hold.owners⟩
    exact (movedAll_keeps s moves).1.trans (h.surfaces.find? hs)
  | copy hc hr hid hcopy =>
    obtain ⟨s, hs, -, rfl⟩ := copySurface_eq_some hcopy
    exact ⟨h.surfaces.insert rfl, hold.entries, hold.cells, hold.universes,
      hold.owners.insert (Table.contains_insert_self _ _ _)⟩
  | @renumber name cell r f hc hr howned hinj =>
    refine ⟨h.surfaces, hold.entries, hold.cells.modify fun c hc' => ?_, hold.universes,
      hold.owners⟩
    obtain rfl : cell = c := Option.some.inj (hc.symm.trans hc')
    obtain ⟨hname, hresolved⟩ := hold.cells.find? hc'
    refine ⟨hname, hresolved.parent, hresolved.fill, fun q hq id hid => ?_⟩
    -- The new surfaces of the cell are copies, and copies are among the surfaces.
    obtain rfl : r.renumber f = q := by simpa [hr] using hq
    obtain ⟨old, hold, rfl⟩ := Region.mem_surfaces_renumber.1 hid
    exact h.owners.find? (howned old hold)
  | @filling name cell u moves hc hfill =>
    refine ⟨h.surfaces, hold.entries, hold.cells.modify fun c hc' => ?_, hold.universes,
      hold.owners⟩
    obtain ⟨hname, hresolved⟩ := hold.cells.find? hc'
    obtain ⟨hname', hparent, hfill, hregion⟩ := fillMovedAll_keeps c moves
    refine ⟨hname'.trans hname, ?_, ?_, ?_⟩
    · rw [hparent]; exact hresolved.parent
    · rw [hfill]; exact hresolved.fill
    · rw [hregion]; exact hresolved.region

theorem Change.extends {d d' : Draft K} (h : Change d d') : Extends d d' := by
  cases h with
  | sets hs => exact hs.extends
  | declares hd => exact hd.extends
  | moves hm => exact hm.extends

theorem Changes.extends {d d' : Draft K} (h : Changes d d') : Extends d d' := by
  induction h with
  | refl => exact Extends.refl d
  | tail _ hlast ih => exact ih.trans hlast.extends

theorem Sound.changes {d d' : Draft K} (h : d.Sound) (hc : Changes d d') : d'.Sound := by
  induction hc with
  | refl => exact h
  | tail _ hlast ih =>
    cases hlast with
    | sets hs => exact ih.sets hs
    | declares hd => exact ih.declares hd
    | moves hm => exact ih.moves hm

theorem Moving.extends {d d' : Draft K} (hm : Moving d d') : Extends d d' := hm.changes.extends

theorem Sound.moving {d d' : Draft K} (h : d.Sound) (hm : Moving d d') : d'.Sound :=
  h.changes hm.changes

end Moves

end SerpentCsg.Draft
