import SerpentCsg.Proofs.Draft.Effects
import SerpentCsg.Proofs.Identifier

/-! # Numbers of a Draft

  Surfaces, cells and universes are numbered apart from each other. The numbers given so far are
  those of the table, in its order: for surfaces they are its keys, for universes they are kept in
  the universes, and for cells there is a list of them beside the table.

  Whatever happens to a draft, the numbers of surfaces and universes have been given one after
  another. For cells this is so as long as every card succeeds: a cell that is refused in the end
  keeps its number from others.
-/

namespace SerpentCsg

open Identifier (IsNumbering allocate)

variable {K : Type}

/-! ### Names with their numbers -/

namespace Geometry

/-- Names of the surfaces with their numbers, in the order of their registration. -/
def surfaceNumbers (g : Geometry K) : List (String × Nat) :=
  g.surfaces.values.map fun s => (s.name, s.id)

/-- Names of the cells with their numbers. -/
def cellNumbers (g : Geometry K) : List (String × Nat) := g.cells.values.map fun c => (c.name, c.id)

/-- Names of the universes with their numbers. -/
def universeNumbers (g : Geometry K) : List (String × Nat) :=
  g.universes.values.map fun u => (u.name, u.id)

end Geometry

namespace Draft

/-! ### The invariants -/

/-- Surfaces and universes have been numbered one after another. -/
structure Numbered (d : Draft K) : Prop where
  surfaces : IsNumbering d.geometry.surfaceNumbers
  universes : IsNumbering d.geometry.universeNumbers

/-- Cells have been numbered one after another, and no other number has been given to a cell. -/
structure CellsNumbered (d : Draft K) : Prop where
  cells : IsNumbering d.geometry.cellNumbers
  given : d.cellIds.Perm (d.geometry.cellNumbers.map (·.2))

theorem numbered_new (materials : MaterialLibrary) : (new materials : Draft K).Numbered :=
  ⟨Identifier.isNumbering_nil, Identifier.isNumbering_nil⟩

theorem cellsNumbered_new (materials : MaterialLibrary) :
    (new materials : Draft K).CellsNumbered :=
  ⟨Identifier.isNumbering_nil, .refl _⟩

theorem Numbered.congr {d d' : Draft K} (h : d.Numbered)
    (hsurfaces : d'.geometry.surfaceNumbers = d.geometry.surfaceNumbers)
    (huniverses : d'.geometry.universeNumbers = d.geometry.universeNumbers) : d'.Numbered :=
  ⟨hsurfaces ▸ h.surfaces, huniverses ▸ h.universes⟩

/-! ### One more number -/

/-- A surface under a new number comes last. -/
theorem isNumbering_insert {surfaces : Table Nat (Surface K)}
    (hkeys : surfaces.All fun id s => s.id = id)
    (h : IsNumbering (surfaces.values.map fun s => (s.name, s.id))) {s : Surface K}
    (hid : s.id = allocate s.name surfaces.keys) :
    IsNumbering ((surfaces.insert s.id s).values.map fun s => (s.name, s.id)) := by
  have hnumbers : surfaces.keys = (surfaces.values.map fun s => (s.name, s.id)).map (·.2) := by
    rw [Table.keys_eq_map_values hkeys, List.map_map]
    rfl
  have hnew : surfaces.contains s.id = false := by
    rw [hid]
    exact allocate_fresh s.name surfaces
  have hlast := h.snoc s.name
  rw [← hnumbers, ← hid] at hlast
  rw [Table.values_insert s hnew, List.map_append]
  exact hlast

theorem Numbered.ensureUniverse {d : Draft K} (h : d.Numbered) (name : String) :
    (d.ensureUniverse name).Numbered := by
  unfold Draft.ensureUniverse
  split
  · exact h
  · next hnew =>
    refine ⟨h.surfaces, ?_⟩
    have hnumbers : d.universeIds = d.geometry.universeNumbers.map (·.2) := by
      unfold universeIds Geometry.universeNumbers
      rw [List.map_map]
      rfl
    have hlast := h.universes.snoc name
    rw [← hnumbers] at hlast
    unfold Geometry.universeNumbers at hlast ⊢
    dsimp only [geometry]
    rw [Table.values_insert _ (by simpa using hnew), List.map_append]
    exact hlast

theorem Numbered.addCell {d d' : Draft K} {cell : Cell K} (h : d.Numbered)
    (hadd : d.addCell cell = .ok d') : d'.Numbered := by
  have hmentioned := h.ensureUniverse cell.parent
  obtain ⟨-, -, rfl⟩ := addCell_eq_ok hadd
  refine hmentioned.congr rfl ?_
  exact Table.map_values_modify fun _ _ => rfl

/-! ### Single changes -/

theorem Numbered.declares {d d' : Draft K} (h : d.Numbered) (hsound : d.Sound)
    (hd : Declares d d') : d'.Numbered := by
  cases hd with
  | surface name kind =>
    refine ⟨?_, h.universes⟩
    exact isNumbering_insert hsound.surfaces h.surfaces (s := ⟨_, name, kind, _⟩) rfl
  | entry | cellId => exact h.congr rfl rfl
  | mark => exact h.congr (Table.map_values_modify fun _ _ => rfl) rfl
  | mention name => exact h.ensureUniverse name
  | cell hadd => exact h.addCell hadd
  | lattice => exact h.congr rfl (Table.map_values_modify fun _ _ => rfl)

variable [Scalar K]

theorem Numbered.moves {d d' : Draft K} (h : d.Numbered) (hsound : d.Sound) (hm : Moves d d') :
    d'.Numbered := by
  cases hm with
  | @surface id s moves hs =>
    refine h.congr (Table.map_values_modify fun t ht => ?_) rfl
    obtain rfl : s = t := Option.some.inj (hs.symm.trans ht)
    obtain ⟨hid, hname, -⟩ := movedAll_keeps s moves
    rw [hid, hname]
  | @copy d' name cell r id copy _ _ _ hcopy =>
    obtain ⟨s, hs, heq⟩ := Option.map_eq_some_iff.1 hcopy
    obtain ⟨rfl, rfl⟩ := Prod.mk.inj heq
    refine ⟨?_, h.universes⟩
    exact isNumbering_insert hsound.surfaces h.surfaces (s := { s with id := _, name := _ }) rfl
  | renumber | filling => exact h.congr rfl rfl

theorem Numbered.changes {d d' : Draft K} (h : d.Numbered) (hsound : d.Sound)
    (hc : Changes d d') : d'.Numbered := by
  induction hc with
  | refl => exact h
  | tail hfirst hlast ih =>
    have hsound := hsound.changes hfirst
    cases hlast with
    | sets hs => cases hs <;> exact ih.congr rfl rfl
    | declares hd => exact ih.declares hsound hd
    | moves hm => exact ih.moves hsound hm

/-! ### Cells -/

omit [Scalar K] in
theorem CellsNumbered.congr {d d' : Draft K} (h : d.CellsNumbered)
    (hcells : d'.geometry.cellNumbers = d.geometry.cellNumbers) (hids : d'.cellIds = d.cellIds) :
    d'.CellsNumbered := by
  refine ⟨hcells ▸ h.cells, ?_⟩
  rw [hids, hcells]
  exact h.given

omit [Scalar K] in
theorem CellsNumbered.added {d d' : Draft K} {plan : CellPlan} {cell : Cell K}
    (h : d.CellsNumbered) (hadded : CellAdded d plan cell d') : d'.CellsNumbered := by
  have hnumbers : d'.geometry.cellNumbers = d.geometry.cellNumbers ++ [(cell.name, cell.id)] := by
    show d'.cells.values.map _ = _
    rw [hadded.cells, Table.values_insert _ hadded.new, List.map_append]
    rfl
  constructor
  · -- The number was given in view of the same numbers.
    have hlast := h.cells.snoc cell.name
    rw [← Identifier.allocate_perm _ h.given, ← hadded.id, ← hnumbers] at hlast
    exact hlast
  · rw [hnumbers, hadded.cellIds, List.map_append]
    exact (h.given.cons cell.id).trans (List.perm_append_singleton _ _).symm

theorem fillMovedAll_id (c : Cell K) (moves : List (Move K)) :
    (c.fillMovedAll moves).id = c.id := by
  unfold Cell.fillMovedAll
  induction moves generalizing c with
  | nil => rfl
  | cons move moves ih =>
    rw [List.foldl_cons, ih]
    cases move <;> rfl

/-- Moving a cell keeps its name and its number. -/
theorem cellNumbers_moving {d d' : Draft K} (h : Moving d d') :
    d'.geometry.cellNumbers = d.geometry.cellNumbers := by
  refine map_cells_moving (fun _ _ => rfl) (fun c moves => ?_) h
  rw [(fillMovedAll_keeps c moves).1, fillMovedAll_id]

theorem CellsNumbered.addCard {d : Draft K} (h : d.CellsNumbered) (hsound : d.Sound) {card : Card}
    (hdone : (d.addCard card).fault = none) : (d.addCard card).draft.CellsNumbered := by
  have heffect := addCard_effect hsound hdone
  generalize (d.addCard card).draft = d' at heffect ⊢
  cases heffect with
  | setting _ hsets =>
    rw [hsets.frame]
    exact h.congr rfl rfl
  | surface _ hadd =>
    rw [addSurfaceCard_frame hadd]
    exact h.congr rfl rfl
  | cell _ _ hadded => exact h.added hadded
  | lattice _ _ _ hadded =>
    rw [hadded.frame]
    exact h.congr rfl rfl
  | motion _ hmoving =>
    refine h.congr (cellNumbers_moving hmoving) ?_
    rw [hmoving.frame]
  | other => exact h

theorem CellsNumbered.addCards {d d' : Draft K} (h : d.CellsNumbered) (hsound : d.Sound)
    {cards : List Card} (hdone : d.addCards cards = (d', none)) : d'.CellsNumbered := by
  let P (d : Draft K) := d.Sound ∧ d.CellsNumbered
  suffices hboth : P d' from hboth.2
  refine addCards_done_invariant (fun d card _ hd hdone => ?_) ⟨hsound, h⟩ hdone
  exact ⟨hd.1.changes (addCard_changes hd.1 card), hd.2.addCard hd.1 hdone⟩

end Draft

end SerpentCsg
