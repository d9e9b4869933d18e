import SerpentCsg.Proofs.Draft.Contents

/-! # Universes Within Universes

  A universe is nested in another one if it fills a cell that is declared there, or if the lattice
  on the other one lists it. A card adds to this relation what it says itself, motions add
  nothing, and nothing is taken away. So universes end up nested as the cards say.

  What is refused is little: a cell that is filled with the universe it is declared in, or with the
  root universe.
-/

namespace SerpentCsg

variable {K : Type}

/-! ### The relation -/

namespace Geometry

/-- A cell that is declared in `u` is filled with `v`. -/
def HoldsInCell (g : Geometry K) (u v : String) : Prop :=
  ∃ c ∈ g.cells.values, c.parent = u ∧ c.fill = .universe v

theorem holdsInCell_iff_mem {g : Geometry K} {u v : String} :
    g.HoldsInCell u v ↔ (u, Fill.universe v) ∈ g.cells.values.map fun c => (c.parent, c.fill) := by
  simp only [HoldsInCell, List.mem_map, Prod.mk.injEq]

/-- The lattice on `u` lists `v`. -/
def HoldsInLattice (g : Geometry K) (u v : String) : Prop :=
  ∃ l, g.lattice? u = some l ∧ v ∈ l.names

/-- The universe `u` contains `v`. -/
def Holds (g : Geometry K) (u v : String) : Prop := g.HoldsInCell u v ∨ g.HoldsInLattice u v

end Geometry

namespace Card

/-- The card declares a cell in `u` that is filled with `v`. -/
def PutsInCell (card : Card) (u v : String) : Prop :=
  card.kind.isCell = true ∧ ∃ cell, readCell card.text.toList = some cell ∧ cell.parent = u ∧
    cell.fill = .universe v

/-- The card puts a lattice on `u` that lists `v`. -/
def PutsInLattice (K : Type) [Scalar K] (card : Card) (u v : String) : Prop :=
  card.kind = .lattice ∧ ∃ header, readLattice card.text.toList = some header ∧ header.name = u ∧
    ∃ l : Lattice K, Lattice.ofCard header = .ok l ∧ v ∈ l.names

theorem PutsInCell.phase {card : Card} {u v : String} (h : card.PutsInCell u v) :
    Draft.phase? card.kind = some 2 :=
  Draft.phase_of_isCell h.1

theorem PutsInLattice.phase {K : Type} [Scalar K] {card : Card} {u v : String}
    (h : card.PutsInLattice K u v) : Draft.phase? card.kind = some 2 := by
  rw [h.1]
  rfl

end Card

namespace Draft

/-! ### Cards one after another -/

variable [Scalar K]

theorem Adds.holdsInCell_iff {d d' : Draft K} {cards : List Card} (h : Adds d cards d')
    {u v : String} :
    d'.geometry.HoldsInCell u v ↔
      d.geometry.HoldsInCell u v ∨ ∃ card ∈ cards, card.PutsInCell u v := by
  have hdeclared (g : Geometry K) :
      g.HoldsInCell u v ↔ (u, Fill.universe v) ∈ g.declared.map (·.2) := by
    rw [Geometry.holdsInCell_iff_mem, Geometry.declared, List.map_map]
    rfl
  have hputs : (∃ card ∈ cards, card.PutsInCell u v) ↔
      (u, Fill.universe v) ∈ ((Card.cellCards cards).map Card.CellCard.declared).map (·.2) := by
    simp only [Card.PutsInCell, Card.cellCards, Card.CellCard.declared, List.map_map,
      List.mem_map, List.mem_filterMap, Function.comp_apply, Prod.mk.injEq,
      Card.cell?_eq_some_iff, Card.FillWord.filling_eq_universe_iff]
    constructor
    · rintro ⟨card, hcard, hkind, cell, hread, hcell⟩
      exact ⟨cell, ⟨card, hcard, hkind, hread⟩, hcell⟩
    · rintro ⟨cell, ⟨card, hcard, hkind, hread⟩, hcell⟩
      exact ⟨card, hcard, hkind, cell, hread, hcell⟩
  rw [hdeclared, hdeclared, hputs, h.cells, List.map_append, List.mem_append]

theorem Adds.holdsInLattice_iff {d d' : Draft K} {cards : List Card} (h : Adds d cards d')
    {u v : String} :
    d'.geometry.HoldsInLattice u v ↔
      d.geometry.HoldsInLattice u v ∨ ∃ card ∈ cards, card.PutsInLattice K u v := by
  have hputs : (∃ card ∈ cards, card.PutsInLattice K u v) ↔
      ∃ l : Lattice K, (∃ header ∈ Card.latticeCards cards, header.name = u ∧
        Lattice.ofCard header = .ok l) ∧ v ∈ l.names := by
    simp only [Card.PutsInLattice, Card.latticeCards, List.mem_filterMap,
      Card.lattice?_eq_some_iff]
    constructor
    · rintro ⟨card, hcard, hkind, header, hread, hname, l, hl, hv⟩
      exact ⟨l, ⟨header, ⟨card, hcard, hkind, hread⟩, hname, hl⟩, hv⟩
    · rintro ⟨l, ⟨header, ⟨card, hcard, hkind, hread⟩, hname, hl⟩, hv⟩
      exact ⟨card, hcard, hkind, header, hread, hname, l, hl, hv⟩
  rw [hputs]
  simp only [Geometry.HoldsInLattice, h.lattices, or_and_right, exists_or]

theorem Effect.root {d d' : Draft K} {card : Card} (h : Effect d card d')
    (hsetting : ¬ IsSetting card) : d'.root = d.root := by
  cases h with
  | setting hset _ => exact absurd hset hsetting
  | surface _ hadd => rw [addSurfaceCard_frame hadd]
  | cell _ _ hadded => rw [hadded.frame]
  | lattice _ _ _ hadded => rw [hadded.frame]
  | motion _ hmoving => rw [hmoving.frame]
  | other => rfl

/-- No cell is filled with the root universe, or with the one that it is declared in. -/
theorem Effect.ne_of_putsInCell {d d' : Draft K} {card : Card} (h : Effect d card d')
    {u v : String} (hputs : card.PutsInCell u v) : v ≠ d.root ∧ v ≠ u := by
  obtain ⟨hcell, header, hread, hparent, hfill⟩ := hputs
  obtain ⟨plan, _, hplan, -⟩ := h.of_isCell hcell
  obtain ⟨hread', hsettled⟩ := planCell_eq_ok hplan
  obtain rfl : header = plan.card := Option.some.inj (hread.symm.trans hread')
  have hplanned : plan.fill = .universe v :=
    (fillOf_eq_filling hsettled).trans (Card.FillWord.filling_eq_universe_iff.2 hfill)
  have hallowed := (fillOf_eq_ok hsettled).2 v hplanned
  rwa [hparent] at hallowed

/-- Universes are nested as they were before some cards, and as these say. -/
theorem holds_addCards {d d' : Draft K} (hsound : d.Sound) {cards : List Card}
    (hdone : d.addCards cards = (d', none)) (u v : String) :
    (d'.geometry.HoldsInCell u v ↔
      d.geometry.HoldsInCell u v ∨ ∃ card ∈ cards, card.PutsInCell u v) ∧
    (d'.geometry.HoldsInLattice u v ↔
      d.geometry.HoldsInLattice u v ∨ ∃ card ∈ cards, card.PutsInLattice K u v) := by
  have hadds := adds_addCards hsound hdone
  exact ⟨hadds.holdsInCell_iff, hadds.holdsInLattice_iff⟩

/-- As long as nothing is set, no cell is filled with the root universe or its own. -/
theorem ne_of_putsInCell_addCards {d d' : Draft K} (hsound : d.Sound) {cards : List Card}
    (hsettings : ∀ card ∈ cards, ¬ IsSetting card) (hdone : d.addCards cards = (d', none)) :
    d'.root = d.root ∧
      ∀ card ∈ cards, ∀ u v, card.PutsInCell u v → v ≠ d.root ∧ v ≠ u := by
  induction cards generalizing d with
  | nil =>
    obtain ⟨rfl, -⟩ := Prod.mk.inj hdone
    simp
  | cons card cards ih =>
    rw [List.forall_mem_cons] at hsettings
    obtain ⟨hfirst, hrest⟩ := addCards_cons_done hdone
    have heffect := addCard_effect hsound hfirst
    have hroot := heffect.root hsettings.1
    obtain ⟨hlast, hothers⟩ := ih (hsound.changes (addCard_changes hsound card)) hsettings.2 hrest
    rw [hroot] at hlast hothers
    exact ⟨hlast, List.forall_mem_cons.2 ⟨fun u v => heffect.ne_of_putsInCell, hothers⟩⟩

end Draft

end SerpentCsg
