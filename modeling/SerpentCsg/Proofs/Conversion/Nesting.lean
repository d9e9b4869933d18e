import Mathlib.Logic.Relation
import SerpentCsg.Proofs.Conversion.Root
import SerpentCsg.Proofs.Draft.Nesting

/-! # Nesting of Universes in a Geometry

  In a geometry that is made of lines, universes contain each other exactly as the cards say. Cells
  are kept from being filled with the root universe or with their own, and that is all that is
  checked: nothing keeps a lattice from listing its own universe or the root, and chains of cells
  and lattices are not followed.

  So a universe can be nested in itself. What the check leaves is that such a cycle passes through
  a lattice or through a second universe, and that the root gets into a cycle by way of a lattice
  only.
-/

namespace SerpentCsg

open Draft
open Relation (ReflTransGen TransGen)

variable {K : Type}

/-! ### Cards of a deck -/

namespace Draft

/-- The cards of a phase are worked in. -/
theorem exists_inPhases_iff {deck : List Card} {P : Card → Prop} {phase : Nat}
    (hphase : phase ∈ phases) (hP : ∀ card, P card → phase? card.kind = some phase) :
    (∃ card ∈ inPhases deck, P card) ↔ ∃ card ∈ deck, P card := by
  constructor
  · rintro ⟨card, hcard, h⟩
    exact ⟨card, mem_of_mem_inPhases hcard, h⟩
  · rintro ⟨card, hcard, h⟩
    exact ⟨card, mem_inPhases hcard hphase (hP card h), h⟩

end Draft

/-! ### Chains -/

namespace Geometry

/-- A chain of universes goes through a lattice, or it is a chain of cells. -/
theorem holds_chain {g : Geometry K} {u v : String} (h : TransGen g.Holds u v) :
    (∃ x y, ReflTransGen g.Holds u x ∧ g.HoldsInLattice x y ∧ ReflTransGen g.Holds y v) ∨
      TransGen g.HoldsInCell u v := by
  induction h with
  | single hstep =>
    rcases hstep with hcell | hlattice
    · exact .inr (.single hcell)
    · exact .inl ⟨_, _, .refl, hlattice, .refl⟩
  | tail hchain hstep ih =>
    rcases ih with ⟨x, y, hbefore, hlattice, hafter⟩ | hcells
    · exact .inl ⟨x, y, hbefore, hlattice, hafter.tail hstep⟩
    · rcases hstep with hcell | hlattice
      · exact .inr (hcells.tail hcell)
      · exact .inl ⟨_, _, hchain.to_reflTransGen, hlattice, .refl⟩

/-- Where no cell is filled with its own universe, a cycle goes through a lattice or through the
    cells of a second universe. -/
theorem holds_cycle {g : Geometry K} (hown : ∀ u v, g.HoldsInCell u v → v ≠ u) {u : String}
    (h : TransGen g.Holds u u) :
    (∃ x y, ReflTransGen g.Holds u x ∧ g.HoldsInLattice x y ∧ ReflTransGen g.Holds y u) ∨
      ∃ v, v ≠ u ∧ TransGen g.HoldsInCell u v ∧ TransGen g.HoldsInCell v u := by
  rcases holds_chain h with hlattice | hcells
  · exact .inl hlattice
  · obtain ⟨v, hfirst, hrest⟩ := TransGen.head'_iff.1 hcells
    have hne := hown u v hfirst
    rcases Relation.reflTransGen_iff_eq_or_transGen.1 hrest with heq | hrest
    · exact absurd heq.symm hne
    · exact .inr ⟨v, hne, .single hfirst, hrest⟩

end Geometry

/-- Universes contain each other as the cards of a deck say. No cell is filled with its own universe
    or the root, and what that leaves of cycles. -/
structure Geometry.NestedAs [Scalar K] (g : Geometry K) (deck : List Card) : Prop where
  cells : ∀ u v, g.HoldsInCell u v ↔ ∃ card ∈ deck, card.PutsInCell u v
  lattices : ∀ u v, g.HoldsInLattice u v ↔ ∃ card ∈ deck, card.PutsInLattice K u v
  guarded : ∀ u v, g.HoldsInCell u v → v ≠ g.root ∧ v ≠ u
  /-- A universe that is nested in itself is so through a lattice, or through another universe. -/
  cycle : ∀ u, TransGen g.Holds u u →
    (∃ x y, ReflTransGen g.Holds u x ∧ g.HoldsInLattice x y ∧ ReflTransGen g.Holds y u) ∨
      ∃ v, v ≠ u ∧ TransGen g.HoldsInCell u v ∧ TransGen g.HoldsInCell v u
  /-- The root is nested in itself only if a lattice below it lists it. -/
  root : TransGen g.Holds g.root g.root →
    ∃ u, ReflTransGen g.Holds g.root u ∧ g.HoldsInLattice u g.root

/-! ### Geometries of lines -/

namespace Conversion

variable [Scalar K]

/-- In a geometry that is made of lines, universes contain each other exactly as the cards say, be
    it in a cycle. -/
theorem ofLines_nested {lines : List String} {materials : MaterialLibrary} {c : Conversion K}
    (h : ofLines lines materials = .ok c) : c.geometry.NestedAs (Card.deck lines) := by
  obtain ⟨d, hdeck, hfinish⟩ := ofLines_eq_ok h
  have hnew := sound_new (K := K) materials
  obtain rfl := ofDraft_eq_ok (hnew.changes (changes_of_addCards hnew hdeck)) hfinish
  -- Nothing is nested before the first card.
  have hcells (u v : String) : d.geometry.HoldsInCell u v ↔
      ∃ card ∈ inPhases (Card.deck lines), card.PutsInCell u v := by
    refine (holds_addCards hnew hdeck u v).1.trans (or_iff_right ?_)
    rintro ⟨cell, hmem, -⟩
    exact absurd (show cell ∈ ([] : List (Cell K)) from hmem) List.not_mem_nil
  have hlattices (u v : String) : d.geometry.HoldsInLattice u v ↔
      ∃ card ∈ inPhases (Card.deck lines), card.PutsInLattice K u v := by
    refine (holds_addCards hnew hdeck u v).2.trans (or_iff_right ?_)
    rintro ⟨l, hl, -⟩
    exact absurd (show none = some l from hl) (by simp)
  have hguarded (u v : String) (hholds : d.geometry.HoldsInCell u v) : v ≠ d.root ∧ v ≠ u := by
    obtain ⟨card, hcard, hputs⟩ := (hcells u v).1 hholds
    unfold addDeck at hdeck
    rw [inPhases_eq] at hdeck hcard
    obtain ⟨d₁, hsettings, hworks⟩ := addCards_append_eq_done hdeck
    have hsound := hnew.changes (changes_of_addCards hnew hsettings)
    obtain ⟨hroot, hothers⟩ := ne_of_putsInCell_addCards hsound
      (fun _ => not_isSetting_of_mem_works) hworks
    have hwork : card ∈ works (Card.deck lines) := by
      refine (List.mem_append.1 hcard).resolve_left fun hsetting => ?_
      have hphase := (List.mem_filter.1 hsetting).2
      rw [hputs.phase] at hphase
      simp at hphase
    rw [hroot]
    exact hothers card hwork u v hputs
  constructor
  case cells =>
    intro u v
    rw [hcells]
    exact exists_inPhases_iff (by decide) fun card => Card.PutsInCell.phase
  case lattices =>
    intro u v
    rw [hlattices]
    exact exists_inPhases_iff (by decide) fun card => Card.PutsInLattice.phase
  case guarded => exact hguarded
  case cycle => exact fun u => Geometry.holds_cycle fun u v hcell => (hguarded u v hcell).2
  case root =>
    intro hcycle
    obtain ⟨u, hchain, hlast⟩ := TransGen.tail'_iff.1 hcycle
    rcases hlast with hcell | hlattice
    · exact absurd rfl (hguarded u _ hcell).1
    · exact ⟨u, hchain, hlattice⟩

/-- Two universes that fill a cell of each other. -/
def mutualLines : List String :=
  ["surf s sph 0 0 0 1", "cell a 0 fill u -s", "cell b u fill v -s", "cell c v fill u -s"]

theorem ofLines_nested_mutual :
    ∃ c : Conversion Float, ofLines mutualLines .empty = .ok c ∧
      c.geometry.HoldsInCell "u" "v" ∧ c.geometry.HoldsInCell "v" "u" ∧
      c.geometry.NestedAs (Card.deck mutualLines) := by
  have hrun : ((ofLines (K := Float) mutualLines .empty).toOption.map fun c =>
      c.geometry.cells.values.map fun cell => (cell.parent, cell.fill)) =
      some [("0", .universe "u"), ("u", .universe "v"), ("v", .universe "u")] := by
    decide +kernel
  cases h : ofLines (K := Float) mutualLines .empty with
  | error report => simp [h, Except.toOption] at hrun
  | ok c =>
    simp only [h, Except.toOption, Option.map_some, Option.some.injEq] at hrun
    refine ⟨c, rfl, ?_, ?_, ofLines_nested h⟩ <;> rw [Geometry.holdsInCell_iff_mem, hrun] <;> simp

/-- A lattice that lists its own universe. -/
def selfListingLines : List String :=
  ["surf s sph 0 0 0 1", "cell a 0 fill L -s", "lat L 1 0 0 1 1 10 L"]

/-- It is accepted, and so is a universe that is nested in itself. -/
theorem nested_in_itself :
    ∃ c : Conversion Float, ofLines selfListingLines .empty = .ok c ∧
      TransGen c.geometry.Holds "L" "L" := by
  have hrun : ((ofLines (K := Float) selfListingLines .empty).toOption.bind fun c =>
      (c.geometry.lattice? "L").map Lattice.names) = some ["L"] := by
    decide +kernel
  cases h : ofLines (K := Float) selfListingLines .empty with
  | error report => simp [h, Except.toOption] at hrun
  | ok c =>
    simp only [h, Except.toOption, Option.bind_some, Option.map_eq_some_iff] at hrun
    obtain ⟨l, hl, hnames⟩ := hrun
    refine ⟨c, rfl, .single (.inr ⟨l, hl, ?_⟩)⟩
    simp [hnames]

end Conversion

end SerpentCsg
