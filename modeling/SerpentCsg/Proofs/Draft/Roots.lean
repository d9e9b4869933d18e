import SerpentCsg.Proofs.Draft.Ownership

/-! # Root Universes

  Two more invariants, about the universes that can be the root:

  - `Plain`: a universe in which something is declared has a name that can be written on a card;
  - `RootUnused`: no cell is filled with the root universe.

  Every change keeps the first. The second is kept by every change but those of settings, which can
  make any universe the root, and settings come first in a deck.
-/

namespace SerpentCsg.Draft

variable {K : Type}

/-! ### Names of universes -/

/-- A universe in which something is declared has a name that can be written on a card. -/
def Plain (d : Draft K) : Prop :=
  d.universes.All fun name u => u.isPlaceholder = false → Card.IsName name

theorem plain_new (materials : MaterialLibrary) : (new materials : Draft K).Plain :=
  Table.all_empty _

theorem Plain.ensureUniverse {d : Draft K} (h : d.Plain) (name : String) :
    (d.ensureUniverse name).Plain := by
  unfold Draft.ensureUniverse
  split
  · exact h
  · exact h.insert fun hdeclared => by simp [Universe.isPlaceholder] at hdeclared

theorem Plain.declares {d d' : Draft K} (h : d.Plain) (hd : Declares d d') : d'.Plain := by
  cases hd with
  | mention name => exact h.ensureUniverse name
  | @cell _ cell hadd hparent =>
    obtain ⟨-, -, rfl⟩ := addCell_eq_ok hadd
    exact (h.ensureUniverse cell.parent).modify fun _ _ _ => hparent
  | lattice _ _ hname => exact h.modify fun _ _ _ => hname
  | _ => exact h

theorem Plain.change [Scalar K] {d d' : Draft K} (h : d.Plain) (hc : Change d d') : d'.Plain := by
  cases hc with
  | sets hs => cases hs <;> exact h
  | declares hd => exact h.declares hd
  | moves hm =>
    cases hm with
    | copy _ _ _ hcopy =>
      obtain ⟨s, -, -, rfl⟩ := copySurface_eq_some hcopy
      exact h
    | _ => exact h

theorem Plain.changes [Scalar K] {d d' : Draft K} (h : d.Plain) (hc : Changes d d') :
    d'.Plain := by
  induction hc with
  | refl => exact h
  | tail _ hlast ih => exact ih.change hlast

/-! ### What fills the cells -/

/-- No cell is filled with the root universe. -/
def RootUnused (d : Draft K) : Prop := d.cells.All fun _ c => c.fill ≠ .universe d.root

theorem RootUnused.declares {d d' : Draft K} (h : d.RootUnused) (hd : Declares d d') :
    d'.RootUnused := by
  unfold RootUnused
  rw [hd.root]
  cases hd with
  | mention name =>
    rw [ensureUniverse_cells]
    exact h
  | cell hadd _ _ hroot _ =>
    rw [cells_addCell hadd]
    exact h.insert hroot
  | _ => exact h

theorem RootUnused.declaring {d d' : Draft K} (h : d.RootUnused) (hd : Declaring d d') :
    d'.RootUnused := by
  induction hd with
  | refl => exact h
  | tail _ hlast ih => exact ih.declares hlast

variable [Scalar K]

theorem RootUnused.moves {d d' : Draft K} (h : d.RootUnused) (hm : Moves d d') :
    d'.RootUnused := by
  cases hm with
  | surface => exact h
  | copy _ _ _ hcopy =>
    obtain ⟨s, -, -, rfl⟩ := copySurface_eq_some hcopy
    exact h
  | renumber =>
    refine h.modify fun c hc => ?_
    exact h.find? (a := c) hc
  | filling moves =>
    refine h.modify fun c hc => ?_
    rw [(fillMovedAll_keeps c moves).2.2.1]
    exact h.find? hc

theorem RootUnused.moving {d d' : Draft K} (h : d.RootUnused) (hm : Moving d d') :
    d'.RootUnused := by
  induction hm with
  | refl => exact h
  | tail _ hlast ih => exact ih.moves hlast

/-- A card that sets nothing leaves the root universe where it is. -/
theorem RootUnused.addCard {d : Draft K} (h : d.RootUnused) (hsound : d.Sound) {card : Card}
    (hplain : ¬ IsSetting card) : (d.addCard card).draft.RootUnused := by
  rcases addCard_cases hsound card with ⟨hsetting, -⟩ | ⟨-, hmoving⟩ | ⟨-, hdeclaring⟩
  · exact absurd hsetting hplain
  · exact h.moving hmoving
  · exact h.declaring hdeclaring

theorem RootUnused.addCards {d : Draft K} (h : d.RootUnused) (hsound : d.Sound)
    {cards : List Card} (hplain : ∀ card ∈ cards, ¬ IsSetting card) :
    (d.addCards cards).1.RootUnused := by
  let P (d : Draft K) := d.Sound ∧ d.RootUnused
  suffices hboth : P (d.addCards cards).1 from hboth.2
  refine addCards_invariant (fun next card hcard hnext => ?_) ⟨hsound, h⟩
  obtain ⟨hsound, hunused⟩ := hnext
  exact ⟨hsound.changes (addCard_changes hsound card), hunused.addCard hsound (hplain card hcard)⟩

end SerpentCsg.Draft
