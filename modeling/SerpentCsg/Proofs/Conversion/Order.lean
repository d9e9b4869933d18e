import SerpentCsg.Proofs.Conversion.Root
import SerpentCsg.Proofs.Draft.Registering

/-! # Decks in Another Order

  The order of a deck matters only within a phase, and that of its surface cards does not matter at
  all, as long as every surface gets the number that its name asks for. Two decks that differ in
  nothing else can both be worked in or not at all, and make the same of the same materials.
-/

namespace SerpentCsg

open Draft
open Identifier (wanted)

variable {K : Type}

/-- The cards of a deck that belong to a phase. -/
def ofPhase (phase : Nat) (deck : List Card) : List Card :=
  deck.filter fun card => phase? card.kind == some phase

/-- Two decks have the same cards, and those of a phase come in the same order, unless they are
    surface cards. -/
structure Reordered (deck other : List Card) : Prop where
  perm : deck.Perm other
  phases : ∀ phase ∈ phases, phase ≠ 1 → ofPhase phase deck = ofPhase phase other

theorem kind_of_mem_ofPhase_one {deck : List Card} {card : Card} (h : card ∈ ofPhase 1 deck) :
    card.kind = .surface := by
  have hphase := (List.mem_filter.1 h).2
  revert hphase
  cases card.kind <;> simp [phase?]

theorem inPhases_eq_ofPhase (deck : List Card) :
    inPhases deck =
      (ofPhase 0 deck ++ ofPhase 1 deck) ++ (ofPhase 2 deck ++ ofPhase 3 deck) := by
  simp [inPhases, phases, ofPhase]

variable [Scalar K]

/-- The surfaces that the surface cards of a deck make, each face of a composite by itself. Later
    cards make copies of them only. -/
def registered (materials : MaterialLibrary) (deck : List Card) : List (Surface K) :=
  ((new materials).addCards (ofPhase 0 deck ++ ofPhase 1 deck)).1.surfaces.values

/-- After the surface cards, either both decks are stopped or they differ in the order of surfaces
    only. -/
theorem rearranged_registered {deck other : List Card} (h : Reordered deck other)
    {materials : MaterialLibrary}
    (hnumbers : ((registered (K := K) materials deck).map (wanted ·.name)).Nodup) :
    (((new materials : Draft K).addCards (ofPhase 0 deck ++ ofPhase 1 deck)).2 ≠ none ∧
      ((new materials : Draft K).addCards (ofPhase 0 other ++ ofPhase 1 other)).2 ≠ none) ∨
    ∃ d d' : Draft K, (new materials).addCards (ofPhase 0 deck ++ ofPhase 1 deck) = (d, none) ∧
      (new materials).addCards (ofPhase 0 other ++ ofPhase 1 other) = (d', none) ∧
      d.Rearranged d' := by
  have hsettings : ofPhase 0 other = ofPhase 0 deck := (h.phases 0 (by decide) (by decide)).symm
  have hperm : (ofPhase 1 deck).Perm (ofPhase 1 other) := h.perm.filter _
  have hset : ∀ card ∈ ofPhase 0 deck, IsSetting card := fun _ => isSetting_of_mem_settings
  have hsurfaces : ((new materials : Draft K).addCards (ofPhase 0 deck)).1.surfaces = .empty := by
    rw [addCards_settings_frame _ hset]
    rfl
  have hentries : ((new materials : Draft K).addCards (ofPhase 0 deck)).1.entries = .empty := by
    rw [addCards_settings_frame _ hset]
    rfl
  unfold registered at hnumbers
  rw [hsettings, addCards_append, addCards_append]
  rw [addCards_append] at hnumbers
  generalize (new materials : Draft K).addCards (ofPhase 0 deck) = start
    at hsurfaces hentries hnumbers ⊢
  obtain ⟨d₀, _ | report⟩ := start
  · -- The settings could be worked in, so it is up to the surface cards.
    dsimp only at hsurfaces hentries hnumbers ⊢
    cases hdone : d₀.addCards (ofPhase 1 deck) with
    | mk d fault =>
      rw [hdone] at hnumbers
      cases fault with
      | none =>
        obtain ⟨d', hother, hrearranged⟩ := rearranged_surfaces hperm
          (fun _ => kind_of_mem_ofPhase_one) hsurfaces hentries hdone
        exact .inr ⟨d, d', rfl, hother, hrearranged hnumbers⟩
      | some report =>
        refine .inl ⟨by simp, fun hnone => ?_⟩
        obtain ⟨d', hback, -⟩ := rearranged_surfaces hperm.symm
          (fun _ => kind_of_mem_ofPhase_one) hsurfaces hentries (Prod.ext rfl hnone)
        rw [hdone] at hback
        cases hback
  · exact .inl ⟨by simp, by simp⟩

/-- A deck in another order can be worked in if and only if it can be in the first one. The root,
    the boundary conditions, the cells, the universes and all else that comes of it are the same;
    the surfaces have the same numbers, and their names stand for the same, in two tables whose
    order may be another one. -/
theorem addDeck_reordered {deck other : List Card} (h : Reordered deck other)
    {materials : MaterialLibrary}
    (hnumbers : ((registered (K := K) materials deck).map (wanted ·.name)).Nodup) :
    (((new materials : Draft K).addDeck deck).2 = none ↔
      ((new materials : Draft K).addDeck other).2 = none) ∧
    ∀ d d' : Draft K, (new materials).addDeck deck = (d, none) →
      (new materials).addDeck other = (d', none) → d.Rearranged d' := by
  have hlater : ofPhase 2 other ++ ofPhase 3 other = ofPhase 2 deck ++ ofPhase 3 deck := by
    rw [h.phases 2 (by decide) (by decide), h.phases 3 (by decide) (by decide)]
  have hkinds : ∀ card ∈ ofPhase 2 deck ++ ofPhase 3 deck, card.kind ≠ .surface := by
    intro card hcard heq
    rcases List.mem_append.1 hcard with hmem | hmem <;>
    · have hphase := (List.mem_filter.1 hmem).2
      rw [heq] at hphase
      revert hphase
      decide
  unfold addDeck
  rw [inPhases_eq_ofPhase, inPhases_eq_ofPhase, hlater, addCards_append,
    addCards_append (new materials) (ofPhase 0 other ++ ofPhase 1 other)]
  rcases rearranged_registered h hnumbers with ⟨hstopped, hstopped'⟩ | ⟨d, d', hd, hd', hsame⟩
  · generalize (new materials : Draft K).addCards (ofPhase 0 deck ++ ofPhase 1 deck) = o
      at hstopped ⊢
    generalize (new materials : Draft K).addCards (ofPhase 0 other ++ ofPhase 1 other) = o'
      at hstopped' ⊢
    obtain ⟨d, _ | report⟩ := o
    · exact absurd rfl hstopped
    · obtain ⟨d', _ | report'⟩ := o'
      · exact absurd rfl hstopped'
      · simp
  · rw [hd, hd']
    obtain ⟨hfault, hrearranged⟩ := hsame.addCards hkinds
    refine ⟨by rw [hfault], fun e e' he he' => ?_⟩
    dsimp only at he he'
    rwa [he, he'] at hrearranged

/-- A prism and a ball of which a universe that fills a cell is made, and which is moved. -/
def fuelDeck : List Card :=
  [⟨1, .surface, "surf b sqc 0 0 2"⟩, ⟨2, .surface, "surf s sph 0 0 0 1"⟩,
    ⟨3, .cellFill, "cell a 0 fill u -b"⟩, ⟨4, .cellOutside, "cell o 0 outside b"⟩,
    ⟨5, .cellMaterial, "cell f u void -s"⟩, ⟨6, .motion, "trans U u 1 0 0"⟩,
    ⟨7, .boundaries, "set bc 2"⟩]

/-- The same cards, with the surface cards swapped and moved, and those of other phases between
    each other. -/
def shuffledFuelDeck : List Card :=
  [⟨3, .cellFill, "cell a 0 fill u -b"⟩, ⟨2, .surface, "surf s sph 0 0 0 1"⟩,
    ⟨6, .motion, "trans U u 1 0 0"⟩, ⟨7, .boundaries, "set bc 2"⟩,
    ⟨4, .cellOutside, "cell o 0 outside b"⟩, ⟨1, .surface, "surf b sqc 0 0 2"⟩,
    ⟨5, .cellMaterial, "cell f u void -s"⟩]

/-- Both can be worked in, and the ball is copied under the same number. -/
theorem addDeck_reordered_fuel :
    Reordered fuelDeck shuffledFuelDeck ∧
      ((registered (K := Float) .empty fuelDeck).map (wanted ·.name)).Nodup ∧
      ∃ d d' : Draft Float, (new .empty).addDeck fuelDeck = (d, none) ∧
        (new .empty).addDeck shuffledFuelDeck = (d', none) ∧ d.Rearranged d' := by
  have hreordered : Reordered fuelDeck shuffledFuelDeck := ⟨by decide, by decide⟩
  have hnumbers : ((registered (K := Float) .empty fuelDeck).map (wanted ·.name)).Nodup := by
    decide +kernel
  have hrun : ((new .empty : Draft Float).addDeck fuelDeck).2 = none := by decide +kernel
  obtain ⟨hiff, hsame⟩ := addDeck_reordered hreordered hnumbers
  have hd := Prod.ext (x := (new .empty : Draft Float).addDeck fuelDeck) (y := (_, none)) rfl hrun
  have hd' := Prod.ext (x := (new .empty : Draft Float).addDeck shuffledFuelDeck) (y := (_, none))
    rfl (hiff.1 hrun)
  exact ⟨hreordered, hnumbers, _, _, hd, hd', hsame _ _ hd hd'⟩

end SerpentCsg
