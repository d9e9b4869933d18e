import Mathlib.Data.List.Induction
import SerpentCsg.Proofs.Conversion.Boundaries
import SerpentCsg.Proofs.Draft.Conditions
import SerpentCsg.Proofs.Draft.Keys
import SerpentCsg.Proofs.Fallible

/-! # Conditions of a Geometry

  The last card of conditions counts, wherever it stands. In a geometry in which nothing is
  moved, the surfaces of outside cells have the conditions of that card, each as it is due to its
  kind, and particles pass all others.
-/

namespace SerpentCsg

open Draft

/-! ### The conditions of a deck -/

/-- The conditions that are on a card, which are none if they cannot be read. -/
def Card.conditions (card : Card) : List Boundary :=
  ((Card.readBoundaries card.text.toList).bind fun words =>
    (Boundary.ofWords words).toOption).getD []

namespace Draft

/-- The conditions that a deck sets: those of the last card that is about them, and vacuum if there
    is no such card. -/
def conditions (deck : List Card) : List Boundary :=
  match (deck.filter fun card => card.kind == .boundaries).getLast? with
  | none => [.vacuum]
  | some last => last.conditions

theorem conditions_nil : conditions [] = [.vacuum] := rfl

theorem conditions_append_singleton (deck : List Card) (card : Card) :
    conditions (deck ++ [card]) =
      if card.kind = .boundaries then card.conditions else conditions deck := by
  unfold conditions
  rw [List.filter_append, List.getLast?_append]
  by_cases hkind : card.kind = .boundaries <;> simp [hkind]

/-- Cards that set nothing make no difference. -/
theorem conditions_settings (deck : List Card) : conditions (settings deck) = conditions deck := by
  have hphase (card : Card) :
      (card.kind == .boundaries && phase? card.kind == some 0) = (card.kind == .boundaries) := by
    cases card.kind <;> rfl
  unfold conditions settings
  rw [List.filter_filter]
  simp only [hphase]

end Draft

/-! ### Reading them -/

theorem readBoundaries_ne_nil {s : List Char} {words : List String}
    (h : Card.readBoundaries s = some words) : words ≠ [] := by
  unfold Card.readBoundaries at h
  simp only [Option.bind_eq_bind, Option.bind_eq_some_iff] at h
  obtain ⟨_, -, left, -, hwords⟩ := h
  split at hwords
  · simp at hwords
  · next chosen _ hne _ =>
    simp only [Option.bind_eq_some_iff] at hwords
    obtain ⟨_, -, hchosen⟩ := hwords
    obtain rfl := Option.some.inj hchosen
    exact hne

/-- There is a condition for every word. -/
theorem ofWords_ne_nil {words : List String} (hne : words ≠ []) {boundaries : List Boundary}
    (h : Boundary.ofWords words = .ok boundaries) : boundaries ≠ [] := by
  unfold Boundary.ofWords at h
  split at h
  · simp at h
  · have hlength := (mapM_eq_ok_iff.1 h).length_eq
    intro hnil
    rw [hnil, List.length_nil, List.length_eq_zero_iff] at hlength
    exact hne hlength

namespace Draft

variable {K : Type}

/-- A card of conditions that succeeds sets what is on it, and that is something. -/
theorem addBoundaryCard_eq_ok {d d' : Draft K} {card : Card}
    (hadd : d.addBoundaryCard card.text = .ok d') :
    d' = { d with boundaries := card.conditions } ∧ card.conditions ≠ [] := by
  unfold addBoundaryCard at hadd
  unfold Card.conditions
  cases hread : Card.readBoundaries card.text.toList with
  | none => simp [hread] at hadd
  | some words =>
    cases hwords : Boundary.ofWords words with
    | error fault => simp [hread, hwords, Except.map] at hadd
    | ok boundaries =>
      simp only [hread, hwords, Except.map, Except.ok.injEq] at hadd
      simp only [Option.bind_some, hwords, Except.toOption, Option.getD_some]
      exact ⟨hadd.symm, ofWords_ne_nil (readBoundaries_ne_nil hread) hwords⟩

theorem addRootCard_boundaries {d d' : Draft K} {text : String}
    (hadd : d.addRootCard text = .ok d') : d'.boundaries = d.boundaries := by
  unfold addRootCard at hadd
  split at hadd
  · simp at hadd
  · obtain rfl := Except.ok.inj hadd
    rfl

variable [Scalar K]

/-- A setting that succeeds replaces the conditions if it is about them. -/
theorem boundaries_addCard {d : Draft K} {card : Card} (hsetting : IsSetting card)
    (hdone : (d.addCard card).fault = none) :
    (card.kind = .boundaries → card.conditions ≠ []) ∧
    (d.addCard card).draft.boundaries =
      if card.kind = .boundaries then card.conditions else d.boundaries := by
  unfold addCard at hdone ⊢
  rcases hsetting with hkind | hkind
  · rw [hkind] at hdone ⊢
    obtain ⟨hd', hne⟩ := addBoundaryCard_eq_ok (ofStep_done hdone)
    rw [if_pos rfl, hd']
    exact ⟨fun _ => hne, rfl⟩
  · rw [hkind] at hdone ⊢
    exact ⟨by simp, addRootCard_boundaries (ofStep_done hdone)⟩

/-- Settings leave the conditions that they set, and these are not nothing. -/
theorem boundaries_addCards {materials : MaterialLibrary} {cards : List Card}
    (hsettings : ∀ card ∈ cards, IsSetting card) {d : Draft K}
    (hdone : (new materials).addCards cards = (d, none)) :
    d.boundaries = conditions cards ∧ conditions cards ≠ [] := by
  -- The last card is the one that counts, so the induction takes cards off the end.
  induction cards using List.reverseRecOn generalizing d with
  | nil =>
    obtain ⟨rfl, -⟩ := Prod.mk.inj hdone
    exact ⟨rfl, by simp [conditions_nil]⟩
  | append_singleton cards card ih =>
    obtain ⟨before, hcards, hcard⟩ := addCards_append_eq_done hdone
    obtain ⟨hlast, hend⟩ := addCards_cons_done hcard
    obtain ⟨rfl, -⟩ := Prod.mk.inj hend
    obtain ⟨hbefore, hne⟩ := ih (fun other hother =>
      hsettings other (List.mem_append_left _ hother)) hcards
    obtain ⟨hown, hafter⟩ := boundaries_addCard
      (hsettings card (List.mem_append_right _ (List.mem_singleton_self card))) hlast
    rw [conditions_append_singleton, hafter, hbefore]
    refine ⟨rfl, ?_⟩
    split
    · next hkind => exact hown hkind
    · exact hne

/-- Where nothing is moved, the conditions of a deck are at the outside in the end, and nowhere
    else. -/
theorem conditioned_addDeck {materials : MaterialLibrary} {deck : List Card} {d : Draft K}
    (hdone : (new materials).addDeck deck = (d, none))
    (hmotions : ∀ card ∈ deck, card.kind ≠ .motion) :
    d.Conditioned (conditions deck) ∧ conditions deck ≠ [] ∧ d.geometry.MarksOutside := by
  unfold addDeck at hdone
  have hstanding : ∀ card ∈ inPhases deck, card.kind ≠ .motion :=
    fun card hcard => hmotions card (mem_of_mem_inPhases hcard)
  have hmarks := marksOutside_addCards (sound_new materials) (marksOutside_new materials) hstanding
    hdone
  rw [inPhases_eq] at hdone hstanding
  obtain ⟨set, hsettings, hworks⟩ := addCards_append_eq_done hdone
  obtain ⟨hboundaries, hne⟩ := boundaries_addCards (fun _ => isSetting_of_mem_settings) hsettings
  rw [conditions_settings] at hboundaries hne
  -- Nothing has been declared when the last setting is made.
  have hset := conditioned_of_cells_empty (cells_settings hsettings)
  rw [hboundaries] at hset
  have hsound := (sound_new materials).changes (changes_of_addCards (sound_new materials) hsettings)
  exact ⟨hset.addCards hsound (fun _ => not_isSetting_of_mem_works)
    (fun card hcard => hstanding card (List.mem_append_right _ hcard)) hworks, hne, hmarks⟩

end Draft

namespace Conversion

variable {K : Type} [Scalar K]

/-- Where nothing is moved, a surface that bounds an outside cell has the condition that the last
    card of conditions gives to its kind, and particles pass every other surface. -/
theorem ofLines_conditions {lines : List String} {materials : MaterialLibrary} {c : Conversion K}
    (h : ofLines lines materials = .ok c)
    (hmotions : ∀ card ∈ Card.deck lines, card.kind ≠ .motion) :
    c.geometry.surfaces.All fun id s =>
      (c.geometry.BoundsOutside id →
        Boundary.Given (conditions (Card.deck lines)) s.kind s.boundary) ∧
      (¬ c.geometry.BoundsOutside id → s.boundary = .transmission) := by
  obtain ⟨d, hdeck, rfl⟩ := exists_draft_of_ofLines h
  obtain ⟨hconditioned, hne, hmarks⟩ := conditioned_addDeck hdeck hmotions
  have hdistinct := (distinct_new materials).changes
    (changes_of_addCards (sound_new materials) hdeck)
  refine Table.all_of_find? hdistinct.surfaces fun id s hs => ⟨fun hbounds => ?_, fun hnot => ?_⟩
  · rw [hconditioned.outside id s hs hbounds]
    exact Boundary.given_choose hne s
  · by_contra hmarked
    exact hnot (hmarks id ⟨s, hs, hmarked⟩)

/-- A ball in a box, with conditions before and after the cells. -/
def boxLines : List String :=
  ["set bc 1", "surf s sph 0 0 0 1", "surf b cuboid -2 2 -2 2 -2 2", "cell a 0 void -s",
    "cell o 0 outside b", "cell m 0 void s -b", "set bc 2 3"]

/-- The last card counts. It has no condition for planes across the z axis, which get the first
    one, and particles pass the ball. -/
theorem ofLines_conditions_box :
    ∃ c : Conversion Float, ofLines boxLines .empty = .ok c ∧
      c.geometry.surfaces.values.map (·.boundary) =
        [.transmission, .reflective, .reflective, .periodic, .reflective, .periodic, .reflective] ∧
      (∀ card ∈ Card.deck boxLines, card.kind ≠ .motion) ∧
      c.geometry.surfaces.All fun id s =>
        (c.geometry.BoundsOutside id →
          Boundary.Given (conditions (Card.deck boxLines)) s.kind s.boundary) ∧
        (¬ c.geometry.BoundsOutside id → s.boundary = .transmission) := by
  have hrun : ((ofLines (K := Float) boxLines .empty).toOption.map fun c =>
      c.geometry.surfaces.values.map (·.boundary)) =
      some [.transmission, .reflective, .reflective, .periodic, .reflective, .periodic,
        .reflective] := by
    decide +kernel
  have hmotions : ∀ card ∈ Card.deck boxLines, card.kind ≠ .motion := by
    decide +kernel
  obtain ⟨c, hlines, hboundaries⟩ := exists_ok_of_map_eq_some hrun
  exact ⟨c, hlines, hboundaries, hmotions, ofLines_conditions hlines hmotions⟩

end Conversion

end SerpentCsg
