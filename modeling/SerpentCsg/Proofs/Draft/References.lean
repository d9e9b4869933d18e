import SerpentCsg.Proofs.Draft.Declaring
import SerpentCsg.Proofs.Draft.Moving
import SerpentCsg.Proofs.Geometry.Check

/-! # References Never Dangle

  Whatever decks are worked in, completely or up to a fault, the draft stays sound. So nothing can
  be missing from a finished geometry but its root universe.
-/

namespace SerpentCsg.Draft

variable {K : Type}

/-! ### Finishing a sound draft -/

theorem checkCell_eq_ok {d : Draft K} {c : Cell K} (h : d.CellResolved c) :
    d.geometry.checkCell c = .ok () := by
  have hfill : d.geometry.checkFill c.fill = .ok () := by
    have hresolved := h.fill
    revert hresolved
    match c.fill with
    | .material name => exact fun hname => if_pos hname
    | .universe name => exact fun hname => if_pos hname
    | .void | .outside => exact fun _ => rfl
  have hregion : d.geometry.checkRegion c = .ok () := by
    rw [Geometry.checkRegion_eq_ok_iff]
    intro region hr half hhas
    have hid : half.surface ∈ region.surfaces :=
      Region.mem_surfaces.2 ⟨half, Region.mem_halfspaces_iff.2 hhas, rfl⟩
    exact Table.mem_keys_iff.2 (h.region region hr half.surface hid)
  exact Geometry.checkCell_eq_ok_iff.2 ⟨if_pos h.parent, hfill, hregion⟩

theorem checkLattice_eq_ok {d : Draft K} {u : Universe K} (h : d.UniverseResolved u) :
    d.geometry.checkLattice u = .ok () := by
  rw [Geometry.checkLattice_eq_ok_iff]
  intro lattice hlattice row hrow name hname
  have hlisted : name ∈ lattice.names := List.mem_flatten.2 ⟨row, hrow, hname⟩
  exact Table.mem_keys_iff.2 (h.lattice lattice hlattice name hlisted)

/-- All that is left to check of a sound draft is its root universe. -/
theorem Sound.finish_eq {d : Draft K} (h : d.Sound) :
    d.finish = if d.universes.contains d.root then .ok d.geometry
      else .error (.unresolved .universe d.root) := by
  have hcells : d.geometry.cells.values.forM d.geometry.checkCell = .ok () := by
    refine forM_eq_ok_iff.2 fun c hc => ?_
    obtain ⟨name, -, hresolved⟩ := h.cells.of_mem_values hc
    exact checkCell_eq_ok hresolved
  have huniverses : d.geometry.universes.values.forM d.geometry.checkLattice = .ok () := by
    refine forM_eq_ok_iff.2 fun u hu => ?_
    obtain ⟨name, -, hresolved⟩ := h.universes.of_mem_values hu
    exact checkLattice_eq_ok hresolved
  have hcheck : d.geometry.check = d.geometry.checkUniverse d.root := by
    unfold Geometry.check
    rw [hcells, huniverses]
    show (d.geometry.checkUniverse d.root).bind (fun _ => .ok ()) = _
    cases d.geometry.checkUniverse d.root <;> rfl
  unfold finish
  rw [hcheck]
  unfold Geometry.checkUniverse
  show (if d.universes.contains d.root then _ else _ : Except Fault Unit).map _ = _
  split <;> rfl

/-! ### Decks -/

variable [Scalar K]

theorem addCard_motion (d : Draft K) {card : Card} (hkind : card.kind = .motion) :
    d.addCard card = d.addMotionCard card.text := by
  simp only [addCard, hkind]

/-- A card either sets something, which is a single change if it succeeds and none if it fails, or
    moves something, or declares something. -/
theorem addCard_cases {d : Draft K} (h : d.Sound) (card : Card) :
    (IsSetting card ∧ ((d.addCard card).draft = d ∨ Sets d (d.addCard card).draft)) ∨
    (card.kind = .motion ∧ Moving d (d.addCard card).draft) ∨
    (card.kind ≠ .motion ∧ Declaring d (d.addCard card).draft) := by
  by_cases hsetting : IsSetting card
  · exact .inl ⟨hsetting, addCard_sets d hsetting⟩
  · by_cases hmotion : card.kind = .motion
    · rw [addCard_motion d hmotion]
      exact .inr (.inl ⟨hmotion, addMotionCard_moving h card.text⟩)
    · exact .inr (.inr ⟨hmotion, addCard_declaring h hsetting hmotion⟩)

/-- Every card is worked in by single changes, however far it gets. -/
theorem addCard_changes {d : Draft K} (h : d.Sound) (card : Card) :
    Changes d (d.addCard card).draft := by
  rcases addCard_cases h card with ⟨-, hsame | hsets⟩ | ⟨-, hmoving⟩ | ⟨-, hdeclaring⟩
  · rw [hsame]
  · exact .single (.sets hsets)
  · exact hmoving.changes
  · exact hdeclaring.changes

/-- What every card of a list keeps is kept by the list, also if a fault stops the work. -/
theorem addCards_invariant {P : Draft K → Prop} {cards : List Card}
    (hkeep : ∀ d, ∀ card ∈ cards, P d → P (d.addCard card).draft) {d : Draft K} (h : P d) :
    P (d.addCards cards).1 := by
  induction cards generalizing d with
  | nil => exact h
  | cons card cards ih =>
    have hfirst := hkeep d card List.mem_cons_self h
    have hrest (next : Draft K) (hnext : P next) : P (next.addCards cards).1 :=
      ih (fun d other hother => hkeep d other (List.mem_cons_of_mem card hother)) hnext
    unfold addCards
    split
    · next next heq =>
      rw [heq] at hfirst
      exact hrest next hfirst
    · next next fault heq =>
      rw [heq] at hfirst
      exact hfirst

/-- A list of cards is worked in to the end if its first card is, and then the others. -/
theorem addCards_cons_done {d d' : Draft K} {card : Card} {cards : List Card}
    (h : d.addCards (card :: cards) = (d', none)) :
    (d.addCard card).fault = none ∧ (d.addCard card).draft.addCards cards = (d', none) := by
  unfold addCards at h
  split at h
  · next next heq =>
    rw [heq]
    exact ⟨rfl, h⟩
  · simp at h

/-- What every card of a list keeps if it succeeds is kept by the list if all of them do. -/
theorem addCards_done_invariant {P : Draft K → Prop} {cards : List Card}
    (hkeep : ∀ d, ∀ card ∈ cards, P d → (d.addCard card).fault = none → P (d.addCard card).draft)
    {d d' : Draft K} (h : P d) (hdone : d.addCards cards = (d', none)) : P d' := by
  induction cards generalizing d with
  | nil =>
    obtain ⟨rfl, -⟩ := Prod.mk.inj hdone
    exact h
  | cons card cards ih =>
    obtain ⟨hfirst, hrest⟩ := addCards_cons_done hdone
    have hnext := hkeep d card List.mem_cons_self h hfirst
    exact ih (fun d other hother => hkeep d other (List.mem_cons_of_mem card hother)) hnext hrest

theorem addCards_changes {d : Draft K} (h : d.Sound) (cards : List Card) :
    Changes d (d.addCards cards).1 := by
  refine addCards_invariant (fun next card _ hchanges => ?_) .refl
  exact hchanges.trans (addCard_changes (h.changes hchanges) card)

theorem changes_of_addCards {d d' : Draft K} (h : d.Sound) {cards : List Card}
    {report : Option Report} (hcards : d.addCards cards = (d', report)) : Changes d d' := by
  have hchanges := addCards_changes h cards
  rwa [hcards] at hchanges

/-- The draft after some decks, each worked in as far as it goes. -/
def afterDecks (materials : MaterialLibrary) (decks : List (List Card)) : Draft K :=
  decks.foldl (fun d deck => (d.addDeck deck).1) (new materials)

theorem afterDecks_changes (materials : MaterialLibrary) (decks : List (List Card)) :
    Changes (new materials : Draft K) (afterDecks materials decks) := by
  have hfold : ∀ d : Draft K, d.Sound →
      Changes d (decks.foldl (fun d deck => (d.addDeck deck).1) d) := by
    induction decks with
    | nil => exact fun _ _ => .refl
    | cons deck decks ih =>
      intro d h
      have hdeck := addCards_changes h (inPhases deck)
      exact hdeck.trans (ih _ (h.changes hdeck))
  exact hfold _ (sound_new materials)

/-- No reference dangles after any decks, so a geometry can be finished unless its root universe is
    missing. -/
theorem references_resolve (materials : MaterialLibrary) (decks : List (List Card)) :
    (afterDecks materials decks : Draft K).Sound ∧
    (afterDecks materials decks : Draft K).materials = materials ∧
    ∀ fault, (afterDecks materials decks : Draft K).finish = .error fault ↔
      (afterDecks materials decks : Draft K).universes.contains
        (afterDecks materials decks : Draft K).root = false ∧
      fault = .unresolved .universe (afterDecks materials decks : Draft K).root := by
  have hchanges := afterDecks_changes (K := K) materials decks
  have hsound := (sound_new materials).changes hchanges
  refine ⟨hsound, hchanges.extends.materials, fun fault => ?_⟩
  rw [hsound.finish_eq]
  split
  · next hroot => simp [hroot]
  · next hroot =>
    rw [Except.error.injEq]
    simp [hroot, eq_comm]

end SerpentCsg.Draft
