import SerpentCsg.Proofs.Conversion.Root
import SerpentCsg.Proofs.Draft.Boundaries

/-! # Boundary Conditions of a Geometry

  Motions are worked in last. Up to there only surfaces that bound an outside cell have boundary
  conditions. Whether this is so in the geometry that is made in the end depends on which
  universes are moved, and on which of their cells are bounded by the surfaces at the outside.
-/

namespace SerpentCsg

open Draft

variable {K : Type}

/-! ### Motions come last -/

namespace Draft

/-- The cards of a deck that move something. -/
def motions (deck : List Card) : List Card := deck.filter fun card => card.kind == .motion

/-- The deck without its motions. -/
def standing (deck : List Card) : List Card := deck.filter fun card => card.kind != .motion

theorem mem_motions {deck : List Card} {card : Card} :
    card ∈ motions deck ↔ card ∈ deck ∧ card.kind = .motion := by
  simp [motions]

theorem inPhases_eq_motions (deck : List Card) :
    inPhases deck = inPhases (standing deck) ++ motions deck := by
  have hstanding (kind : Card.Kind) (phase : Nat) (hphase : phase ≠ 3) :
      (phase? kind == some phase && kind != .motion) = (phase? kind == some phase) := by
    cases kind <;> simp [phase?, Ne.symm hphase]
  have hmotions (kind : Card.Kind) : (phase? kind == some 3) = (kind == .motion) := by
    cases kind <;> rfl
  have hnone (kind : Card.Kind) : (kind == .motion && kind != .motion) = false := by
    cases kind <;> rfl
  simp [inPhases, phases, standing, motions, List.filter_filter, hstanding, hmotions, hnone]

theorem kind_of_mem_standing {deck : List Card} {card : Card}
    (h : card ∈ inPhases (standing deck)) : card.kind ≠ .motion := by
  have hmem : card ∈ standing deck := mem_of_mem_inPhases h
  simpa [standing] using (List.mem_filter.1 hmem).2

variable [Scalar K]

/-- Cards that move nothing make no copies. -/
theorem owners_addCards {d : Draft K} (hsound : d.Sound) {cards : List Card}
    (hkinds : ∀ card ∈ cards, card.kind ≠ .motion) : (d.addCards cards).1.owners = d.owners := by
  let P (next : Draft K) := next.Sound ∧ next.owners = d.owners
  suffices hboth : P (d.addCards cards).1 from hboth.2
  refine addCards_invariant (fun next card hcard hnext => ?_) ⟨hsound, rfl⟩
  obtain ⟨hsound, howners⟩ := hnext
  refine ⟨hsound.changes (addCard_changes hsound card), ?_⟩
  rcases addCard_cases hsound card with ⟨-, hsame | hsets⟩ | ⟨hmotion, -⟩ | ⟨-, hdeclaring⟩
  · rw [hsame]
    exact howners
  · generalize (next.addCard card).draft = changed at hsets ⊢
    cases hsets <;> exact howners
  · exact absurd hmotion (hkinds card hcard)
  · exact (owners_declaring hdeclaring).trans howners

/-- As long as no card fails, every copy bounds its owner. -/
theorem Settled.addCards {d d' : Draft K} (h : d.Settled) (hsound : d.Sound) (hl : d.Listed)
    {cards : List Card} (hdone : d.addCards cards = (d', none)) : d'.Settled := by
  let P (d : Draft K) := d.Sound ∧ d.Listed ∧ d.Settled
  suffices hall : P d' from hall.2.2
  refine addCards_done_invariant (fun d card _ hd hdone => ?_) ⟨hsound, hl, h⟩ hdone
  obtain ⟨hsound, hl, hsettled⟩ := hd
  have hchanges := addCard_changes hsound card
  exact ⟨hsound.changes hchanges, hl.changes hchanges, hsettled.addCard hsound hl fun _ => hdone⟩

/-- A deck that can be worked in can be worked in without its motions, and then boundary conditions
    are at the outside only. They are there in the end, if and only if they stay there when
    the cells of all universes that a card moves are moved. -/
theorem addDeck_marksOutside_iff {materials : MaterialLibrary} {deck : List Card} {d : Draft K}
    (h : (new materials).addDeck deck = (d, none)) :
    ∃ d₀ : Draft K, (new materials).addDeck (standing deck) = (d₀, none) ∧
      d₀.geometry.MarksOutside ∧
      (d.geometry.MarksOutside ↔
        d₀.geometry.MarksStay fun parent => ∃ card ∈ deck, MovesUniverse K card parent) := by
  unfold addDeck at h
  rw [inPhases_eq_motions] at h
  obtain ⟨d₀, hfirst, hlast⟩ := addCards_append_eq_done h
  have hchanges := changes_of_addCards (sound_new materials) hfirst
  have hsound := (sound_new materials).changes hchanges
  have hl := (listed_new materials).changes hchanges
  have ho := (owned_new materials).changes (sound_new materials) hchanges
  have hsettled := (settled_new materials).addCards (sound_new materials) (listed_new materials)
    hfirst
  have hplain : ∀ card ∈ inPhases (standing deck), card.kind ≠ .motion :=
    fun _ => kind_of_mem_standing
  have hmarks := marksOutside_addCards (sound_new materials) (marksOutside_new materials) hplain
    hfirst
  refine ⟨d₀, hfirst, hmarks, ?_⟩
  -- No copies have been made before the first motion.
  have hnone : d₀.owners = .empty := by
    have howners := owners_addCards (K := K) (sound_new materials) hplain
    rwa [hfirst] at howners
  have hkinds : ∀ card ∈ motions deck, card.kind = .motion := fun _ hcard => (mem_motions.1 hcard).2
  have hremade := remade_addCards hkinds hsound hl ho (remade_refl hnone) hlast
  have hmoved (parent : String) :
      (False ∨ ∃ card ∈ motions deck, MovesUniverse K card parent) ↔
        ∃ card ∈ deck, MovesUniverse K card parent := by
    simp only [false_or, mem_motions, and_assoc]
    refine exists_congr fun card => and_congr_right fun _ => ?_
    exact ⟨fun hcard => hcard.2, fun hcard => ⟨hcard.1, hcard⟩⟩
  simp only [hmoved] at hremade
  have howned := ho.changes hsound (changes_of_addCards hsound hlast)
  exact ⟨hremade.marksStay howned,
    hremade.marksOutside hsound (hsettled.addCards hsound hl hlast)⟩

end Draft

namespace Conversion

variable [Scalar K]

/-- Before anything is moved, only surfaces that bound an outside cell have boundary conditions. In
    the geometry that is made in the end this is so, if and only if every surface that has one
    bounds an outside cell in a universe that no card moves, and bounds no cell in a universe
    that a card moves, but outside cells and cells that are filled with a universe. -/
theorem ofLines_marksOutside_iff {lines : List String} {materials : MaterialLibrary}
    {c : Conversion K} (h : ofLines lines materials = .ok c) :
    ∃ d₀ : Draft K, (new materials).addDeck (standing (Card.deck lines)) = (d₀, none) ∧
      d₀.geometry.MarksOutside ∧
      (c.geometry.MarksOutside ↔ d₀.geometry.MarksStay fun parent =>
        ∃ card ∈ Card.deck lines, MovesUniverse K card parent) := by
  obtain ⟨d, hdeck, hfinish⟩ := ofLines_eq_ok h
  have hchanges := changes_of_addCards (sound_new materials) hdeck
  obtain rfl := ofDraft_eq_ok ((sound_new materials).changes hchanges) hfinish
  exact addDeck_marksOutside_iff hdeck

/-- A ball that is filled with a pellet, which is moved, and the outside around it. -/
def pelletLines : List String :=
  ["surf s sph 0 0 0 10", "surf t sph 0 0 0 1", "cell a 0 fill u -s", "cell f u void -t",
    "cell g u void t", "cell b 0 outside s", "trans U u 1 0 0"]

/-- Moving the pellet does nothing to the boundary condition of the ball. -/
theorem ofLines_marksOutside_iff_pellet :
    ∃ (c : Conversion Float) (d₀ : Draft Float),
      ofLines pelletLines .empty = .ok c ∧
      (new .empty).addDeck (standing (Card.deck pelletLines)) = (d₀, none) ∧
      d₀.geometry.MarksOutside ∧
      (c.geometry.MarksOutside ↔ d₀.geometry.MarksStay fun parent =>
        ∃ card ∈ Card.deck pelletLines, MovesUniverse Float card parent) := by
  have hrun : (ofLines (K := Float) pelletLines .empty).toOption.isSome = true := by
    decide +kernel
  cases h : ofLines (K := Float) pelletLines .empty with
  | error report => simp [h, Except.toOption] at hrun
  | ok c =>
    obtain ⟨d₀, hdeck, hmarks, hiff⟩ := ofLines_marksOutside_iff h
    exact ⟨c, d₀, rfl, hdeck, hmarks, hiff⟩

/-- A ball that is filled with a universe, which is moved, and whose cell is bounded by the ball. -/
def ballLines : List String :=
  ["surf s sph 0 0 0 10", "cell a 0 fill u -s", "cell f u void -s", "cell b 0 outside s",
    "trans U u 1 0 0"]

/-- The copy of the ball, inside it, has the boundary condition of the ball. -/
theorem ball_marked_inside :
    ∃ c : Conversion Float, ofLines ballLines .empty = .ok c ∧ ¬ c.geometry.MarksOutside := by
  have hrun : ((ofLines (K := Float) ballLines .empty).toOption.map fun c =>
      ((c.geometry.surfaces.find? 219012834).map (·.boundary),
        c.geometry.cells.values.all fun cell => cell.fill != .outside ||
          cell.region.all fun r => !r.surfaces.contains 219012834)) =
        some (some .vacuum, true) := by
    decide +kernel
  cases h : ofLines (K := Float) ballLines .empty with
  | error report => simp [h, Except.toOption] at hrun
  | ok c =>
    simp only [h, Except.toOption, Option.map_some, Option.some.injEq, Prod.mk.injEq,
      Option.map_eq_some_iff, List.all_eq_true, Bool.or_eq_true, bne_iff_ne] at hrun
    obtain ⟨⟨s, hs, hboundary⟩, hinside⟩ := hrun
    refine ⟨c, rfl, fun hmarks => ?_⟩
    have hmarked : c.geometry.Marked 219012834 := ⟨s, hs, by simp [hboundary]⟩
    obtain ⟨name, cell, r, hcell, hfill, hr, hid⟩ := hmarks _ hmarked
    have hvalue : cell ∈ c.geometry.cells.values :=
      List.mem_map_of_mem (f := Prod.snd) (Table.mem_of_find? hcell)
    rcases hinside cell hvalue with hother | hnone
    · exact hother hfill
    · simp [hr, hid] at hnone

end Conversion

end SerpentCsg
