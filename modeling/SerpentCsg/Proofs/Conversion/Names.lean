import SerpentCsg.Proofs.Conversion.Order
import SerpentCsg.Proofs.Draft.Names
import SerpentCsg.Proofs.Fallible

/-! # Names of the Surfaces of a Geometry

  No two surface cards of a geometry have the same name: a card whose name has been given away is
  reported as a duplicate. This does not make the names of the surfaces distinct. A face of a
  composite and a copy get names that nobody looks up, so a card can have the same one, whether it
  comes before or after the composite.

  - `Geometry.NamedBy` says what the names of the surfaces are, and when they are distinct.
  - `Conversion.ofLines_names` says that all geometries made of lines are named like this, and which
    cards are reported.
-/

namespace SerpentCsg

open Draft

variable {K : Type}

/-! ### Surface cards of a deck -/

namespace Draft

/-- The cards of a deck that declare surfaces. -/
def surfaceCards (deck : List Card) : List Card := deck.filter fun card => card.kind == .surface

theorem mem_surfaceCards {deck : List Card} {card : Card} :
    card ∈ surfaceCards deck ↔ card ∈ deck ∧ card.kind = .surface := by
  simp [surfaceCards]

theorem ofPhase_one (deck : List Card) : ofPhase 1 deck = surfaceCards deck := by
  refine List.filter_congr fun card _ => ?_
  cases card.kind <;> rfl

/-- Surface cards are worked in after the settings, and before all others. -/
theorem inPhases_eq_surfaceCards (deck : List Card) :
    inPhases deck =
      settings deck ++ (surfaceCards deck ++ (ofPhase 2 deck ++ ofPhase 3 deck)) := by
  rw [inPhases_eq_ofPhase, ofPhase_one, List.append_assoc]
  rfl

/-- The names and shapes that the surface cards of a deck describe, in order. -/
def declaredShapes (K : Type) [Scalar K] (deck : List Card) : List (String × Shape K) :=
  (surfaceCards deck).filterMap (Shape.described K)

end Draft

/-- The surfaces of a geometry have the names that the cards of a deck give them, and copies have
    names made from those. -/
structure Geometry.NamedBy [Scalar K] (g : Geometry K) (deck : List Card) (copies : List String) :
    Prop where
  described : ∀ card ∈ surfaceCards deck, (Shape.described K card).isSome = true
  /-- No two cards have the same name. -/
  cards : ((declaredShapes K deck).map (·.1)).Nodup
  names : Surface.names g.surfaces = Shape.surfaceNames (declaredShapes K deck) ++ copies
  copied : CopyNames (Shape.surfaceNames (declaredShapes K deck)) copies
  /-- No two faces have the same name. -/
  faces_nodup : (Shape.faceNames (declaredShapes K deck)).Nodup
  /-- No two copies have the same name. -/
  copies_nodup : copies.Nodup
  /-- No face has the name of a copy. -/
  apart : ∀ name ∈ Shape.faceNames (declaredShapes K deck), name ∉ copies
  /-- A name comes twice only if a surface with the name of its card has that of a face or of a
      copy. -/
  distinct : (Surface.names g.surfaces).Nodup ↔
    ∀ name ∈ Shape.ownNames (declaredShapes K deck),
      name ∉ Shape.faceNames (declaredShapes K deck) ∧ name ∉ copies

namespace Draft

variable [Scalar K]

/-- No surface has been declared when the last setting is made. -/
theorem empty_of_settings {materials : MaterialLibrary} {deck : List Card} {d : Draft K}
    (h : (new materials).addCards (settings deck) = (d, none)) :
    d.surfaces = .empty ∧ d.entries = .empty := by
  have hnone : ((new materials : Draft K).addCards (settings deck)).1.surfaces = .empty ∧
      ((new materials : Draft K).addCards (settings deck)).1.entries = .empty := by
    rw [addCards_settings_frame _ fun _ => isSetting_of_mem_settings]
    exact ⟨rfl, rfl⟩
  rwa [h] at hnone

theorem kind_ne_surface_of_mem {deck : List Card} {card : Card}
    (h : card ∈ ofPhase 2 deck ++ ofPhase 3 deck) : card.kind ≠ .surface := by
  intro hkind
  rcases List.mem_append.1 h with hmem | hmem <;>
  · have hphase := (List.mem_filter.1 hmem).2
    rw [hkind] at hphase
    revert hphase
    decide

theorem namedBy_addDeck {materials : MaterialLibrary} {deck : List Card} {d : Draft K}
    (h : (new materials).addDeck deck = (d, none)) :
    ∃ copies, d.geometry.NamedBy deck copies := by
  unfold addDeck at h
  rw [inPhases_eq_surfaceCards] at h
  obtain ⟨d₀, hsettings, hworks⟩ := addCards_append_eq_done h
  obtain ⟨d₁, hsurfaces, hrest⟩ := addCards_append_eq_done hworks
  obtain ⟨hempty, hnone⟩ := empty_of_settings hsettings
  have hkeys : d₀.entries.keys = [] := by
    rw [hnone]
    rfl
  obtain ⟨hall, hcards, rfl⟩ := (addCards_surfaces_iff (fun _ hcard => (mem_surfaceCards.1 hcard).2)
    (by rw [hkeys]; exact List.nodup_nil)).1 hsurfaces
  rw [hkeys, List.nil_append] at hcards
  -- Nothing has been copied when the last surface is declared.
  have hnamed : (d₀.addShapes (declaredShapes K deck)).NamedAfter
      (Shape.surfaceNames (declaredShapes K deck)) := by
    refine ⟨[], .none, ?_⟩
    have hnames := (addShapes_registers (declaredShapes K deck) d₀).names
    rw [hempty, List.map_flatMap] at hnames
    simp only [Shape.map_fst_parts] at hnames
    rw [List.append_nil]
    exact hnames
  have hsound : (d₀.addShapes (declaredShapes K deck)).Sound := by
    have hfirst := changes_of_addCards (sound_new materials) hsettings
    have hset := (sound_new materials).changes hfirst
    exact hset.changes (changes_of_addCards hset hsurfaces)
  obtain ⟨copies, hcopied, hnames⟩ :=
    hnamed.addCards hsound (fun _ => kind_ne_surface_of_mem) hrest
  refine ⟨copies, ?_⟩
  constructor
  case described => exact hall
  case cards => exact hcards
  case names => exact hnames
  case copied => exact hcopied
  case faces_nodup => exact Shape.nodup_faceNames hcards
  case copies_nodup => exact hcopied.nodup
  case apart => exact fun name hface hcopy => hcopied.not_mem_faceNames hcopy hface
  case distinct =>
    show (Surface.names d.surfaces).Nodup ↔ _
    rw [hnames]
    exact hcopied.nodup_iff hcards

/-- A surface card with the name of an earlier one is reported, if it comes to its turn. -/
theorem addDeck_duplicate {materials : MaterialLibrary} {deck before after : List Card}
    {card : Card} {described : Card.SurfaceCard K} {d : Draft K}
    (hcards : surfaceCards deck = before ++ card :: after)
    (hturn : (new materials).addCards (settings deck ++ before) = (d, none))
    (hread : Card.readSurface card.text.toList = some described)
    (hname : described.name ∈ (before.filterMap (Shape.described K)).map (·.1)) :
    (new materials).addDeck deck =
      (d, some ((Report.ofFault (.duplicate .surface described.name)).atLine card.line)) := by
  obtain ⟨d₀, hsettings, hbefore⟩ := addCards_append_eq_done hturn
  obtain ⟨-, hnone⟩ := empty_of_settings hsettings
  have hkinds : ∀ other ∈ before ++ card :: after, other.kind = .surface := by
    rw [← hcards]
    exact fun _ hother => (mem_surfaceCards.1 hother).2
  have hdistinct : d₀.entries.keys.Nodup := by
    rw [hnone]
    exact List.nodup_nil
  obtain ⟨-, -, rfl⟩ := (addCards_surfaces_iff
    (fun _ hother => hkinds _ (List.mem_append_left _ hother)) hdistinct).1 hbefore
  -- The earlier card has made its name one that is taken.
  have htaken := contains_addShapes (d := d₀) (.inr hname)
  have hcard : (d₀.addShapes (before.filterMap (Shape.described K))).addCard card =
      .stopped (d₀.addShapes (before.filterMap (Shape.described K)))
        (.duplicate .surface described.name) := by
    unfold addCard
    rw [hkinds card (by simp)]
    dsimp only
    rw [addSurfaceCard_of_taken hread htaken]
    rfl
  unfold addDeck
  rw [inPhases_eq_surfaceCards, hcards, List.append_assoc, ← List.append_assoc, addCards_append,
    hturn, List.cons_append]
  show addCards _ (card :: _) = _
  rw [addCards, hcard]
  rfl

end Draft

namespace Conversion

variable [Scalar K]

/-- The surfaces of a geometry have the names that the cards give them, and copies have names made
    from those. The names are distinct if and only if no surface with the name of its card has that
    of a face or of a copy. A card with the name of an earlier one is reported as a duplicate, so no
    two cards have the same name. -/
theorem ofLines_names (lines : List String) (materials : MaterialLibrary) :
    (∀ c : Conversion K, ofLines lines materials = .ok c →
      ∃ copies, c.geometry.NamedBy (Card.deck lines) copies) ∧
    ∀ (before after : List Card) (card : Card) (described : Card.SurfaceCard K) (d : Draft K),
      surfaceCards (Card.deck lines) = before ++ card :: after →
      (new materials).addCards (settings (Card.deck lines) ++ before) = (d, none) →
      Card.readSurface card.text.toList = some described →
      described.name ∈ (before.filterMap (Shape.described K)).map (·.1) →
      ofLines (K := K) lines materials =
        .error ((Report.ofFault (.duplicate .surface described.name)).atLine card.line) := by
  constructor
  · intro c hlines
    obtain ⟨d, hdeck, rfl⟩ := exists_draft_of_ofLines hlines
    exact namedBy_addDeck hdeck
  · intro before after card described d hcards hturn hread hname
    unfold ofLines
    rw [addDeck_duplicate hcards hturn hread hname]

/-- A prism, and a ball in a universe that is moved. -/
def prismLines : List String :=
  ["surf b sqc 0 0 2", "surf s sph 0 0 0 1", "cell a 0 fill u -b", "cell f u void -s",
    "cell o 0 outside b", "trans U u 1 0 0"]

/-- The same surface twice. -/
def twiceLines : List String := ["surf s px 0", "surf s px 0"]

/-- The ball is copied when five surfaces are there, and all names are distinct. The second of two
    surfaces with one name is reported. -/
theorem ofLines_names_prism :
    (∃ (c : Conversion Float) (copies : List String), ofLines prismLines .empty = .ok c ∧
      Surface.names c.geometry.surfaces =
        ["b_sub_0", "b_sub_1", "b_sub_2", "b_sub_3", "s", "s_5"] ∧
      c.geometry.NamedBy (Card.deck prismLines) copies) ∧
    ofLines (K := Float) twiceLines .empty =
      .error ((Report.ofFault (.duplicate .surface "s")).atLine 2) := by
  constructor
  · have hrun : ((ofLines (K := Float) prismLines .empty).toOption.map fun c =>
        Surface.names c.geometry.surfaces) =
        some ["b_sub_0", "b_sub_1", "b_sub_2", "b_sub_3", "s", "s_5"] := by
      decide +kernel
    obtain ⟨c, hlines, hnames⟩ := exists_ok_of_map_eq_some hrun
    obtain ⟨copies, hnamed⟩ := (ofLines_names prismLines .empty).1 c hlines
    exact ⟨c, copies, hlines, hnames, hnamed⟩
  · have hread : (Card.readSurface (K := Float) "surf s px 0".toList).map (·.name) = some "s" := by
      decide +kernel
    obtain ⟨described, hdescribed, hname⟩ := Option.map_eq_some_iff.1 hread
    have hturn : ((new .empty : Draft Float).addCards
        (settings (Card.deck twiceLines) ++ [⟨1, .surface, "surf s px 0"⟩])).2 = none := by
      decide +kernel
    have hbefore : "s" ∈ (([⟨1, .surface, "surf s px 0"⟩] : List Card).filterMap
        (Shape.described Float)).map (·.1) := by
      decide +kernel
    rw [← hname] at hbefore ⊢
    exact (ofLines_names twiceLines .empty).2 [⟨1, .surface, "surf s px 0"⟩] []
      ⟨2, .surface, "surf s px 0"⟩ described _ (by decide +kernel) (Prod.ext rfl hturn) hdescribed
      hbefore

/-- A prism, and a plane with the name of one of its faces. -/
def faceLines : List String := ["surf a sqc 0 0 1", "surf a_sub_0 px 5", "cell c 0 void -a"]

/-- A ball that is copied when it is moved, and another with the name of the copy. -/
def copyLines : List String :=
  ["surf s sph 0 0 0 1", "surf s_2 sph 0 0 0 5", "cell a 0 fill u -s_2", "cell f u void -s",
    "trans U u 1 0 0"]

/-- Geometries are accepted in which two surfaces have the same name. -/
theorem accepts_repeated_names :
    (∃ c : Conversion Float, ofLines faceLines .empty = .ok c ∧
      ¬ (Surface.names c.geometry.surfaces).Nodup) ∧
    ∃ c : Conversion Float, ofLines copyLines .empty = .ok c ∧
      ¬ (Surface.names c.geometry.surfaces).Nodup := by
  have hface : ((ofLines (K := Float) faceLines .empty).toOption.map fun c =>
      Surface.names c.geometry.surfaces) =
      some ["a_sub_0", "a_sub_1", "a_sub_2", "a_sub_3", "a_sub_0"] := by
    decide +kernel
  have hcopy : ((ofLines (K := Float) copyLines .empty).toOption.map fun c =>
      Surface.names c.geometry.surfaces) = some ["s", "s_2", "s_2"] := by
    decide +kernel
  constructor
  · obtain ⟨c, hc, hnames⟩ := exists_ok_of_map_eq_some hface
    exact ⟨c, hc, by rw [hnames]; decide⟩
  · obtain ⟨c, hc, hnames⟩ := exists_ok_of_map_eq_some hcopy
    exact ⟨c, hc, by rw [hnames]; decide⟩

end Conversion

end SerpentCsg
