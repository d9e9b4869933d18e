import SerpentCsg.Input.Geometry
import SerpentCsg.Proofs.Draft.Effects
import SerpentCsg.Proofs.Draft.Rerooting
import SerpentCsg.Scalar.Binary64

/-! # Choosing the Root Universe

  A root card after all other lines decides which universe is the root. It changes nothing else
  about a geometry that can be converted, if no cell is filled with the universe that it names. If a
  cell is, the geometry cannot be converted any more, as that cell is refused.

  So of the universes in which something is declared, those that lie below no cell can be made the
  root, and an assembly or a pin that is in use cannot.
-/

namespace SerpentCsg

open Draft

variable {K : Type}

/-! ### Settings come first -/

namespace Draft

/-- The cards of a deck that set something. -/
def settings (deck : List Card) : List Card :=
  deck.filter fun card => phase? card.kind == some 0

/-- The cards of a deck that declare or move something, in the order they are worked in. -/
def works (deck : List Card) : List Card :=
  [1, 2, 3].flatMap fun phase => deck.filter fun card => phase? card.kind == some phase

/-- Only cards of the deck are worked in. -/
theorem mem_of_mem_inPhases {deck : List Card} {card : Card} (h : card ∈ inPhases deck) :
    card ∈ deck := by
  obtain ⟨phase, -, hcard⟩ := List.mem_flatMap.1 h
  exact (List.mem_filter.1 hcard).1

/-- Every card that has a phase is worked in. -/
theorem mem_inPhases {deck : List Card} {card : Card} (hcard : card ∈ deck) {phase : Nat}
    (hphase : phase ∈ phases) (hkind : phase? card.kind = some phase) : card ∈ inPhases deck := by
  refine List.mem_flatMap.2 ⟨phase, hphase, List.mem_filter.2 ⟨hcard, ?_⟩⟩
  rw [hkind, beq_self_eq_true]

theorem inPhases_eq (deck : List Card) : inPhases deck = settings deck ++ works deck := rfl

theorem isSetting_of_mem_settings {deck : List Card} {card : Card} (h : card ∈ settings deck) :
    IsSetting card := by
  have hphase := (List.mem_filter.1 h).2
  revert hphase
  unfold IsSetting
  cases card.kind <;> simp [phase?]

theorem not_isSetting_of_mem_works {deck : List Card} {card : Card} (h : card ∈ works deck) :
    ¬ IsSetting card := by
  obtain ⟨phase, hphase, hcard⟩ := List.mem_flatMap.1 h
  have hkind := (List.mem_filter.1 hcard).2
  rintro (hsetting | hsetting) <;> rw [hsetting] at hkind <;> clear hcard <;> revert phase <;>
    decide

/-- A root card at the end of a deck is the last of the settings. -/
theorem inPhases_append_root (deck : List Card) {card : Card} (hkind : card.kind = .root) :
    inPhases (deck ++ [card]) = settings deck ++ card :: works deck := by
  have hphase : phase? card.kind = some 0 := by rw [hkind]; rfl
  rw [inPhases_eq]
  simp [settings, works, hphase]

theorem Sound.rerooted {d : Draft K} (h : d.Sound) (root : String) : (d.rerooted root).Sound :=
  h.sets (.root d root)

variable [Scalar K]

/-- The cards of a list are worked in before those after it, which are left out if there is a
    fault. -/
theorem addCards_append (d : Draft K) (cards others : List Card) :
    d.addCards (cards ++ others) =
      match d.addCards cards with
      | (d₁, none) => d₁.addCards others
      | stopped => stopped := by
  induction cards generalizing d with
  | nil => rfl
  | cons card cards ih =>
    rw [List.cons_append, addCards, addCards]
    cases d.addCard card with
    | mk next fault =>
      cases fault with
      | none => exact ih next
      | some fault => rfl

theorem addCards_append_eq_done {d d' : Draft K} {cards others : List Card}
    (h : d.addCards (cards ++ others) = (d', none)) :
    ∃ d₁, d.addCards cards = (d₁, none) ∧ d₁.addCards others = (d', none) := by
  rw [addCards_append] at h
  cases hcards : d.addCards cards with
  | mk d₁ report =>
    rw [hcards] at h
    cases report with
    | none => exact ⟨d₁, rfl, h⟩
    | some report => simp at h

/-- Settings change nothing but boundary conditions and the root. -/
theorem addCards_settings_frame (d : Draft K) {cards : List Card}
    (hsettings : ∀ card ∈ cards, IsSetting card) :
    (d.addCards cards).1 =
      { d with
        boundaries := (d.addCards cards).1.boundaries
        root := (d.addCards cards).1.root } := by
  let P (next : Draft K) := next = { d with boundaries := next.boundaries, root := next.root }
  refine addCards_invariant (P := P) (fun next card hcard hnext => ?_) rfl
  rcases addCard_sets next (hsettings card hcard) with hsame | hsets
  · rwa [hsame]
  · show (next.addCard card).draft = _
    rw [hsets.frame, hnext]

/-- No cell is there before the last setting is made. -/
theorem cells_settings {materials : MaterialLibrary} {deck : List Card} {d : Draft K}
    (h : (new materials).addCards (settings deck) = (d, none)) : d.cells = .empty := by
  have hnone : ((new materials : Draft K).addCards (settings deck)).1.cells = .empty := by
    rw [addCards_settings_frame _ fun _ => isSetting_of_mem_settings]
    rfl
  rwa [h] at hnone

/-- A card that names a root makes it the root. -/
theorem addCard_root (d : Draft K) {root : String} (hname : Card.IsName root) (line : Nat) :
    d.addCard ⟨line, .root, "set root " ++ root⟩ = .done (d.rerooted root) := by
  have hread : Card.readRoot ("set root " ++ root).toList = some root := by
    rw [String.toList_append]
    exact Card.readRoot_rootText hname
  show Outcome.ofStep d (d.addRootCard ("set root " ++ root)) = _
  rw [addRootCard, hread]
  rfl

/-- A deck that can be worked in can be worked in with another root, unless a cell is filled with
    it. If a cell is, then one of those cells is refused. -/
theorem addDeck_append_root {materials : MaterialLibrary} {deck : List Card} {d : Draft K}
    (h : (new materials).addDeck deck = (d, none)) {root : String} (hname : Card.IsName root)
    (last : Nat) :
    ((new materials).addDeck (deck ++ [⟨last, .root, "set root " ++ root⟩]) =
        (d.rerooted root, none) ∧ ¬ d.Fills root) ∨
    (d.Fills root ∧ ∃ line name parent,
      ((new materials : Draft K).addDeck (deck ++ [⟨last, .root, "set root " ++ root⟩])).2 =
        some ((Report.ofFault (.forbiddenFill name parent root)).atLine line)) := by
  unfold addDeck at h ⊢
  rw [inPhases_eq] at h
  obtain ⟨d₁, hsettings, hworks⟩ := addCards_append_eq_done h
  have hsound := (sound_new materials).changes (changes_of_addCards (sound_new materials) hsettings)
  -- Both runs have the same settings, and the second one names the root after them.
  have hsecond : (new materials : Draft K).addCards
      (inPhases (deck ++ [⟨last, .root, "set root " ++ root⟩])) =
        (d₁.rerooted root).addCards (works deck) := by
    rw [inPhases_append_root deck rfl, addCards_append, hsettings]
    show d₁.addCards (_ :: works deck) = _
    rw [addCards, addCard_root d₁ hname last]
    rfl
  have hplain : ∀ card ∈ works deck, ¬ IsSetting card := fun _ => not_isSetting_of_mem_works
  rw [hsecond]
  rcases addCards_rerooted hsound hplain hworks root with hsame | hrefused
  · -- No cell is there before the root is named, so none is filled with it at any time.
    have hcells : d₁.cells = .empty := cells_settings hsettings
    have hunused : (d₁.rerooted root).RootUnused := by
      unfold RootUnused
      rw [rerooted_cells, hcells]
      exact Table.all_empty _
    have hend := hunused.addCards (hsound.rerooted root) hplain
    rw [hsame] at hend
    exact .inl ⟨hsame, hend.not_fills⟩
  · exact .inr hrefused

end Draft

/-! ### Conversions with another root -/

namespace Conversion

theorem ofDraft_eq_ok {d : Draft K} {c : Conversion K} (hsound : d.Sound) (h : ofDraft d = .ok c) :
    c = ⟨d.geometry, d.warnings⟩ := by
  unfold ofDraft at h
  rw [hsound.finish_eq] at h
  split at h
  · next geometry hfinish =>
    split at hfinish
    · obtain rfl := Except.ok.inj hfinish
      exact (Except.ok.inj h).symm
    · simp at hfinish
  · simp at h

/-- A draft can be finished with any of its universes as the root. -/
theorem ofDraft_rerooted {d : Draft K} (hsound : d.Sound) {root : String}
    (hroot : d.universes.contains root = true) :
    ofDraft (d.rerooted root) = .ok ⟨{ d.geometry with root }, d.warnings⟩ := by
  unfold ofDraft
  rw [(hsound.rerooted root).finish_eq, rerooted_universes, rerooted_root, if_pos hroot]
  rfl

variable [Scalar K]

theorem ofLines_eq_ok {lines : List String} {materials : MaterialLibrary} {c : Conversion K}
    (h : ofLines lines materials = .ok c) :
    ∃ d, (new materials).addDeck (Card.deck lines) = (d, none) ∧ ofDraft d = .ok c := by
  unfold ofLines at h
  split at h
  · simp at h
  · next d hdeck => exact ⟨d, hdeck, h⟩

/-- A conversion shows the draft that its deck leaves behind, as it is. -/
theorem exists_draft_of_ofLines {lines : List String} {materials : MaterialLibrary}
    {c : Conversion K} (h : ofLines lines materials = .ok c) :
    ∃ d, (new materials).addDeck (Card.deck lines) = (d, none) ∧ c = ⟨d.geometry, d.warnings⟩ := by
  obtain ⟨d, hdeck, hfinish⟩ := ofLines_eq_ok h
  have hchanges := changes_of_addCards (sound_new materials) hdeck
  exact ⟨d, hdeck, ofDraft_eq_ok ((sound_new materials).changes hchanges) hfinish⟩

/-- Lines that make a geometry make the same geometry with another root, if a card that names a
    universe in which something is declared comes after them and no cell is filled with that
    universe. If a cell is, then one of those cells is refused. -/
theorem ofLines_append_root {lines : List String} {materials : MaterialLibrary} {c : Conversion K}
    (h : ofLines lines materials = .ok c) {root : String} {u : Universe K}
    (hu : c.geometry.universes.find? root = some u) (hdeclared : u.isPlaceholder = false) :
    ((∀ cell ∈ c.geometry.cells.values, cell.fill ≠ .universe root) →
      ofLines (lines ++ [GeometrySource.rootLine root]) materials =
        .ok { c with geometry := { c.geometry with root } }) ∧
    ((∃ cell ∈ c.geometry.cells.values, cell.fill = .universe root) →
      ∃ line name parent, ofLines (K := K) (lines ++ [GeometrySource.rootLine root]) materials =
        .error ((Report.ofFault (.forbiddenFill name parent root)).atLine line)) := by
  obtain ⟨d, hdeck, hfinish⟩ := ofLines_eq_ok h
  have hchanges : Changes (new materials) d := by
    have hcards := addCards_changes (K := K) (sound_new materials) (inPhases (Card.deck lines))
    rwa [show (new materials).addCards (inPhases (Card.deck lines)) = (d, none) from hdeck]
      at hcards
  have hsound := (sound_new materials).changes hchanges
  obtain rfl := ofDraft_eq_ok hsound hfinish
  have hname : Card.IsName root := ((plain_new materials).changes hchanges).find? hu hdeclared
  unfold ofLines
  rw [GeometrySource.rootLine, Card.deck_append_root hname]
  rcases addDeck_append_root hdeck hname (lines.length + 1) with
    ⟨hsame, hunused⟩ | ⟨hfills, line, name, parent, hrefused⟩
  · refine ⟨fun _ => ?_, fun hfills => absurd hfills hunused⟩
    rw [hsame]
    exact ofDraft_rerooted hsound (Table.contains_of_find? hu)
  · refine ⟨fun hunused => ?_, fun _ => ⟨line, name, parent, ?_⟩⟩
    · obtain ⟨cell, hcell, hfill⟩ := hfills
      exact absurd hfill (hunused cell hcell)
    · split
      · next report heq =>
        rw [heq] at hrefused
        obtain rfl := Option.some.inj hrefused
        rfl
      · next second heq =>
        rw [heq] at hrefused
        simp at hrefused

/-- A pin in use, and a universe that is not. -/
def pinLines : List String :=
  ["surf s sph 0 0 0 1", "cell a 0 fill pin -s", "cell p pin void -s", "cell b 1 void -s"]

/-- The universe that is not in use can be made the root. -/
theorem ofLines_append_root_unused :
    ∃ (c : Conversion Float) (u : Universe Float),
      ofLines pinLines .empty = .ok c ∧ c.geometry.universes.find? "1" = some u ∧
      u.isPlaceholder = false ∧ (∀ cell ∈ c.geometry.cells.values, cell.fill ≠ .universe "1") ∧
      ofLines (pinLines ++ [GeometrySource.rootLine "1"]) .empty =
        .ok { c with geometry := { c.geometry with root := "1" } } := by
  have hrun : ((ofLines (K := Float) pinLines .empty).toOption.map fun c =>
      ((c.geometry.universes.find? "1").map (·.isPlaceholder),
        c.geometry.cells.values.all (·.fill != .universe "1"))) = some (some false, true) := by
    decide +kernel
  cases h : ofLines (K := Float) pinLines .empty with
  | error report => simp [h, Except.toOption] at hrun
  | ok c =>
    simp only [h, Except.toOption, Option.map_some, Option.some.injEq, Prod.mk.injEq,
      Option.map_eq_some_iff, List.all_eq_true, bne_iff_ne] at hrun
    obtain ⟨⟨u, hu, hdeclared⟩, hunused⟩ := hrun
    exact ⟨c, u, rfl, hu, hdeclared, hunused, (ofLines_append_root h hu hdeclared).1 hunused⟩

/-- The pin cannot be made the root, although a cell is declared in it. -/
theorem pin_refused_as_root :
    ∃ (c : Conversion Float) (u : Universe Float) (report : Report),
      ofLines pinLines .empty = .ok c ∧ c.geometry.universes.find? "pin" = some u ∧
      u.isPlaceholder = false ∧
      ofLines (K := Float) (pinLines ++ [GeometrySource.rootLine "pin"]) .empty =
        .error report := by
  have hfirst : ((ofLines (K := Float) pinLines .empty).toOption.bind fun c =>
      (c.geometry.universes.find? "pin").map (·.isPlaceholder)) = some false := by
    decide +kernel
  have hsecond : (ofLines (K := Float) (pinLines ++ [GeometrySource.rootLine "pin"])
      .empty).toOption.isNone = true := by
    decide +kernel
  cases h : ofLines (K := Float) pinLines .empty with
  | error report => simp [h, Except.toOption] at hfirst
  | ok c =>
    simp only [h, Except.toOption, Option.bind_some, Option.map_eq_some_iff] at hfirst
    obtain ⟨u, hu, hdeclared⟩ := hfirst
    cases h' : ofLines (K := Float) (pinLines ++ [GeometrySource.rootLine "pin"]) .empty with
    | error report => exact ⟨c, u, report, rfl, hu, hdeclared, rfl⟩
    | ok c' => simp [h', Except.toOption] at hsecond

end Conversion

end SerpentCsg
