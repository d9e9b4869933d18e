import SerpentCsg.Output.Xml
import SerpentCsg.Proofs.Exact.Motion

/-! # Universes Move Rigidly

  Computed exactly, the cards that move a universe take its cells along as rigid bodies. A cell with
  a material, with nothing or with the outside in it contains the image of a point if and only if it
  contained the point before. A cell with a filling universe gives the image of a point the
  coordinates that the point had before.

  `Follows` relates a cell before and after some motions. One card is a step, and the maps that the
  cards stand for are composed in the order of the cards.
-/

namespace SerpentCsg.Draft

open Move (actAll)

/-! ### What a motion does to a cell -/

/-- A cell has been taken along by a map of space. -/
structure Follows (g : Vec3 ℝ → Vec3 ℝ) (d d' : Draft ℝ) (c c' : Cell ℝ) : Prop where
  parent : c'.parent = c.parent
  fill : c'.fill = c.fill
  /-- The coordinates in a filling universe are those from before. -/
  coordinates : ∀ u, c.fill = .universe u → ∀ p, c'.toLocal (g p) = c.toLocal p
  /-- Any other cell contains the images of its points, and of no others. -/
  points : (∀ u, c.fill ≠ .universe u) →
    ∀ p, c'.contains d'.surfaces (g p) = c.contains d.surfaces p

theorem follows_refl (d : Draft ℝ) (c : Cell ℝ) : Follows id d d c c :=
  ⟨rfl, rfl, fun _ _ _ => rfl, fun _ _ => rfl⟩

theorem Follows.comp {g h : Vec3 ℝ → Vec3 ℝ} {d d₁ d' : Draft ℝ} {c c₁ c' : Cell ℝ}
    (hg : Follows g d d₁ c c₁) (hh : Follows h d₁ d' c₁ c') :
    Follows (fun p => h (g p)) d d' c c' where
  parent := hh.parent.trans hg.parent
  fill := hh.fill.trans hg.fill
  coordinates u hu p := by
    rw [hh.coordinates u (hg.fill.trans hu), hg.coordinates u hu]
  points hfill p := by
    rw [hh.points fun u hu => hfill u (hg.fill.symm.trans hu), hg.points hfill]

/-- Which side of a surface a point is on is kept by its image. -/
theorem contains_halfspace_of_isImage {g : Vec3 ℝ → Vec3 ℝ}
    {surfaces surfaces' : Table Nat (Surface ℝ)} {id id' : Nat} {s s' : Surface ℝ}
    (hs : surfaces.find? id = some s) (hs' : surfaces'.find? id' = some s')
    (himage : SurfaceKind.IsImage g s.kind s'.kind) (side : Side) (p : Vec3 ℝ) :
    (⟨id', side⟩ : Halfspace).contains surfaces' (g p) =
      (⟨id, side⟩ : Halfspace).contains surfaces p := by
  have hnegative : s'.value (g p) < 0 ↔ s.value p < 0 := himage.value_neg_iff p
  have hpositive : 0 ≤ s'.value (g p) ↔ 0 ≤ s.value p := by
    rw [← not_lt, ← not_lt]
    exact not_congr hnegative
  simp only [Halfspace.contains, hs, hs']
  cases side with
  | negative => exact decide_eq_decide.2 hnegative
  | positive => exact decide_eq_decide.2 hpositive

/-- A cell that is carried along by exact steps follows the map that they are. -/
theorem CellCarried.follows {moves : List (Move ℝ)} (hexact : ∀ move ∈ moves, move.IsExact)
    {d d' : Draft ℝ} (hsound : d.Sound) {name : String} {c c' : Cell ℝ}
    (hc : d.cells.find? name = some c) (h : CellCarried moves d d' c c') :
    Follows (actAll moves) d d' c c' := by
  cases h with
  | @filling u hfill =>
    obtain ⟨-, hparent, hkept, -⟩ := fillMovedAll_keeps c moves
    refine ⟨hparent, hkept, fun _ _ => c.toLocal_fillMovedAll hexact, fun hno => ?_⟩
    exact absurd hfill (hno u)
  | @bounds r f hfill hr hsurfaces =>
    refine ⟨rfl, rfl, fun u hu => absurd hu (hfill u), fun _ p => ?_⟩
    simp only [Cell.contains, hr]
    refine r.contains_renumber fun g hg => ?_
    have hid : g.surface ∈ r.surfaces := Region.mem_surfaces.2 ⟨g, hg, rfl⟩
    have hthere := (hsound.cells.find? hc).2.region r hr g.surface hid
    obtain ⟨s, hs⟩ := Table.contains_iff.1 hthere
    obtain ⟨s', hs', hbecomes⟩ := hsurfaces g.surface hid s hs
    exact contains_halfspace_of_isImage hs hs' (isImage_of_becomes hexact hbecomes) g.side p

/-! ### Runs of motions -/

/-- The card moves a universe by a map of space. -/
def MovesBy (u : String) (card : Card) (g : Vec3 ℝ → Vec3 ℝ) : Prop :=
  card.kind = .motion ∧ ∃ args, StandsFor args g ∧
    Card.readMotion card.text.toList = some { target := 'U', name := u, args }

theorem addCard_follows {d : Draft ℝ} (hsound : d.Sound) (hl : d.Listed) (ho : d.Owned)
    {card : Card} {u : String} {g : Vec3 ℝ → Vec3 ℝ} (hcard : MovesBy u card g)
    (hdone : (d.addCard card).fault = none) {name : String} {c : Cell ℝ}
    (hc : d.cells.find? name = some c) (hparent : c.parent = u) :
    ∃ c', (d.addCard card).draft.cells.find? name = some c' ∧
      Follows g d (d.addCard card).draft c c' := by
  obtain ⟨hkind, args, hstands, hread⟩ := hcard
  obtain ⟨moves, v, hmoves, hv, -, hcarried⟩ := addCard_carried hsound hl ho hkind hread hdone
  obtain ⟨hexact, rfl⟩ := movesOf_standsFor hstands hmoves
  -- The universe lists the cell, so it is among those that are moved.
  have hmem : name ∈ v.cells := (hl.mem_cells_iff hv hc).2 hparent
  obtain ⟨c', hc', hcell⟩ := hcarried name hmem c hc
  exact ⟨c', hc', hcell.follows hexact hsound hc⟩

/-- A cell of a universe follows the cards that move it, in their order. -/
theorem workIn_follows {u : String} {cards : List Card} {gs : List (Vec3 ℝ → Vec3 ℝ)}
    (hcards : List.Forall₂ (MovesBy u) cards gs) :
    ∀ {d : Draft ℝ}, d.Sound → d.Listed → d.Owned → d.MotionsSucceed cards →
      ∀ {name : String} {c : Cell ℝ}, d.cells.find? name = some c → c.parent = u →
        ∃ c', (d.workIn cards).cells.find? name = some c' ∧
          Follows (fun p => gs.foldl (fun p g => g p) p) d (d.workIn cards) c c' := by
  induction hcards with
  | nil => exact fun _ _ _ _ _ c hc _ => ⟨c, hc, follows_refl _ c⟩
  | @cons card g cards gs hcard hcards ih =>
    intro d hsound hl ho hdone name c hc hparent
    have hchanges := addCard_changes hsound card
    obtain ⟨c₁, hc₁, hfirst⟩ := addCard_follows hsound hl ho hcard (hdone.1 hcard.1) hc hparent
    obtain ⟨c', hc', hrest⟩ := ih (hsound.changes hchanges) (hl.changes hchanges)
      (ho.changes hsound hchanges) hdone.2 hc₁ (hfirst.parent.trans hparent)
    exact ⟨c', hc', hfirst.comp hrest⟩

/-- Cards that move a universe, one after another and each to the end, take the points of its cells
    along: a cell contains the image of a point after them if and only if it contained the point
    before them. -/
theorem contains_after_motions (materials : MaterialLibrary) (decks : List (List Card)) {u : String}
    {cards : List Card} {gs : List (Vec3 ℝ → Vec3 ℝ)} (hcards : List.Forall₂ (MovesBy u) cards gs)
    (hdone : (afterDecks materials decks : Draft ℝ).MotionsSucceed cards) {name : String}
    {c : Cell ℝ} (hc : (afterDecks materials decks : Draft ℝ).cells.find? name = some c)
    (hparent : c.parent = u) (hfill : ∀ v, c.fill ≠ .universe v) :
    ∃ c', ((afterDecks materials decks : Draft ℝ).workIn cards).cells.find? name = some c' ∧
      ∀ p, c'.contains ((afterDecks materials decks : Draft ℝ).workIn cards).surfaces
          (gs.foldl (fun p g => g p) p) =
        c.contains (afterDecks materials decks : Draft ℝ).surfaces p := by
  have hsound := sound_new (K := ℝ) materials
  have hchanges := afterDecks_changes (K := ℝ) materials decks
  obtain ⟨c', hc', hfollows⟩ := workIn_follows hcards (hsound.changes hchanges)
    ((listed_new materials).changes hchanges) ((owned_new materials).changes hsound hchanges)
    hdone hc hparent
  exact ⟨c', hc', hfollows.points hfill⟩

/-- A shift, and then a quarter turn about the x axis with a shift after it. -/
def quarterTurnCards : List Card :=
  [⟨3, .motion, "trans U 0 0 0 2"⟩, ⟨4, .motion, "trans U 0 1 0 0 90 0 0 1"⟩]

/-- The maps that the cards stand for. -/
noncomputable def quarterTurnMaps : List (Vec3 ℝ → Vec3 ℝ) :=
  [fun p => p + ⟨0, 0, 2⟩, fun p => (Rotation.angles ⟨90, 0, 0⟩).toMatrix.apply p + ⟨1, 0, 0⟩]

/-- The steps of the cards, one by one. -/
def quarterTurnMoves : List (Move ℝ) :=
  [.shift ⟨0, 0, 2⟩, .rotate (.angles ⟨90, 0, 0⟩), .shift ⟨1, 0, 0⟩]

theorem readMotion_shift : Card.readMotion (K := ℝ) "trans U 0 0 0 2".toList =
    some { target := 'U', name := "0", args := [0, 0, 2] } := by
  have hread : Card.readMotion (K := ℝ) "trans U 0 0 0 2".toList =
      some ⟨'U', "0", [0, 0, 2].map fun n => realOfNumeral (.finite false n 0)⟩ := rfl
  simpa [realOfNumeral_whole] using hread

theorem readMotion_quarterTurn : Card.readMotion (K := ℝ) "trans U 0 1 0 0 90 0 0 1".toList =
    some { target := 'U', name := "0", args := [1, 0, 0, 90, 0, 0, 1] } := by
  have hread : Card.readMotion (K := ℝ) "trans U 0 1 0 0 90 0 0 1".toList =
      some ⟨'U', "0", [1, 0, 0, 90, 0, 0, 1].map fun n => realOfNumeral (.finite false n 0)⟩ := rfl
  simpa [realOfNumeral_whole] using hread

theorem movesBy_quarterTurn : List.Forall₂ (MovesBy "0") quarterTurnCards quarterTurnMaps := by
  refine .cons ⟨rfl, _, .shift ⟨0, 0, 2⟩, readMotion_shift⟩ (.cons ?_ .nil)
  exact ⟨rfl, _, .rotateFirst ⟨1, 0, 0⟩ (r := .angles ⟨90, 0, 0⟩) trivial, readMotion_quarterTurn⟩

/-- The second card succeeds if its two steps can be carried out. -/
theorem addCard_quarterTurn (d : Draft ℝ) : d.addCard ⟨4, .motion, "trans U 0 1 0 0 90 0 0 1"⟩ =
    d.moveUniverse [.rotate (.angles ⟨90, 0, 0⟩), .shift ⟨1, 0, 0⟩] "0" := by
  refine addCard_of_movesOf d rfl readMotion_quarterTurn ?_
  exact ordered_rotateFirst "0" ⟨1, 0, 0⟩ (.angles ⟨90, 0, 0⟩)

/-- The half-space below a plane. -/
def halfSpaceDecks : List (List Card) :=
  [[⟨1, .surface, "surf s pz 1"⟩, ⟨2, .cellMaterial, "cell a 0 void -s"⟩]]

/-- The half-space is shifted, turned and shifted again. -/
theorem contains_after_motions_quarterTurn :
    ∃ c c', (afterDecks .empty halfSpaceDecks : Draft ℝ).cells.find? "a" = some c ∧
      ((afterDecks .empty halfSpaceDecks : Draft ℝ).workIn quarterTurnCards).cells.find? "a" =
        some c' ∧
      ∀ p, c'.contains
          ((afterDecks .empty halfSpaceDecks : Draft ℝ).workIn quarterTurnCards).surfaces
          (quarterTurnMaps.foldl (fun p g => g p) p) =
        c.contains (afterDecks .empty halfSpaceDecks : Draft ℝ).surfaces p := by
  have hdone : (afterDecks .empty halfSpaceDecks : Draft ℝ).MotionsSucceed quarterTurnCards := by
    refine ⟨fun _ => by decide +kernel, fun _ => ?_, trivial⟩
    rw [addCard_quarterTurn]
    decide +kernel
  have hcell : ((afterDecks .empty halfSpaceDecks : Draft ℝ).cells.find? "a").map
      (fun c => (c.parent, c.fill)) = some ("0", .void) := by
    decide +kernel
  obtain ⟨c, hc, heq⟩ := Option.map_eq_some_iff.1 hcell
  obtain ⟨hparent, hfill⟩ := Prod.mk.inj heq
  obtain ⟨c', hc', hpoints⟩ := contains_after_motions .empty halfSpaceDecks movesBy_quarterTurn
    hdone hc hparent (by simp [hfill])
  exact ⟨c, c', hc, hc', hpoints⟩

end SerpentCsg.Draft
