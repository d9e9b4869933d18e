import SerpentCsg.Proofs.Draft.Copies
import SerpentCsg.Scalar.Binary64

/-! # Motions Touch Nothing Else

  A universe is moved without any effect on the rest of the geometry. Cells of other universes stay
  as they are, and so does every surface but the copies that the moved cells own. The cells that
  are moved keep the form of their regions, over surfaces that bound nothing else.

  However often a cell is moved, the copies that are made for it are no more than the surfaces that
  it was bounded by when it was added, as long as no motion fails.
-/

namespace SerpentCsg.Draft

variable {K : Type} [Scalar K]

/-! ### Runs of cards -/

/-- The draft after some cards, each worked in as far as it goes. -/
def workIn (d : Draft K) (cards : List Card) : Draft K :=
  cards.foldl (fun d card => (d.addCard card).draft) d

/-- The cards that are worked in when a list of them is: all of them, or those up to the first that
    fails. -/
def worked (d : Draft K) : List Card → List Card
  | [] => []
  | card :: cards =>
    match d.addCard card with
    | ⟨next, none⟩ => card :: worked next cards
    | ⟨_, some _⟩ => [card]

/-- The cards that are worked in when some decks are. -/
def workedDecks (d : Draft K) : List (List Card) → List Card
  | [] => []
  | deck :: decks => d.worked (inPhases deck) ++ workedDecks (d.addDeck deck).1 decks

/-- No motion fails when some cards are worked in. -/
def MotionsSucceed (d : Draft K) : List Card → Prop
  | [] => True
  | card :: cards =>
    (card.kind = .motion → (d.addCard card).fault = none) ∧
      MotionsSucceed (d.addCard card).draft cards

instance decidableMotionsSucceed (d : Draft K) : ∀ cards, Decidable (d.MotionsSucceed cards)
  | [] => .isTrue trivial
  | card :: cards =>
    have := decidableMotionsSucceed (d.addCard card).draft cards
    inferInstanceAs (Decidable (_ ∧ _))

theorem workIn_cons (d : Draft K) (card : Card) (cards : List Card) :
    d.workIn (card :: cards) = (d.addCard card).draft.workIn cards := rfl

theorem workIn_append (d : Draft K) (cards others : List Card) :
    d.workIn (cards ++ others) = (d.workIn cards).workIn others := List.foldl_append

theorem addCards_eq_workIn (d : Draft K) (cards : List Card) :
    (d.addCards cards).1 = d.workIn (d.worked cards) := by
  induction cards generalizing d with
  | nil => rfl
  | cons card cards ih =>
    unfold addCards worked
    cases hcard : d.addCard card with
    | mk next fault =>
      cases fault with
      | none =>
        rw [workIn_cons, hcard]
        exact ih next
      | some fault =>
        show next = (d.addCard card).draft
        rw [hcard]

theorem afterDecks_eq_workIn (materials : MaterialLibrary) (decks : List (List Card)) :
    (afterDecks materials decks : Draft K) =
      (new materials).workIn ((new materials : Draft K).workedDecks decks) := by
  have hfold : ∀ d : Draft K, decks.foldl (fun d deck => (d.addDeck deck).1) d =
      d.workIn (d.workedDecks decks) := by
    induction decks with
    | nil => exact fun _ => rfl
    | cons deck decks ih =>
      intro d
      rw [List.foldl_cons, ih, workedDecks, workIn_append]
      unfold addDeck
      rw [addCards_eq_workIn]
  exact hfold _

theorem workIn_changes {d : Draft K} (h : d.Sound) (cards : List Card) :
    Changes d (d.workIn cards) := by
  induction cards generalizing d with
  | nil => exact .refl
  | cons card cards ih =>
    have hfirst := addCard_changes h card
    exact hfirst.trans (ih (h.changes hfirst))

/-- As long as no motion fails, every copy bounds its owner. -/
theorem Settled.workIn {d : Draft K} (h : d.Settled) (hsound : d.Sound) (hl : d.Listed)
    {cards : List Card} (hmotions : d.MotionsSucceed cards) : (d.workIn cards).Settled := by
  induction cards generalizing d with
  | nil => exact h
  | cons card cards ih =>
    have hchanges := addCard_changes hsound card
    exact ih (h.addCard hsound hl hmotions.1) (hsound.changes hchanges) (hl.changes hchanges)
      hmotions.2

/-! ### What a motion does -/

/-- The card moves a universe. -/
def MovesUniverse (K : Type) [Scalar K] (card : Card) (name : String) : Prop :=
  card.kind = .motion ∧ ∃ args : List K,
    Card.readMotion card.text.toList = some { target := 'U', name, args }

/-- What moving a universe does to a draft, and what it leaves as it was. -/
structure Isolated (parent : String) (d d' : Draft K) : Prop where
  /-- Cells of other universes stay as they are, and no cell comes into being. -/
  cells : ∀ name, (∀ c, d.cells.find? name = some c → c.parent ≠ parent) →
    d'.cells.find? name = d.cells.find? name
  /-- Surfaces stay as they are, but for copies that a cell of the universe owns. -/
  surfaces : ∀ id s, d.surfaces.find? id = some s →
    (∀ owner c, d.owners.find? id = some owner → d.cells.find? owner = some c →
      c.parent ≠ parent) →
    d'.surfaces.find? id = some s
  entries : d'.entries = d.entries
  universes : d'.universes = d.universes
  /-- A cell with a filling universe keeps its region. -/
  filled : ∀ name c u, d.cells.find? name = some c → c.fill = .universe u →
    ∃ c', d'.cells.find? name = some c' ∧ c'.fill = c.fill ∧ c'.region = c.region
  /-- Any other cell of the universe keeps the form of its region, over surfaces of its own. -/
  bounded : ∀ name c, d.cells.find? name = some c → c.parent = parent →
    (∀ u, c.fill ≠ .universe u) →
    ∃ r f, c.region = some r ∧
      d'.cells.find? name = some { c with region := some (r.renumber f) } ∧
      (∀ a ∈ r.surfaces, ∀ b ∈ r.surfaces, f a = f b → a = b) ∧
      ∀ id ∈ r.surfaces, d'.surfaces.contains (f id) = true ∧ ¬ d'.Named (f id) ∧
        ∀ other c' r', d'.cells.find? other = some c' → c'.region = some r' →
          f id ∈ r'.surfaces → other = name

theorem isolated_of_moved {d d' : Draft K} (hl : d.Listed) (hsound' : d'.Sound) (ho' : d'.Owned)
    {parent : String} {u : Universe K} (hu : d.universes.find? parent = some u)
    (h : Moved u.cells d d') : Isolated parent d d' := by
  -- The cells that are moved are those whose parent is the universe.
  have hother {name : String} (hname : ∀ c, d.cells.find? name = some c → c.parent ≠ parent) :
      name ∉ u.cells := by
    intro hmem
    obtain ⟨c, hc, hparent⟩ := hl.declared parent u hu name hmem
    exact hname c hc hparent
  constructor
  case cells => exact fun name hname => h.others name (hother hname)
  case surfaces =>
    intro id s hs howner
    exact h.surfaces id s hs fun owner hown => hother fun c hc => howner owner c hown hc
  case entries => exact h.entries
  case universes => exact h.universes
  case filled =>
    intro name c v hc hfill
    by_cases hmem : name ∈ u.cells
    · obtain ⟨c', hc', hmoved⟩ := h.cells name hmem c hc
      cases hmoved with
      | filling moves _ _ =>
        obtain ⟨-, -, hfill', hregion⟩ := fillMovedAll_keeps c moves
        exact ⟨_, hc', hfill', hregion⟩
      | bounds hplain _ _ => exact absurd hfill (hplain v)
    · exact ⟨c, (h.others name hmem).trans hc, rfl, rfl⟩
  case bounded =>
    intro name c hc hparent hfill
    obtain ⟨c', hc', hmoved⟩ := h.cells name ((hl.mem_cells_iff hu hc).2 hparent) c hc
    cases hmoved with
    | filling moves hfill' _ => exact absurd hfill' (hfill _)
    | @bounds r f _ hr hcopied =>
      refine ⟨r, f, hr, hc', hcopied.apart, fun id hid => ?_⟩
      -- The new surfaces are copies that the cell owns, which bound nothing else.
      have howner := hcopied.owned id hid
      refine ⟨hsound'.owners.find? howner, ho'.unnamed _ _ howner, ?_⟩
      intro other c' r' hc' hr' hmem
      exact ho'.bounding _ _ howner other c' r' hc' hr' hmem

/-- A card that moves a universe carries out the steps that its numbers ask for. -/
theorem addCard_of_movesOf (d : Draft K) {card : Card} {parent : String} {args : List K}
    (hkind : card.kind = .motion)
    (hread : Card.readMotion card.text.toList = some { target := 'U', name := parent, args })
    {moves : List (Move K)}
    (hmoves : Motion.movesOf { target := 'U', name := parent, args } = .ok moves) :
    d.addCard card = d.moveUniverse moves parent := by
  rw [addCard_motion d hkind]
  simp only [addMotionCard, hread, Motion.ofCard, Motion.targetOf?, hmoves, Except.map, move]

/-- A card that moves a universe, and is worked in to the end, asks for steps that can be carried
    out. -/
theorem addCard_eq_moveUniverse {d : Draft K} {card : Card} {parent : String} {args : List K}
    (hkind : card.kind = .motion)
    (hread : Card.readMotion card.text.toList = some { target := 'U', name := parent, args })
    (hdone : (d.addCard card).fault = none) :
    ∃ moves, Motion.movesOf { target := 'U', name := parent, args } = .ok moves ∧
      d.addCard card = d.moveUniverse moves parent := by
  cases hmoves : Motion.movesOf ({ target := 'U', name := parent, args } : Card.MotionCard K) with
  | ok moves => exact ⟨moves, rfl, addCard_of_movesOf d hkind hread hmoves⟩
  | error fault =>
    rw [addCard_motion d hkind] at hdone
    simp [addMotionCard, hread, Motion.ofCard, Motion.targetOf?, hmoves, Except.map,
      Outcome.stopped] at hdone

/-- One letter stands for universes. -/
theorem eq_of_targetOf? {letter : Char} (h : Motion.targetOf? letter = some .universe) :
    letter = 'U' := by
  unfold Motion.targetOf? at h
  split at h
  · simp at h
  · rfl
  · simp at h

/-- A motion card that is worked in to the end moves a universe, or a single surface. -/
theorem addCard_motion_cases {d : Draft K} {card : Card} (hkind : card.kind = .motion)
    (hdone : (d.addCard card).fault = none) :
    (∃ parent, MovesUniverse K card parent) ∨
      ∃ moves name, d.addCard card = d.moveNamedSurface moves name := by
  rw [addCard_motion d hkind] at hdone ⊢
  obtain ⟨⟨target, name, args⟩, motion, hread, hof, hmove⟩ := addMotionCard_done hdone
  unfold Motion.ofCard at hof
  split at hof
  · simp at hof
  · next found htarget =>
    cases hmoves : Motion.movesOf ({ target, name, args } : Card.MotionCard K) with
    | error fault => simp [hmoves, Except.map] at hof
    | ok moves =>
      simp only [hmoves, Except.map, Except.ok.injEq] at hof
      obtain rfl := hof
      match found with
      | .surface => exact .inr ⟨moves, name, hmove⟩
      | .universe =>
        obtain rfl : target = 'U' := eq_of_targetOf? htarget
        exact .inl ⟨name, hkind, args, hread⟩

theorem moveNamedSurface_cells (d : Draft K) (moves : List (Move K)) (name : String) :
    (d.moveNamedSurface moves name).draft.cells = d.cells := by
  unfold moveNamedSurface moveSurface
  split
  · split <;> rfl
  · rfl
  · rfl

theorem addCard_isolated {d : Draft K} (hsound : d.Sound) (hl : d.Listed) (ho : d.Owned)
    {card : Card} {parent : String} (hcard : MovesUniverse K card parent)
    (hdone : (d.addCard card).fault = none) : Isolated parent d (d.addCard card).draft := by
  have hchanges := addCard_changes hsound card
  obtain ⟨hkind, args, hread⟩ := hcard
  obtain ⟨moves, -, hmove⟩ := addCard_eq_moveUniverse hkind hread hdone
  rw [hmove] at hdone hchanges ⊢
  obtain ⟨u, hu, hmoved⟩ := moveUniverse_moved hsound hl hdone
  exact isolated_of_moved hl (hsound.changes hchanges) (ho.changes hsound hchanges) hu hmoved

/-- A card changes no cell that is there, unless it moves the universe of the cell or is a motion
    that fails. -/
theorem find?_cells_addCard {d : Draft K} (hsound : d.Sound) (hl : d.Listed) (ho : d.Owned)
    {card : Card} {name : String} {c : Cell K} (hc : d.cells.find? name = some c)
    (hother : ¬ MovesUniverse K card c.parent)
    (hdone : card.kind = .motion → (d.addCard card).fault = none) :
    (d.addCard card).draft.cells.find? name = some c := by
  rcases addCard_cases hsound card with ⟨-, hsame | hsets⟩ | ⟨hmotion, -⟩ | ⟨-, hdeclaring⟩
  · rw [hsame, hc]
  · generalize (d.addCard card).draft = changed at hsets ⊢
    cases hsets <;> exact hc
  · rcases addCard_motion_cases hmotion (hdone hmotion) with
      ⟨parent, hcard⟩ | ⟨moves, surface, hmove⟩
    · have hisolated := addCard_isolated hsound hl ho hcard (hdone hmotion)
      have hne : c.parent ≠ parent := fun heq => hother (heq ▸ hcard)
      rw [hisolated.cells name fun c₀ hc₀ => ?_, hc]
      rw [hc, Option.some.injEq] at hc₀
      rwa [← hc₀]
    · rw [hmove, moveNamedSurface_cells, hc]
  · exact find?_cells_declaring hdeclaring hc

/-- A motion of a universe that succeeds, on any draft that decks lead to, touches nothing else. If
    no motion fails on the way there, a cell never has more copies than it had surfaces when it was
    added, or at any time since. -/
theorem motions_isolated (materials : MaterialLibrary) (decks : List (List Card)) :
    (∀ card parent, MovesUniverse K card parent →
      ((afterDecks materials decks : Draft K).addCard card).fault = none →
      Isolated parent (afterDecks materials decks : Draft K)
        ((afterDecks materials decks).addCard card).draft) ∧
    ((new materials : Draft K).MotionsSucceed ((new materials : Draft K).workedDecks decks) →
      ∀ earlier later, (new materials : Draft K).workedDecks decks = earlier ++ later →
      ∀ name c, ((new materials : Draft K).workIn earlier).cells.find? name = some c →
        (afterDecks materials decks : Draft K).copies name ≤ surfaceCount c) := by
  have hsound := sound_new (K := K) materials
  have hchanges := afterDecks_changes (K := K) materials decks
  constructor
  · intro card parent hcard hdone
    exact addCard_isolated (hsound.changes hchanges) ((listed_new materials).changes hchanges)
      ((owned_new materials).changes hsound hchanges) hcard hdone
  · intro hmotions earlier later hsplit name c hc
    have hsettled := (settled_new materials).workIn hsound (listed_new materials) hmotions
    rw [← afterDecks_eq_workIn] at hsettled
    have hlater : Changes ((new materials : Draft K).workIn earlier)
        (afterDecks materials decks) := by
      rw [afterDecks_eq_workIn, hsplit, workIn_append]
      exact workIn_changes (hsound.changes (workIn_changes hsound earlier)) later
    -- The cell is bounded by as many surfaces in the end as it was then.
    obtain ⟨c', hc', hstays⟩ := stays_changes hlater hc
    rw [← hstays.count]
    exact copies_le_surfaceCount hsettled ((owned_new materials).changes hsound hchanges) hc'

/-- Two universes that share a sphere, one of which has been moved. -/
def sharedSphere : List (List Card) :=
  [[⟨1, .surface, "surf s sph 0 0 0 1"⟩, ⟨2, .cellMaterial, "cell a 0 void -s"⟩,
    ⟨3, .cellMaterial, "cell b 1 void s"⟩, ⟨4, .motion, "trans U 0 1 0 0"⟩]]

/-- The universe is moved once more. -/
theorem motions_isolated_again :
    Isolated "0" (afterDecks .empty sharedSphere : Draft Float)
      ((afterDecks .empty sharedSphere : Draft Float).addCard
        ⟨5, .motion, "trans U 0 0 1 0"⟩).draft ∧
    ∀ c, ((new .empty : Draft Float).workIn [⟨1, .surface, "surf s sph 0 0 0 1"⟩,
        ⟨2, .cellMaterial, "cell a 0 void -s"⟩]).cells.find? "a" = some c →
      (afterDecks .empty sharedSphere : Draft Float).copies "a" ≤ surfaceCount c := by
  obtain ⟨hisolated, hcopies⟩ := motions_isolated (K := Float) .empty sharedSphere
  have hworked : (new .empty : Draft Float).workedDecks sharedSphere = sharedSphere.flatten := by
    decide +kernel
  have hread : (Card.readMotion (K := Float) "trans U 0 0 1 0".toList).map
      (fun card => (card.target, card.name)) = some ('U', "0") := by
    decide +kernel
  constructor
  · obtain ⟨⟨target, name, args⟩, hcard, heq⟩ := Option.map_eq_some_iff.1 hread
    obtain ⟨rfl, rfl⟩ := Prod.mk.inj heq
    exact hisolated _ "0" ⟨rfl, args, hcard⟩ (by decide +kernel)
  · intro c hc
    exact hcopies (by decide +kernel) _ _ (by rw [hworked]; rfl) "a" c hc

end SerpentCsg.Draft
