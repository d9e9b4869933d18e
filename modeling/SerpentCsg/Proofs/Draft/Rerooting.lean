import SerpentCsg.Proofs.Draft.Roots

/-! # Another Root Universe

  Two runs over the same cards, from drafts that differ in the root universe alone. The root
  universe is looked at in one place only: a cell must not be filled with it. So the runs go on
  side by side, and the drafts keep differing in the root universe alone, up to the first cell
  that is filled with the root universe of the second run, where that run stops.
-/

namespace SerpentCsg

variable {K : Type}

/-- The draft with another root universe. -/
def Draft.rerooted (d : Draft K) (root : String) : Draft K := { d with root }

/-- What is left behind, with another root universe. -/
def Outcome.rerooted (o : Outcome K) (root : String) : Outcome K :=
  { o with draft := o.draft.rerooted root }

namespace Outcome

theorem ofStep_rerooted (d : Draft K) (root : String) (step : Except Fault (Draft K)) :
    ofStep (d.rerooted root) (step.map (·.rerooted root)) = (ofStep d step).rerooted root := by
  cases step <;> rfl

theorem andThen_rerooted (o : Outcome K) (root : String) {next : Draft K → Outcome K}
    (hnext : ∀ d, next (d.rerooted root) = (next d).rerooted root) :
    (o.rerooted root).andThen next = (o.andThen next).rerooted root := by
  obtain ⟨d, fault⟩ := o
  cases fault with
  | none => exact hnext d
  | some fault => rfl

end Outcome

namespace Draft

section Frame

variable (d : Draft K) (root : String)

@[simp] theorem rerooted_root : (d.rerooted root).root = root := rfl

@[simp] theorem rerooted_entries : (d.rerooted root).entries = d.entries := rfl

@[simp] theorem rerooted_surfaces : (d.rerooted root).surfaces = d.surfaces := rfl

@[simp] theorem rerooted_cells : (d.rerooted root).cells = d.cells := rfl

@[simp] theorem rerooted_universes : (d.rerooted root).universes = d.universes := rfl

/-! ### Universes and cells -/

theorem ensureUniverse_rerooted (name : String) :
    (d.rerooted root).ensureUniverse name = (d.ensureUniverse name).rerooted root := by
  unfold ensureUniverse
  rw [rerooted_universes]
  split <;> rfl

theorem ensureFill_rerooted (fill : Fill) :
    (d.rerooted root).ensureFill fill = (d.ensureFill fill).rerooted root := by
  match fill with
  | .universe name => exact ensureUniverse_rerooted d root name
  | .material _ | .void | .outside => rfl

theorem addCell_rerooted (cell : Cell K) :
    (d.rerooted root).addCell cell = (d.addCell cell).map (·.rerooted root) := by
  have hlattice : (d.rerooted root).hasLattice cell.parent = d.hasLattice cell.parent := rfl
  unfold addCell addCellName
  rw [ensureUniverse_rerooted, rerooted_cells, hlattice]
  split
  · rfl
  · split <;> rfl

theorem registerCell_rerooted (plan : CellPlan) (region : Option Region) :
    (d.rerooted root).registerCell plan region = (d.registerCell plan region).rerooted root := by
  let reserved := ((d.ensureFill plan.fill).reserveCellId plan.card.name).1
  have hadd (cell : Cell K) : Outcome.ofStep (reserved.rerooted root)
      ((reserved.rerooted root).addCell cell) =
        (Outcome.ofStep reserved (reserved.addCell cell)).rerooted root := by
    rw [addCell_rerooted]
    exact Outcome.ofStep_rerooted reserved root _
  unfold registerCell
  rw [ensureFill_rerooted]
  exact hadd _

theorem markSurfaces_rerooted (tokens : List Card.CellToken) :
    (d.rerooted root).markSurfaces tokens = (d.markSurfaces tokens).rerooted root := by
  have hlist (ids : List Nat) (d : Draft K) :
      ids.foldl markSurface (d.rerooted root) = (ids.foldl markSurface d).rerooted root := by
    induction ids generalizing d with
    | nil => rfl
    | cons id ids ih => exact ih (d.markSurface id)
  exact hlist _ d

theorem addPlannedCell_rerooted (plan : CellPlan) :
    (d.rerooted root).addPlannedCell plan = (d.addPlannedCell plan).rerooted root := by
  have hmark : (if plan.fill == .outside then (d.rerooted root).markSurfaces plan.tokens
      else d.rerooted root) =
        (if plan.fill == .outside then d.markSurfaces plan.tokens else d).rerooted root := by
    rw [markSurfaces_rerooted]
    split <;> rfl
  have hcovers : (d.rerooted root).coversEverything plan.tokens =
      d.coversEverything plan.tokens := rfl
  unfold addPlannedCell
  rw [hmark, hcovers, registerCell_rerooted]
  generalize (if plan.fill == .outside then d.markSurfaces plan.tokens else d) = marked
  have hregion : (marked.rerooted root).regionOf plan.card.name plan.tokens =
      marked.regionOf plan.card.name plan.tokens := rfl
  dsimp only
  rw [hregion]
  split
  · rfl
  · split
    · rfl
    · exact registerCell_rerooted marked root plan _

/-! ### Lattices -/

theorem ensureUniverses_rerooted (names : List String) :
    names.foldl ensureUniverse (d.rerooted root) =
      (names.foldl ensureUniverse d).rerooted root := by
  induction names generalizing d with
  | nil => rfl
  | cons name names ih =>
    rw [List.foldl_cons, ensureUniverse_rerooted]
    exact ih (d.ensureUniverse name)

theorem addLattice_rerooted (name : String) (lattice : Lattice K) :
    (d.rerooted root).addLattice name lattice = (d.addLattice name lattice).rerooted root := by
  unfold addLattice
  rw [ensureUniverses_rerooted, ensureUniverse_rerooted]
  dsimp only
  rw [rerooted_universes]
  split
  · split <;> rfl
  · rfl

/-! ### Surfaces -/

theorem addShape_rerooted (name : String) (shape : Shape K) :
    (d.rerooted root).addShape name shape = (d.addShape name shape).rerooted root := by
  cases shape with
  | infinite | primitive => rfl
  | composite kinds =>
    cases kinds with
    | hexPrism flats => cases flats <;> rfl
    | _ => rfl

/-! ### Cards -/

variable [Scalar K]

theorem addSurfaceCard_rerooted (text : String) :
    (d.rerooted root).addSurfaceCard text =
      (d.addSurfaceCard text).map (·.rerooted root) := by
  cases hread : Card.readSurface (K := K) text.toList with
  | none =>
    rw [addSurfaceCard_of_unreadable (d := d) hread, addSurfaceCard_of_unreadable hread]
    rfl
  | some card =>
    cases hname : d.entries.contains card.name with
    | true =>
      have hname' : (d.rerooted root).entries.contains card.name = true := hname
      rw [addSurfaceCard_of_taken hread hname, addSurfaceCard_of_taken hread hname']
      rfl
    | false =>
      have hname' : (d.rerooted root).entries.contains card.name = false := hname
      rw [addSurfaceCard_of_free hread hname, addSurfaceCard_of_free hread hname']
      cases Shape.ofCard card with
      | error fault => rfl
      | ok shape => exact congrArg Except.ok (addShape_rerooted d root card.name shape)

theorem addLatticeCard_rerooted (text : String) :
    (d.rerooted root).addLatticeCard text = (d.addLatticeCard text).rerooted root := by
  unfold addLatticeCard
  split
  · rfl
  · split
    · rfl
    · exact addLattice_rerooted d root _ _

/-! ### Motions -/

variable (moves : List (Move K))

theorem moveSurface_rerooted (id : Nat) :
    (d.rerooted root).moveSurface moves id = (d.moveSurface moves id).rerooted root := by
  unfold moveSurface
  rw [rerooted_surfaces]
  split <;> rfl

theorem moveNamedSurface_rerooted (name : String) :
    (d.rerooted root).moveNamedSurface moves name =
      (d.moveNamedSurface moves name).rerooted root := by
  unfold moveNamedSurface
  rw [rerooted_entries]
  split
  · exact moveSurface_rerooted d root moves _
  · rfl
  · rfl

theorem moveBounds_rerooted (cell : String) (ids : List Nat) (renumbering : Nat → Nat) :
    moveBounds moves cell ids renumbering (d.rerooted root) =
      (moveBounds moves cell ids renumbering d).rerooted root := by
  induction ids generalizing renumbering d with
  | nil => rfl
  | cons id ids ih =>
    have howns : (d.rerooted root).ownsCopy cell id = d.ownsCopy cell id := rfl
    -- A copy is made of the same surface and gets the same number.
    have hcopy : (d.rerooted root).copySurface cell id =
        (d.copySurface cell id).map fun made => (made.1.rerooted root, made.2) := by
      unfold copySurface
      rw [rerooted_surfaces]
      cases d.surfaces.find? id <;> rfl
    unfold moveBounds
    rw [howns, hcopy]
    split
    · rw [moveSurface_rerooted]
      exact Outcome.andThen_rerooted _ root fun d => ih d renumbering
    · cases d.copySurface cell id with
      | none => rfl
      | some made =>
        obtain ⟨d', copy⟩ := made
        show ((d'.rerooted root).moveSurface moves copy).andThen _ = _
        rw [moveSurface_rerooted]
        exact Outcome.andThen_rerooted _ root fun d => ih d _

theorem moveCell_rerooted (name : String) :
    (d.rerooted root).moveCell moves name = (d.moveCell moves name).rerooted root := by
  unfold moveCell
  rw [rerooted_cells]
  split
  · rfl
  · split
    · rfl
    · exact moveBounds_rerooted d root moves name _ id
    · rfl

theorem moveCells_rerooted (names : List String) :
    (d.rerooted root).moveCells moves names = (d.moveCells moves names).rerooted root := by
  induction names generalizing d with
  | nil => rfl
  | cons name names ih =>
    unfold moveCells
    rw [moveCell_rerooted]
    exact Outcome.andThen_rerooted _ root ih

theorem moveUniverse_rerooted (name : String) :
    (d.rerooted root).moveUniverse moves name = (d.moveUniverse moves name).rerooted root := by
  unfold moveUniverse
  rw [rerooted_universes]
  split
  · rfl
  · split
    · rfl
    · exact moveCells_rerooted d root moves _

theorem addMotionCard_rerooted (text : String) :
    (d.rerooted root).addMotionCard text = (d.addMotionCard text).rerooted root := by
  unfold addMotionCard
  split
  · rfl
  · split
    · rfl
    · unfold move
      split
      · exact moveNamedSurface_rerooted d root _ _
      · exact moveUniverse_rerooted d root _ _

end Frame

/-! ### Cards of cells -/

/-- A filling that is settled for one root universe is refused for another one if it is that. -/
theorem fillOf_rerooted {d : Draft K} {card : Card.CellCard} {fill : Fill}
    (h : d.fillOf card = .ok fill) (root : String) :
    (d.rerooted root).fillOf card =
      if fill = .universe root then .error (.forbiddenFill card.name card.parent root)
      else .ok fill := by
  unfold fillOf at h ⊢
  split at h
  · obtain rfl := Except.ok.inj h
    rfl
  · next name hword =>
    -- A material is settled without a look at the root.
    have hplain : fill ≠ .universe root := by
      rintro rfl
      split at h
      · simp at h
      · split at h <;> simp at h
    rw [if_neg hplain]
    exact h
  · next name hword =>
    split at h
    · simp at h
    · next hallowed =>
      obtain rfl := Except.ok.inj h
      rw [not_or] at hallowed
      by_cases hroot : name = root
      · subst hroot
        simp
      · simp [hroot, hallowed.2]

theorem planCell_rerooted {d : Draft K} {text : String} {plan : CellPlan}
    (h : d.planCell text = .ok plan) (root : String) :
    (d.rerooted root).planCell text =
      if plan.fill = .universe root then
        .error (.forbiddenFill plan.card.name plan.card.parent root)
      else .ok plan := by
  obtain ⟨hcard, hfill⟩ := planCell_eq_ok h
  have hrerooted := fillOf_rerooted hfill root
  by_cases hroot : plan.fill = .universe root
  · rw [if_pos hroot] at hrerooted ⊢
    simp only [planCell, hcard, hrerooted]
  · rw [if_neg hroot] at hrerooted ⊢
    -- With the same filling everything else is the same.
    simp only [planCell, hcard, hfill] at h
    simp only [planCell, hcard, hrerooted]
    exact h

/-! ### Two runs -/

/-- A cell is filled with a universe. -/
def Fills (d : Draft K) (u : String) : Prop := ∃ c ∈ d.cells.values, c.fill = .universe u

theorem fills_of_find? {d : Draft K} {name u : String} {c : Cell K}
    (hc : d.cells.find? name = some c) (hfill : c.fill = .universe u) : d.Fills u :=
  ⟨c, List.mem_map_of_mem (Table.mem_of_find? hc), hfill⟩

/-- A draft in which the root universe is unused is filled with it nowhere. -/
theorem RootUnused.not_fills {d : Draft K} (h : d.RootUnused) : ¬ d.Fills d.root := by
  rintro ⟨c, hc, hfill⟩
  obtain ⟨name, hne⟩ := h.of_mem_values hc
  exact hne hfill

/-- A cell card that can be worked in can be worked in for another root universe as well, or
    the cell is filled with that universe and refused for it. -/
theorem addCellCard_rerooted {d : Draft K} {text : String}
    (hdone : (d.addCellCard text).fault = none) (root : String) :
    (d.rerooted root).addCellCard text = (d.addCellCard text).rerooted root ∨
    ∃ name parent c,
      (d.rerooted root).addCellCard text =
        .stopped (d.rerooted root) (.forbiddenFill name parent root) ∧
      (d.addCellCard text).draft.cells.find? name = some c ∧ c.fill = .universe root := by
  unfold addCellCard at hdone ⊢
  cases hplan : d.planCell text with
  | error fault => simp [hplan, Outcome.stopped] at hdone
  | ok plan =>
    rw [planCell_rerooted hplan root]
    simp only [hplan] at hdone ⊢
    by_cases hroot : plan.fill = .universe root
    · -- The first run has added the cell that the second one refuses.
      have hregistered : ∃ c, (d.addPlannedCell plan).draft.cells.find? plan.card.name = some c ∧
          c.fill = plan.fill := by
        rcases addPlannedCell_done hdone with ⟨-, hsame⟩ | ⟨marked, r, -, -, hsame⟩ <;>
          rw [hsame] at hdone ⊢
        · obtain ⟨-, c, hc, hfill, -⟩ := registerCell_done hdone
          exact ⟨c, hc, hfill⟩
        · obtain ⟨-, c, hc, hfill, -⟩ := registerCell_done hdone
          exact ⟨c, hc, hfill⟩
      obtain ⟨c, hc, hfill⟩ := hregistered
      refine .inr ⟨plan.card.name, plan.card.parent, c, ?_, hc, hfill.trans hroot⟩
      rw [if_pos hroot]
    · rw [if_neg hroot]
      exact .inl (addPlannedCell_rerooted d root plan)

variable [Scalar K]

theorem addCard_rerooted {d : Draft K} {card : Card} (hsetting : ¬ IsSetting card)
    (hdone : (d.addCard card).fault = none) (root : String) :
    (d.rerooted root).addCard card = (d.addCard card).rerooted root ∨
    ∃ name parent c,
      (d.rerooted root).addCard card =
        .stopped (d.rerooted root) (.forbiddenFill name parent root) ∧
      (d.addCard card).draft.cells.find? name = some c ∧ c.fill = .universe root := by
  unfold addCard at hdone ⊢
  cases hkind : card.kind with
  | boundaries => exact absurd (.inl hkind) hsetting
  | root => exact absurd (.inr hkind) hsetting
  | surface =>
    refine .inl ?_
    dsimp only
    rw [addSurfaceCard_rerooted]
    exact Outcome.ofStep_rerooted d root _
  | cellMaterial | cellFill | cellOutside =>
    rw [hkind] at hdone
    exact addCellCard_rerooted hdone root
  | lattice => exact .inl (addLatticeCard_rerooted d root card.text)
  | motion => exact .inl (addMotionCard_rerooted d root card.text)
  | other => exact .inl rfl

/-- Cards that can be worked in can be worked in for another root universe as well, or a
    cell is filled with that universe, and the work stops there. -/
theorem addCards_rerooted {d d' : Draft K} (hsound : d.Sound) {cards : List Card}
    (hsettings : ∀ card ∈ cards, ¬ IsSetting card) (hdone : d.addCards cards = (d', none))
    (root : String) :
    (d.rerooted root).addCards cards = (d'.rerooted root, none) ∨
    d'.Fills root ∧ ∃ line name parent,
      ((d.rerooted root).addCards cards).2 =
        some ((Report.ofFault (.forbiddenFill name parent root)).atLine line) := by
  -- By induction on the cards: the drafts differ in the root alone until the second run stops.
  induction cards generalizing d with
  | nil =>
    obtain ⟨rfl, -⟩ := Prod.mk.inj hdone
    exact .inl rfl
  | cons card cards ih =>
    rw [List.forall_mem_cons] at hsettings
    have hchanges := addCard_changes hsound card
    have hstep := addCard_rerooted (d := d) hsettings.1
    unfold addCards at hdone ⊢
    cases hcard : d.addCard card with
    | mk next fault =>
      rw [hcard] at hdone hchanges hstep
      cases fault with
      | some fault => simp at hdone
      | none =>
        have hsound' := hsound.changes hchanges
        rcases hstep rfl root with hsame | ⟨name, parent, c, hstopped, hc, hfill⟩
        · rw [hsame]
          exact ih hsound' hsettings.2 hdone
        · rw [hstopped]
          have hlater : Changes next d' := by
            have hrest := addCards_changes hsound' cards
            rw [show next.addCards cards = (d', none) from hdone] at hrest
            exact hrest
          -- The cell that is refused is still there in the end.
          obtain ⟨c', hc', hstays⟩ := stays_changes hlater hc
          exact .inr ⟨fills_of_find? hc' (hstays.fill.trans hfill), card.line, name, parent, rfl⟩

end Draft

end SerpentCsg
