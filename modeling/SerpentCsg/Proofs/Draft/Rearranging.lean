import SerpentCsg.Proofs.Draft.References
import SerpentCsg.Proofs.Identifier

/-! # Surfaces in Another Order

  Two drafts that differ in nothing but the order of the surfaces and of the surface names. Whatever
  card comes next, except for one of a surface, both go on in the same way: things are looked up
  by number or by name, and the number of a copy depends on which numbers are taken and on how many
  surfaces there are, not on their order.
-/

namespace SerpentCsg

variable {K : Type}

/-! ### Drafts and outcomes -/

/-- Two drafts differ at most in the order of the surfaces and of the surface names. -/
structure Draft.Rearranged (d d' : Draft K) : Prop where
  surfaces : d.surfaces.Rearranged d'.surfaces
  entries : d.entries.Rearranged d'.entries
  frame : d' = { d with surfaces := d'.surfaces, entries := d'.entries }

/-- What holds of the first draft with its tables rearranged in any way holds of the second. -/
@[elab_as_elim]
theorem Draft.Rearranged.elim {d d' : Draft K} {motive : Draft K → Prop} (h : d.Rearranged d')
    (hmotive : ∀ surfaces entries, d.surfaces.Rearranged surfaces →
      d.entries.Rearranged entries → motive { d with surfaces, entries }) : motive d' := by
  rw [h.frame]
  exact hmotive _ _ h.surfaces h.entries

namespace Outcome

/-- Two outcomes have the same fault, if any, and leave drafts behind that differ at most in
    order. -/
structure Rearranged (o o' : Outcome K) : Prop where
  fault : o'.fault = o.fault
  draft : o.draft.Rearranged o'.draft

theorem rearranged_done {d d' : Draft K} (h : d.Rearranged d') :
    (done d).Rearranged (done d') :=
  ⟨rfl, h⟩

theorem rearranged_stopped {d d' : Draft K} (h : d.Rearranged d') (fault : Fault) :
    (stopped d fault).Rearranged (stopped d' fault) :=
  ⟨rfl, h⟩

theorem Rearranged.andThen {o o' : Outcome K} (h : o.Rearranged o')
    {next : Draft K → Outcome K}
    (hnext : ∀ d d', d.Rearranged d' → (next d).Rearranged (next d')) :
    (o.andThen next).Rearranged (o'.andThen next) := by
  obtain ⟨d, fault⟩ := o
  obtain ⟨d', fault'⟩ := o'
  obtain ⟨hfault, hdraft⟩ := h
  obtain rfl : fault' = fault := hfault
  cases fault' with
  | none => exact hnext d d' hdraft
  | some fault => exact ⟨rfl, hdraft⟩

end Outcome

namespace Draft.Rearranged

open Outcome (rearranged_done rearranged_stopped)

variable {d d' : Draft K} (h : d.Rearranged d')

include h

/-! ### Universes and cells -/

theorem ensureUniverse (name : String) :
    (d.ensureUniverse name).Rearranged (d'.ensureUniverse name) := by
  refine h.elim fun surfaces entries hsurfaces hentries => ?_
  unfold Draft.ensureUniverse
  dsimp only
  split <;> exact ⟨hsurfaces, hentries, rfl⟩

theorem ensureFill (fill : Fill) : (d.ensureFill fill).Rearranged (d'.ensureFill fill) := by
  match fill with
  | .universe name => exact h.ensureUniverse name
  | .material _ | .void | .outside => exact h

theorem addCellName (parent cell : String) :
    (d.addCellName parent cell).Rearranged (d'.addCellName parent cell) := by
  have hmentioned := h.ensureUniverse parent
  unfold Draft.addCellName
  exact hmentioned.elim fun _ _ hsurfaces hentries => ⟨hsurfaces, hentries, rfl⟩

theorem addCell (cell : Cell K) :
    (Outcome.ofStep d (d.addCell cell)).Rearranged (Outcome.ofStep d' (d'.addCell cell)) := by
  have hcells : d'.cells = d.cells := by rw [h.frame]
  have hlattice : d'.hasLattice cell.parent = d.hasLattice cell.parent := by rw [h.frame]; rfl
  unfold Draft.addCell
  rw [hcells, hlattice]
  split
  · exact rearranged_stopped h _
  · split
    · exact rearranged_stopped h _
    · have hlisted := h.addCellName cell.parent cell.name
      refine rearranged_done ?_
      exact hlisted.elim fun _ _ hsurfaces hentries => ⟨hsurfaces, hentries, rfl⟩

theorem registerCell (plan : CellPlan) (region : Option Region) :
    (d.registerCell plan region).Rearranged (d'.registerCell plan region) := by
  have hfilled := h.ensureFill plan.fill
  have hids : (d'.ensureFill plan.fill).cellIds = (d.ensureFill plan.fill).cellIds := by
    rw [hfilled.frame]
  have hreserved : ((d.ensureFill plan.fill).reserveCellId plan.card.name).1.Rearranged
      ((d'.ensureFill plan.fill).reserveCellId plan.card.name).1 := by
    unfold reserveCellId
    exact hfilled.elim fun _ _ hsurfaces hentries => ⟨hsurfaces, hentries, rfl⟩
  -- The cell gets the same number, as the same numbers have been given to cells.
  have hid : ((d'.ensureFill plan.fill).reserveCellId plan.card.name).2 =
      ((d.ensureFill plan.fill).reserveCellId plan.card.name).2 :=
    congrArg (Identifier.allocate plan.card.name) hids
  unfold Draft.registerCell
  dsimp only
  rw [hid]
  exact hreserved.addCell _

/-! ### Cell cards -/

omit h in
theorem markSurface {d d' : Draft K} (h : d.Rearranged d') (id : Nat) :
    (d.markSurface id).Rearranged (d'.markSurface id) := by
  unfold Draft.markSurface
  exact h.elim fun _ _ hsurfaces hentries => ⟨hsurfaces.modify _ _, hentries, rfl⟩

theorem surfacesNamed (tokens : List Card.CellToken) :
    d'.surfacesNamed tokens = d.surfacesNamed tokens := by
  unfold Draft.surfacesNamed surfacesOf
  simp only [h.entries.find?]

theorem markSurfaces (tokens : List Card.CellToken) :
    (d.markSurfaces tokens).Rearranged (d'.markSurfaces tokens) := by
  unfold Draft.markSurfaces
  rw [h.surfacesNamed]
  have hlist (ids : List Nat) (d d' : Draft K) (h : d.Rearranged d') :
      (ids.foldl Draft.markSurface d).Rearranged (ids.foldl Draft.markSurface d') := by
    induction ids generalizing d d' with
    | nil => exact h
    | cons id ids ih => exact ih _ _ (h.markSurface id)
  exact hlist _ d d' h

theorem coversEverything (tokens : List Card.CellToken) :
    d'.coversEverything tokens = d.coversEverything tokens := by
  unfold Draft.coversEverything
  simp only [h.entries.find?]

theorem regionOf (cell : String) (tokens : List Card.CellToken) :
    d'.regionOf cell tokens = d.regionOf cell tokens := by
  have htext : d'.tokenText cell = d.tokenText cell := by
    funext token
    unfold tokenText
    simp only [h.entries.find?]
  unfold Draft.regionOf regionText
  rw [htext]

theorem planCell (text : String) : d'.planCell text = d.planCell text := by
  have hfill : d'.fillOf = d.fillOf := by
    rw [h.frame]
    rfl
  have hcells : d'.cells = d.cells := by rw [h.frame]
  unfold Draft.planCell
  simp only [hfill, hcells, h.coversEverything]

theorem addPlannedCell (plan : CellPlan) :
    (d.addPlannedCell plan).Rearranged (d'.addPlannedCell plan) := by
  unfold Draft.addPlannedCell
  rw [h.coversEverything]
  by_cases hcovers : d.coversEverything plan.tokens = true
  · rw [if_pos hcovers, if_pos hcovers]
    exact h.registerCell plan none
  · rw [if_neg hcovers, if_neg hcovers]
    have hmarked : (if plan.fill == .outside then d.markSurfaces plan.tokens else d).Rearranged
        (if plan.fill == .outside then d'.markSurfaces plan.tokens else d') := by
      split
      · exact h.markSurfaces plan.tokens
      · exact h
    dsimp only
    rw [hmarked.regionOf]
    split
    · exact rearranged_stopped hmarked _
    · exact hmarked.registerCell plan _

theorem addCellCard (text : String) : (d.addCellCard text).Rearranged (d'.addCellCard text) := by
  unfold Draft.addCellCard
  rw [h.planCell]
  split
  · exact rearranged_stopped h _
  · exact h.addPlannedCell _

/-! ### Lattice cards -/

omit h in
theorem ensureUniverses (names : List String) {d d' : Draft K} (h : d.Rearranged d') :
    (names.foldl Draft.ensureUniverse d).Rearranged (names.foldl Draft.ensureUniverse d') := by
  induction names generalizing d d' with
  | nil => exact h
  | cons name names ih => exact ih (h.ensureUniverse name)

theorem addLattice (name : String) (lattice : Lattice K) :
    (d.addLattice name lattice).Rearranged (d'.addLattice name lattice) := by
  have hmentioned := (ensureUniverses lattice.names h).ensureUniverse name
  unfold Draft.addLattice
  dsimp only
  generalize (lattice.names.foldl Draft.ensureUniverse d).ensureUniverse name = mentioned
    at hmentioned ⊢
  refine hmentioned.elim fun surfaces entries hsurfaces hentries => ?_
  dsimp only
  split
  · split
    · exact rearranged_done ⟨hsurfaces, hentries, rfl⟩
    · exact rearranged_stopped ⟨hsurfaces, hentries, rfl⟩ _
  · exact rearranged_done ⟨hsurfaces, hentries, rfl⟩

variable [Scalar K]

theorem addLatticeCard (text : String) :
    (d.addLatticeCard text).Rearranged (d'.addLatticeCard text) := by
  unfold Draft.addLatticeCard
  split
  · exact rearranged_stopped h _
  · split
    · exact rearranged_stopped h _
    · exact h.addLattice _ _

/-! ### Motion cards -/

theorem moveSurface (moves : List (Move K)) (id : Nat) :
    (d.moveSurface moves id).Rearranged (d'.moveSurface moves id) := by
  unfold Draft.moveSurface
  rw [h.surfaces.find?]
  split
  · exact rearranged_done h
  · refine ⟨rfl, ?_⟩
    exact h.elim fun _ _ hsurfaces hentries => ⟨hsurfaces.modify _ _, hentries, rfl⟩

theorem moveNamedSurface (moves : List (Move K)) (name : String) :
    (d.moveNamedSurface moves name).Rearranged (d'.moveNamedSurface moves name) := by
  unfold Draft.moveNamedSurface
  rw [h.entries.find?]
  split
  · exact h.moveSurface moves _
  · exact rearranged_stopped h _
  · exact rearranged_stopped h _

omit [Scalar K] in
/-- A copy is made of the same surface, and it gets the same name and number: its name has the
    number of surfaces in it, and its number depends on which are taken. -/
theorem copySurface (cell : String) (id : Nat) :
    (d.copySurface cell id = none ∧ d'.copySurface cell id = none) ∨
      ∃ d₁ d₁' copy, d.copySurface cell id = some (d₁, copy) ∧
        d'.copySurface cell id = some (d₁', copy) ∧ d₁.Rearranged d₁' := by
  refine h.elim fun surfaces entries hsurfaces hentries => ?_
  unfold Draft.copySurface
  dsimp only
  rw [hsurfaces.find?, ← hsurfaces.size]
  cases d.surfaces.find? id with
  | none => exact .inl ⟨rfl, rfl⟩
  | some s =>
    have hcopy := Identifier.allocate_perm (s.name ++ "_" ++ d.surfaces.size.repr) hsurfaces.keys
    simp only [Option.map_some, ← hcopy]
    exact .inr ⟨_, _, _, rfl, rfl, hsurfaces.insert _ _, hentries, rfl⟩

theorem moveBounds (moves : List (Move K)) (cell : String) (ids : List Nat)
    (renumbering : Nat → Nat) :
    (Draft.moveBounds moves cell ids renumbering d).Rearranged
      (Draft.moveBounds moves cell ids renumbering d') := by
  induction ids generalizing renumbering d d' with
  | nil =>
    refine rearranged_done ?_
    unfold renumberCell
    exact h.elim fun _ _ hsurfaces hentries => ⟨hsurfaces, hentries, rfl⟩
  | cons id ids ih =>
    have howns : d'.ownsCopy cell id = d.ownsCopy cell id := by
      rw [h.frame]
      rfl
    unfold Draft.moveBounds
    rw [howns]
    split
    · exact (h.moveSurface moves id).andThen fun _ _ h => ih h renumbering
    · rcases h.copySurface cell id with ⟨hnone, hnone'⟩ | ⟨d₁, d₁', copy, hcopy, hcopy', h₁⟩
      · rw [hnone, hnone']
        exact rearranged_stopped h _
      · rw [hcopy, hcopy']
        exact (h₁.moveSurface moves copy).andThen fun _ _ h => ih h _

theorem moveCell (moves : List (Move K)) (name : String) :
    (d.moveCell moves name).Rearranged (d'.moveCell moves name) := by
  have hcells : d'.cells = d.cells := by rw [h.frame]
  unfold Draft.moveCell
  rw [hcells]
  split
  · exact rearranged_done h
  · split
    · refine rearranged_done ?_
      exact h.elim fun _ _ hsurfaces hentries => ⟨hsurfaces, hentries, rfl⟩
    · exact h.moveBounds moves name _ id
    · exact rearranged_stopped h _

theorem moveCells (moves : List (Move K)) (names : List String) :
    (d.moveCells moves names).Rearranged (d'.moveCells moves names) := by
  induction names generalizing d d' with
  | nil => exact rearranged_done h
  | cons name names ih => exact (h.moveCell moves name).andThen fun _ _ h => ih h

theorem moveUniverse (moves : List (Move K)) (name : String) :
    (d.moveUniverse moves name).Rearranged (d'.moveUniverse moves name) := by
  have huniverses : d'.universes = d.universes := by rw [h.frame]
  unfold Draft.moveUniverse
  rw [huniverses]
  split
  · exact rearranged_stopped h _
  · split
    · exact rearranged_stopped h _
    · exact h.moveCells moves _

theorem addMotionCard (text : String) :
    (d.addMotionCard text).Rearranged (d'.addMotionCard text) := by
  unfold Draft.addMotionCard
  split
  · exact rearranged_stopped h _
  · split
    · exact rearranged_stopped h _
    · unfold move
      split
      · exact h.moveNamedSurface _ _
      · exact h.moveUniverse _ _

/-! ### Decks -/

/-- No card but that of a surface tells the drafts apart. -/
theorem addCard {card : Card} (hkind : card.kind ≠ .surface) :
    (d.addCard card).Rearranged (d'.addCard card) := by
  unfold Draft.addCard
  split
  · unfold addBoundaryCard
    cases Card.readBoundaries card.text.toList with
    | none => exact rearranged_stopped h _
    | some words =>
      dsimp only
      cases Boundary.ofWords words with
      | error fault => exact rearranged_stopped h fault
      | ok boundaries =>
        refine rearranged_done ?_
        exact h.elim fun _ _ hsurfaces hentries => ⟨hsurfaces, hentries, rfl⟩
  · unfold addRootCard
    cases Card.readRoot card.text.toList with
    | none => exact rearranged_stopped h _
    | some root =>
      refine rearranged_done ?_
      exact h.elim fun _ _ hsurfaces hentries => ⟨hsurfaces, hentries, rfl⟩
  · next heq => exact absurd heq hkind
  · exact h.addCellCard card.text
  · exact h.addCellCard card.text
  · exact h.addCellCard card.text
  · exact h.addLatticeCard card.text
  · exact h.addMotionCard card.text
  · exact rearranged_done h

theorem addCards {cards : List Card} (hkinds : ∀ card ∈ cards, card.kind ≠ .surface) :
    (d'.addCards cards).2 = (d.addCards cards).2 ∧
      (d.addCards cards).1.Rearranged (d'.addCards cards).1 := by
  induction cards generalizing d d' with
  | nil => exact ⟨rfl, h⟩
  | cons card cards ih =>
    rw [List.forall_mem_cons] at hkinds
    obtain ⟨hfault, hdraft⟩ := h.addCard hkinds.1
    unfold Draft.addCards
    generalize d.addCard card = o at hfault hdraft ⊢
    generalize d'.addCard card = o' at hfault hdraft ⊢
    obtain ⟨next, fault⟩ := o
    obtain ⟨next', fault'⟩ := o'
    obtain rfl : fault' = fault := hfault
    cases fault' with
    | none => exact ih hdraft hkinds.2
    | some fault => exact ⟨rfl, hdraft⟩

end Draft.Rearranged

end SerpentCsg
