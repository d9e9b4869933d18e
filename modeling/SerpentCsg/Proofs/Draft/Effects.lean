import SerpentCsg.Proofs.Draft.Ownership

/-! # What a Card Does

  Every kind of card has its own tables to work on, and leaves the others as they are: settings
  touch no table, surface cards touch surfaces and their names, lattice cards touch universes, and
  motions touch surfaces, cells and the record of copies. A cell card touches universes, cells and
  the numbers given to cells, and marks surfaces.

  `Effect` says what a card leaves behind that is worked in to the end.
-/

namespace SerpentCsg.Draft

variable {K : Type}

/-! ### Settings and surfaces -/

theorem Sets.frame {d d' : Draft K} (h : Sets d d') :
    d' = { d with boundaries := d'.boundaries, root := d'.root } := by
  cases h <;> rfl

theorem addShape_frame (d : Draft K) (name : String) (shape : Shape K) :
    d.addShape name shape =
      { d with
        entries := (d.addShape name shape).entries
        surfaces := (d.addShape name shape).surfaces } := by
  cases shape with
  | infinite | primitive => rfl
  | composite kinds =>
    -- Face by face nothing is touched but surfaces.
    let P (s : Draft K × Nat) := s.1 = { d with entries := s.1.entries, surfaces := s.1.surfaces }
    have hnew (s : Draft K × Nat) (kind : SurfaceKind K) (hs : P s) :
        P (addFace name s kind).1 ∧ True := by
      refine ⟨?_, trivial⟩
      show (s.1.addSurface _ kind).1 = _
      rw [hs]
      rfl
    have hfaces := Composite.mapAccum_invariant (Q := fun _ _ => True) hnew
      (fun _ _ _ _ _ => trivial) (s := (d, 0)) rfl kinds
    show ((kinds.mapAccum (addFace name) (d, 0)).1.1).addEntry name _ = _
    rw [hfaces.1]
    rfl

theorem addSurfaceCard_frame [Scalar K] {d d' : Draft K} {text : String}
    (hadd : d.addSurfaceCard text = .ok d') :
    d' = { d with entries := d'.entries, surfaces := d'.surfaces } := by
  obtain ⟨name, shape, -, rfl⟩ := addSurfaceCard_eq_ok hadd
  exact addShape_frame d name shape

/-! ### Universes and lattices -/

theorem ensureUniverse_frame (d : Draft K) (name : String) :
    d.ensureUniverse name = { d with universes := (d.ensureUniverse name).universes } := by
  unfold ensureUniverse
  split <;> rfl

theorem ensureUniverses_frame (names : List String) (d : Draft K) :
    names.foldl ensureUniverse d =
      { d with universes := (names.foldl ensureUniverse d).universes } := by
  induction names generalizing d with
  | nil => rfl
  | cons name names ih =>
    rw [List.foldl_cons, ih (d.ensureUniverse name), ensureUniverse_frame]

theorem addLattice_frame (d : Draft K) (name : String) (lattice : Lattice K) :
    (d.addLattice name lattice).draft =
      { d with universes := (d.addLattice name lattice).draft.universes } := by
  have hmention : (lattice.names.foldl ensureUniverse d).ensureUniverse name =
      { d with
        universes := ((lattice.names.foldl ensureUniverse d).ensureUniverse name).universes } := by
    rw [ensureUniverse_frame, ensureUniverses_frame]
  unfold addLattice
  dsimp only
  generalize (lattice.names.foldl ensureUniverse d).ensureUniverse name = mentioned at hmention ⊢
  split
  · split
    · rw [hmention]
      rfl
    · exact hmention
  · exact hmention

/-- A lattice has been put on a universe that had nothing in it, and all universes that it lists are
    there. -/
structure LatticeAdded (d : Draft K) (name : String) (lattice : Lattice K) (d' : Draft K) :
    Prop where
  placeholder : ∃ u, ((lattice.names.foldl ensureUniverse d).ensureUniverse name).universes.find?
    name = some u ∧ u.isPlaceholder = true
  universes : d'.universes =
    ((lattice.names.foldl ensureUniverse d).ensureUniverse name).universes.modify name fun u =>
      { u with lattice := some lattice }
  frame : d' = { d with universes := d'.universes }

theorem addLattice_added {d : Draft K} {name : String} {lattice : Lattice K}
    (h : (d.addLattice name lattice).fault = none) :
    LatticeAdded d name lattice (d.addLattice name lattice).draft := by
  have hframe := addLattice_frame d name lattice
  have hthere := ensureUniverse_contains_self (lattice.names.foldl ensureUniverse d) name
  obtain ⟨u, hu⟩ := Table.contains_iff.1 hthere
  unfold addLattice at h hframe ⊢
  simp only [hu] at h hframe ⊢
  by_cases hplaceholder : u.isPlaceholder = true
  · rw [if_pos hplaceholder] at hframe ⊢
    exact ⟨⟨u, hu, hplaceholder⟩, rfl, hframe⟩
  · rw [if_neg hplaceholder] at h
    simp [Outcome.stopped] at h

theorem addLatticeCard_frame [Scalar K] (d : Draft K) (text : String) :
    (d.addLatticeCard text).draft =
      { d with universes := (d.addLatticeCard text).draft.universes } := by
  unfold addLatticeCard
  split
  · rfl
  · split
    · rfl
    · exact addLattice_frame d _ _

theorem addLatticeCard_added [Scalar K] {d : Draft K} {text : String}
    (h : (d.addLatticeCard text).fault = none) :
    ∃ card lattice, Card.readLattice text.toList = some card ∧ Lattice.ofCard card = .ok lattice ∧
      LatticeAdded d card.name lattice (d.addLatticeCard text).draft := by
  unfold addLatticeCard at h ⊢
  cases hcard : Card.readLattice text.toList with
  | none => simp [hcard, Outcome.stopped] at h
  | some card =>
    cases hlattice : Lattice.ofCard (K := K) card with
    | error fault => simp [hcard, hlattice, Outcome.stopped] at h
    | ok lattice =>
      simp only [hcard, hlattice] at h ⊢
      exact ⟨card, lattice, rfl, hlattice, addLattice_added h⟩

/-! ### Motions -/

theorem Moves.frame [Scalar K] {d d' : Draft K} (h : Moves d d') :
    d' = { d with surfaces := d'.surfaces, cells := d'.cells, owners := d'.owners } := by
  cases h with
  | copy _ _ _ hcopy =>
    obtain ⟨s, -, -, rfl⟩ := copySurface_eq_some hcopy
    rfl
  | _ => rfl

theorem Moving.frame [Scalar K] {d d' : Draft K} (h : Moving d d') :
    d' = { d with surfaces := d'.surfaces, cells := d'.cells, owners := d'.owners } := by
  induction h with
  | refl => rfl
  | tail _ hlast ih =>
    rw [hlast.frame, ih]

/-- What no motion of a cell changes stays as it is for all cells. -/
theorem map_cells_moving [Scalar K] {β : Type} {g : Cell K → β}
    (hregion : ∀ c region, g { c with region } = g c)
    (hfilling : ∀ c moves, g (c.fillMovedAll moves) = g c) {d d' : Draft K} (h : Moving d d') :
    d'.cells.values.map g = d.cells.values.map g := by
  induction h with
  | refl => rfl
  | tail _ hlast ih =>
    rw [← ih]
    cases hlast with
    | surface => rfl
    | copy _ _ _ hcopy =>
      obtain ⟨s, -, -, rfl⟩ := copySurface_eq_some hcopy
      rfl
    | renumber => exact Table.map_values_modify fun c _ => hregion c _
    | filling moves => exact Table.map_values_modify fun c _ => hfilling c moves

/-! ### Cells -/

theorem ensureFill_frame (d : Draft K) (fill : Fill) :
    d.ensureFill fill = { d with universes := (d.ensureFill fill).universes } := by
  match fill with
  | .universe name => exact ensureUniverse_frame d name
  | .material _ | .void | .outside => rfl

theorem markSurfaces_frame (d : Draft K) (tokens : List Card.CellToken) :
    d.markSurfaces tokens = { d with surfaces := (d.markSurfaces tokens).surfaces } := by
  have hlist (ids : List Nat) (d : Draft K) :
      ids.foldl markSurface d = { d with surfaces := (ids.foldl markSurface d).surfaces } := by
    induction ids generalizing d with
    | nil => rfl
    | cons id ids ih =>
      rw [List.foldl_cons, ih (d.markSurface id)]
      rfl
  exact hlist _ d

/-- The cell of a plan has been added, and nothing else has changed but marks on surfaces. -/
structure CellAdded (d : Draft K) (plan : CellPlan) (cell : Cell K) (d' : Draft K) : Prop where
  name : cell.name = plan.card.name
  parent : cell.parent = plan.card.parent
  fill : cell.fill = plan.fill
  /-- The number was free. -/
  id : cell.id = Identifier.allocate cell.name d.cellIds
  new : d.cells.contains cell.name = false
  cells : d'.cells = d.cells.insert cell.name cell
  cellIds : d'.cellIds = cell.id :: d.cellIds
  universes : d'.universes =
    ((d.ensureFill cell.fill).addCellName cell.parent cell.name).universes
  frame : d' = { d with
    surfaces := d'.surfaces
    cells := d'.cells
    universes := d'.universes
    cellIds := d'.cellIds }

theorem addCellName_frame (d : Draft K) (parent cell : String) :
    d.addCellName parent cell = { d with universes := (d.addCellName parent cell).universes } := by
  unfold addCellName
  dsimp only
  rw [ensureUniverse_frame]

/-- Adding a cell does not depend on the numbers that have been given to cells. -/
theorem addCell_numbered {d d' : Draft K} {ids : List Nat} {cell : Cell K}
    (h : ({ d with cellIds := ids } : Draft K).addCell cell = .ok d') :
    d.cells.contains cell.name = false ∧
      d' = { d.addCellName cell.parent cell.name with
        cells := d.cells.insert cell.name cell, cellIds := ids } := by
  obtain ⟨hnew, -, rfl⟩ := addCell_eq_ok h
  refine ⟨hnew, ?_⟩
  unfold addCellName ensureUniverse
  dsimp only
  split <;> rfl

theorem registerCell_added {d : Draft K} {plan : CellPlan} {region : Option Region}
    (h : (d.registerCell plan region).fault = none) :
    ∃ cell, CellAdded d plan cell (d.registerCell plan region).draft := by
  let filled := d.ensureFill plan.fill
  let cell : Cell K :=
    { id := Identifier.allocate plan.card.name filled.cellIds, name := plan.card.name,
      parent := plan.card.parent, fill := plan.fill, region }
  have hfilled : filled = { d with universes := filled.universes } := ensureFill_frame d plan.fill
  have hstep : d.registerCell plan region =
      .ofStep { filled with cellIds := cell.id :: filled.cellIds }
        (({ filled with cellIds := cell.id :: filled.cellIds } : Draft K).addCell cell) := rfl
  rw [hstep] at h ⊢
  cases hadd : ({ filled with cellIds := cell.id :: filled.cellIds } : Draft K).addCell cell with
  | error fault => simp [hadd, Outcome.ofStep, Outcome.stopped] at h
  | ok d' =>
    obtain ⟨hnew, hd'⟩ := addCell_numbered hadd
    have hcells : filled.cells = d.cells := by rw [hfilled]
    have hids : filled.cellIds = d.cellIds := by rw [hfilled]
    show ∃ cell, CellAdded d plan cell d'
    refine ⟨cell, ?_⟩
    constructor
    case name | parent | fill => rfl
    case id => exact congrArg (Identifier.allocate plan.card.name) hids
    case new => rwa [hcells] at hnew
    case cells => rw [hd', hcells]
    case cellIds => rw [hd', hids]
    case universes => rw [hd']
    case frame => rw [hd', addCellName_frame, hfilled]

/-- Other surfaces make no difference to what is added. -/
theorem CellAdded.resurfaced {d d' : Draft K} {surfaces : Table Nat (Surface K)} {plan : CellPlan}
    {cell : Cell K} (h : CellAdded { d with surfaces } plan cell d') :
    CellAdded d plan cell d' := by
  have hmention (d : Draft K) (name : String) :
      ({ d with surfaces } : Draft K).ensureUniverse name =
        { d.ensureUniverse name with surfaces } := by
    unfold ensureUniverse
    dsimp only
    split <;> rfl
  have hfill : ({ d with surfaces } : Draft K).ensureFill cell.fill =
      { d.ensureFill cell.fill with surfaces } := by
    unfold ensureFill
    split
    · exact hmention d _
    · rfl
  have huniverses := h.universes
  unfold addCellName at huniverses
  rw [hfill, hmention] at huniverses
  exact { h with universes := huniverses, frame := h.frame }

/-- A cell card that is worked in to the end adds the cell that it plans. -/
theorem addCellCard_added {d : Draft K} {text : String} (h : (d.addCellCard text).fault = none) :
    ∃ plan cell, d.planCell text = .ok plan ∧ CellAdded d plan cell (d.addCellCard text).draft := by
  unfold addCellCard at h ⊢
  cases hplan : d.planCell text with
  | error fault => simp [hplan, Outcome.stopped] at h
  | ok plan =>
    simp only [hplan] at h ⊢
    rcases addPlannedCell_done h with ⟨-, hsame⟩ | ⟨marked, r, hmarked, -, hsame⟩ <;>
      rw [hsame] at h ⊢ <;> obtain ⟨cell, hadded⟩ := registerCell_added h
    · exact ⟨plan, cell, rfl, hadded⟩
    · have hframe : marked = { d with surfaces := marked.surfaces } := by
        rw [hmarked]
        split
        · exact markSurfaces_frame d plan.tokens
        · rfl
      rw [hframe] at hadded
      have hcell := hadded.resurfaced
      rw [← hframe] at hcell
      exact ⟨plan, cell, rfl, hcell⟩

/-! ### Cards -/

theorem addCard_of_isCell [Scalar K] (d : Draft K) {card : Card} (h : card.kind.isCell = true) :
    d.addCard card = d.addCellCard card.text := by
  unfold addCard
  cases hkind : card.kind <;> simp [hkind, Card.Kind.isCell] at h ⊢

/-- What is left behind by a card that is worked in to the end. -/
inductive Effect [Scalar K] (d : Draft K) (card : Card) : Draft K → Prop where
  | setting {d' : Draft K} : IsSetting card → Sets d d' → Effect d card d'
  | surface {d' : Draft K} :
      card.kind = .surface → d.addSurfaceCard card.text = .ok d' → Effect d card d'
  | cell {d' : Draft K} {plan : CellPlan} {cell : Cell K} :
      card.kind.isCell = true → d.planCell card.text = .ok plan → CellAdded d plan cell d' →
      Effect d card d'
  | lattice {d' : Draft K} {latticeCard : Card.LatticeCard} {lattice : Lattice K} :
      card.kind = .lattice → Card.readLattice card.text.toList = some latticeCard →
      Lattice.ofCard latticeCard = .ok lattice → LatticeAdded d latticeCard.name lattice d' →
      Effect d card d'
  | motion {d' : Draft K} : card.kind = .motion → Moving d d' → Effect d card d'
  | other : card.kind = .other → Effect d card d

/-- A cell card adds the cell that it plans. -/
theorem Effect.of_isCell [Scalar K] {d d' : Draft K} {card : Card} (h : Effect d card d')
    (hcell : card.kind.isCell = true) :
    ∃ plan cell, d.planCell card.text = .ok plan ∧ CellAdded d plan cell d' := by
  cases h with
  | cell _ hplan hadded => exact ⟨_, _, hplan, hadded⟩
  | setting hsetting _ =>
    rcases hsetting with hkind | hkind <;> simp [hkind, Card.Kind.isCell] at hcell
  | surface hkind _ => simp [hkind, Card.Kind.isCell] at hcell
  | lattice hkind _ _ _ => simp [hkind, Card.Kind.isCell] at hcell
  | motion hkind _ => simp [hkind, Card.Kind.isCell] at hcell
  | other hkind => simp [hkind, Card.Kind.isCell] at hcell

theorem ofStep_done {d : Draft K} {step : Except Fault (Draft K)}
    (h : (Outcome.ofStep d step).fault = none) : step = .ok (Outcome.ofStep d step).draft := by
  cases step with
  | ok d' => rfl
  | error fault => simp [Outcome.ofStep, Outcome.stopped] at h

theorem addCard_effect [Scalar K] {d : Draft K} (hsound : d.Sound) {card : Card}
    (hdone : (d.addCard card).fault = none) : Effect d card (d.addCard card).draft := by
  unfold addCard at hdone ⊢
  cases hkind : card.kind with
  | boundaries =>
    rw [hkind] at hdone
    exact .setting (.inl hkind) (addBoundaryCard_sets (ofStep_done hdone))
  | root =>
    rw [hkind] at hdone
    exact .setting (.inr hkind) (addRootCard_sets (ofStep_done hdone))
  | surface =>
    rw [hkind] at hdone
    exact .surface hkind (ofStep_done hdone)
  | cellMaterial | cellFill | cellOutside =>
    rw [hkind] at hdone
    obtain ⟨plan, cell, hplan, hadded⟩ := addCellCard_added hdone
    exact .cell (by rw [hkind]; rfl) hplan hadded
  | lattice =>
    rw [hkind] at hdone
    obtain ⟨latticeCard, lattice, hcard, hlattice, hadded⟩ := addLatticeCard_added hdone
    exact .lattice hkind hcard hlattice hadded
  | motion => exact .motion hkind (addMotionCard_moving hsound card.text)
  | other => exact .other hkind

end SerpentCsg.Draft
