import SerpentCsg.Proofs.Draft.Effects

/-! # What Cards Declare

  A cell card adds its cell to the table, and the name of the cell to the list of its universe. A
  lattice card puts its lattice on its universe. Both mention universes, which are made empty if
  they are not there. No other card adds anything of the kind, and nothing is ever taken away.

  So what a draft holds after some cards is what it held before and what is on the cards, in their
  order. `Adds` says so of a run of cards, and runs one after another add what they add together.
-/

namespace SerpentCsg

variable {K : Type}

/-! ### What is on the cards -/

namespace Card

/-- What is in a cell by the word on its card. One name of a material stands for nothing. -/
def FillWord.filling : FillWord → Fill
  | .material name => if name = Draft.voidName then .void else .material name
  | .universe name => .universe name
  | .outside => .outside

theorem FillWord.filling_eq_universe_iff {word : FillWord} {name : String} :
    word.filling = .universe name ↔ word = .universe name := by
  cases word with
  | material other =>
    show (if other = Draft.voidName then Fill.void else Fill.material other) = _ ↔ _
    split <;> simp
  | _ => simp [filling]

theorem FillWord.filling_eq_outside_iff {word : FillWord} :
    word.filling = .outside ↔ word = .outside := by
  cases word with
  | material other =>
    show (if other = Draft.voidName then Fill.void else Fill.material other) = _ ↔ _
    split <;> simp
  | _ => simp [filling]

/-- Name, universe and filling of the cell on a card. -/
def CellCard.declared (card : CellCard) : String × String × Fill :=
  (card.name, card.parent, card.fill.filling)

/-- What is on a cell card. -/
def cell? (card : Card) : Option CellCard :=
  if card.kind.isCell then readCell card.text.toList else none

/-- What is on a lattice card. -/
def lattice? (card : Card) : Option LatticeCard :=
  if card.kind = .lattice then readLattice card.text.toList else none

theorem cell?_eq_some_iff {card : Card} {cell : CellCard} :
    card.cell? = some cell ↔ card.kind.isCell = true ∧ readCell card.text.toList = some cell := by
  unfold cell?
  split <;> simp [*]

theorem lattice?_eq_some_iff {card : Card} {header : LatticeCard} :
    card.lattice? = some header ↔
      card.kind = .lattice ∧ readLattice card.text.toList = some header := by
  unfold lattice?
  split <;> simp [*]

/-- The cells on some cards, in order. -/
def cellCards (cards : List Card) : List CellCard := cards.filterMap cell?

/-- The lattices on some cards, in order. -/
def latticeCards (cards : List Card) : List LatticeCard := cards.filterMap lattice?

/-- Names of the cells that are declared in a universe, in order. -/
def namesIn (parent : String) (cards : List Card) : List String :=
  ((cellCards cards).filter fun card => card.parent == parent).map (·.name)

/-- A universe is named on a card: as the universe of a cell or its filling, as the universe of a
    lattice or in its array. -/
def Mentioned (K : Type) [Scalar K] (cards : List Card) (name : String) : Prop :=
  (∃ cell ∈ cellCards cards, cell.parent = name ∨ cell.fill = .universe name) ∨
  ∃ header ∈ latticeCards cards, header.name = name ∨
    ∃ l : Lattice K, Lattice.ofCard header = .ok l ∧ name ∈ l.names

theorem cellCards_append (cards others : List Card) :
    cellCards (cards ++ others) = cellCards cards ++ cellCards others := List.filterMap_append

theorem latticeCards_append (cards others : List Card) :
    latticeCards (cards ++ others) = latticeCards cards ++ latticeCards others :=
  List.filterMap_append

theorem namesIn_append (parent : String) (cards others : List Card) :
    namesIn parent (cards ++ others) = namesIn parent cards ++ namesIn parent others := by
  simp [namesIn, cellCards_append]

theorem mentioned_append [Scalar K] (cards others : List Card) (name : String) :
    Mentioned K (cards ++ others) name ↔ Mentioned K cards name ∨ Mentioned K others name := by
  simp only [Mentioned, cellCards_append, latticeCards_append, List.mem_append, or_and_right,
    exists_or]
  exact or_or_or_comm

end Card

open Card (CellCard LatticeCard cellCards latticeCards namesIn Mentioned)

/-! ### What is in a geometry -/

namespace Geometry

/-- Names, universes and fillings of the cells, in order. -/
def declared (g : Geometry K) : List (String × String × Fill) :=
  g.cells.values.map fun c => (c.name, c.parent, c.fill)

/-- The cells that a universe lists. -/
def members (g : Geometry K) (name : String) : List String :=
  ((g.universes.find? name).map (·.cells)).getD []

/-- The lattice that a universe holds. -/
def lattice? (g : Geometry K) (name : String) : Option (Lattice K) :=
  (g.universes.find? name).bind (·.lattice)

end Geometry

namespace Draft

/-- Cells are declared in the same phase as lattices. -/
theorem phase_of_isCell {kind : Card.Kind} (h : kind.isCell = true) : phase? kind = some 2 := by
  revert h
  cases kind <;> simp [Card.Kind.isCell, phase?]

theorem members_geometry (d : Draft K) (name : String) :
    d.geometry.members name = ((d.universes.find? name).map (·.cells)).getD [] := rfl

theorem lattice?_geometry (d : Draft K) (name : String) :
    d.geometry.lattice? name = (d.universes.find? name).bind (·.lattice) := rfl

/-! ### Universes that are mentioned -/

/-- Universes hold the same in two drafts, where one that is not there counts as empty. -/
structure SameContents (d d' : Draft K) : Prop where
  members : ∀ name, d'.geometry.members name = d.geometry.members name
  lattices : ∀ name, d'.geometry.lattice? name = d.geometry.lattice? name

theorem SameContents.trans {d₁ d₂ d₃ : Draft K} (h : SameContents d₁ d₂)
    (h' : SameContents d₂ d₃) : SameContents d₁ d₃ :=
  ⟨fun name => (h'.members name).trans (h.members name),
    fun name => (h'.lattices name).trans (h.lattices name)⟩

theorem sameContents_of_universes {d d' : Draft K} (h : d'.universes = d.universes) :
    SameContents d d' := by
  constructor <;> intro name
  · rw [members_geometry, members_geometry, h]
  · rw [lattice?_geometry, lattice?_geometry, h]

/-- A universe is empty when it is made where it is mentioned. -/
theorem sameContents_ensureUniverse (d : Draft K) (name : String) :
    SameContents d (d.ensureUniverse name) := by
  unfold ensureUniverse
  split
  · exact sameContents_of_universes rfl
  · next hnew =>
    -- It was not there, so it held nothing before either.
    have hnone : d.universes.find? name = none :=
      Table.find?_eq_none_of_contains (by simpa using hnew)
    constructor <;> intro other
    · rw [members_geometry, members_geometry, Table.find?_insert]
      split
      · next heq =>
        rw [← heq, hnone]
        rfl
      · rfl
    · rw [lattice?_geometry, lattice?_geometry, Table.find?_insert]
      split
      · next heq =>
        rw [← heq, hnone]
        rfl
      · rfl

theorem sameContents_ensureUniverses (names : List String) (d : Draft K) :
    SameContents d (names.foldl ensureUniverse d) := by
  induction names generalizing d with
  | nil => exact sameContents_of_universes rfl
  | cons name names ih => exact (sameContents_ensureUniverse d name).trans (ih _)

theorem sameContents_ensureFill (d : Draft K) (fill : Fill) :
    SameContents d (d.ensureFill fill) := by
  unfold ensureFill
  split
  · exact sameContents_ensureUniverse d _
  · exact sameContents_of_universes rfl

theorem contains_ensureUniverse (d : Draft K) (name other : String) :
    (d.ensureUniverse name).universes.contains other = true ↔
      d.universes.contains other = true ∨ name = other := by
  unfold ensureUniverse
  split
  · next hold => exact (or_iff_left_of_imp fun heq => heq ▸ hold).symm
  · dsimp only
    rw [Table.contains_insert, Bool.or_eq_true, decide_eq_true_iff, or_comm]

theorem contains_ensureUniverses (names : List String) (d : Draft K) (other : String) :
    (names.foldl ensureUniverse d).universes.contains other = true ↔
      d.universes.contains other = true ∨ other ∈ names := by
  induction names generalizing d with
  | nil => simp
  | cons name names ih =>
    rw [List.foldl_cons, ih, contains_ensureUniverse, List.mem_cons, or_assoc,
      eq_comm (a := name)]

theorem contains_ensureFill (d : Draft K) (fill : Fill) (other : String) :
    (d.ensureFill fill).universes.contains other = true ↔
      d.universes.contains other = true ∨ fill = .universe other := by
  match fill with
  | .universe name =>
    rw [Fill.universe.injEq]
    exact contains_ensureUniverse d name other
  | .material _ | .void | .outside => simp [ensureFill]

/-! ### One more cell -/

section Cell

variable {d d' : Draft K} {plan : CellPlan} {cell : Cell K}

/-- What a cell mentions is there, and holds what it held. -/
theorem sameContents_cell (d : Draft K) (cell : Cell K) :
    SameContents d ((d.ensureFill cell.fill).ensureUniverse cell.parent) :=
  (sameContents_ensureFill d cell.fill).trans (sameContents_ensureUniverse _ cell.parent)

/-- The universe of a cell lists it last. -/
theorem CellAdded.find?_universes (h : CellAdded d plan cell d') (other : String) :
    d'.universes.find? other =
      if cell.parent = other then
        (((d.ensureFill cell.fill).ensureUniverse cell.parent).universes.find? other).map fun u =>
          { u with cells := u.cells ++ [cell.name] }
      else ((d.ensureFill cell.fill).ensureUniverse cell.parent).universes.find? other := by
  rw [h.universes]
  exact Table.find?_modify _ _ _ _

theorem CellAdded.members (h : CellAdded d plan cell d') (name : String) :
    d'.geometry.members name =
      d.geometry.members name ++ if cell.parent = name then [cell.name] else [] := by
  rw [← (sameContents_cell d cell).members name, members_geometry, members_geometry,
    h.find?_universes]
  by_cases hparent : cell.parent = name
  · -- The universe is there by now, whether it was there before or not.
    rw [if_pos hparent, if_pos hparent]
    obtain ⟨u, hu⟩ := Table.contains_iff.1
      (ensureUniverse_contains_self (d.ensureFill cell.fill) cell.parent)
    rw [← hparent, hu]
    rfl
  · rw [if_neg hparent, if_neg hparent, List.append_nil]

theorem CellAdded.lattice? (h : CellAdded d plan cell d') (name : String) :
    d'.geometry.lattice? name = d.geometry.lattice? name := by
  rw [← (sameContents_cell d cell).lattices name, lattice?_geometry, lattice?_geometry,
    h.find?_universes]
  split
  · generalize ((d.ensureFill cell.fill).ensureUniverse cell.parent).universes.find? name = u
    cases u <;> rfl
  · rfl

theorem CellAdded.contains (h : CellAdded d plan cell d') (name : String) :
    d'.universes.contains name = true ↔
      d.universes.contains name = true ∨ cell.parent = name ∨ cell.fill = .universe name := by
  have hmodified : d'.universes.contains name =
      ((d.ensureFill cell.fill).ensureUniverse cell.parent).universes.contains name := by
    rw [h.universes]
    exact Table.contains_modify _ _ _ _
  rw [hmodified, contains_ensureUniverse, contains_ensureFill, or_assoc, or_comm (b := _ = name)]

theorem CellAdded.declared (h : CellAdded d plan cell d') :
    d'.geometry.declared = d.geometry.declared ++ [(cell.name, cell.parent, cell.fill)] := by
  unfold Geometry.declared
  dsimp only [geometry]
  rw [h.cells, Table.values_insert cell h.new, List.map_append]
  rfl

end Cell

/-! ### One more lattice -/

section Lattice

variable {d d' : Draft K} {name : String} {l : Lattice K}

theorem sameContents_lattice (d : Draft K) (name : String) (l : Lattice K) :
    SameContents d ((l.names.foldl ensureUniverse d).ensureUniverse name) :=
  (sameContents_ensureUniverses l.names d).trans (sameContents_ensureUniverse _ name)

theorem LatticeAdded.find?_universes (h : LatticeAdded d name l d') (other : String) :
    d'.universes.find? other =
      if name = other then
        (((l.names.foldl ensureUniverse d).ensureUniverse name).universes.find? other).map fun u =>
          { u with lattice := some l }
      else ((l.names.foldl ensureUniverse d).ensureUniverse name).universes.find? other := by
  rw [h.universes]
  exact Table.find?_modify _ _ _ _

theorem LatticeAdded.members (h : LatticeAdded d name l d') (other : String) :
    d'.geometry.members other = d.geometry.members other := by
  rw [← (sameContents_lattice d _ l).members other, members_geometry, members_geometry,
    h.find?_universes]
  split
  · generalize ((l.names.foldl ensureUniverse d).ensureUniverse name).universes.find? other = u
    cases u <;> rfl
  · rfl

theorem LatticeAdded.lattice? (h : LatticeAdded d name l d') (other : String) :
    d'.geometry.lattice? other = if name = other then some l else d.geometry.lattice? other := by
  rw [← (sameContents_lattice d _ l).lattices other, lattice?_geometry, lattice?_geometry,
    h.find?_universes]
  by_cases hname : name = other
  · obtain ⟨u, hu, -⟩ := h.placeholder
    rw [if_pos hname, if_pos hname, ← hname, hu]
    rfl
  · rw [if_neg hname, if_neg hname]

/-- A lattice is put on a universe that has none. -/
theorem LatticeAdded.new (h : LatticeAdded d name l d') : d.geometry.lattice? name = none := by
  obtain ⟨u, hu, hplaceholder⟩ := h.placeholder
  simp only [Universe.isPlaceholder, Bool.and_eq_true, Option.isNone_iff_eq_none] at hplaceholder
  rw [← (sameContents_lattice d name l).lattices name, lattice?_geometry, hu]
  exact hplaceholder.2

theorem LatticeAdded.contains (h : LatticeAdded d name l d') (other : String) :
    d'.universes.contains other = true ↔
      d.universes.contains other = true ∨ name = other ∨ other ∈ l.names := by
  have hmodified : d'.universes.contains other =
      ((l.names.foldl ensureUniverse d).ensureUniverse name).universes.contains other := by
    rw [h.universes]
    exact Table.contains_modify _ _ _ _
  rw [hmodified, contains_ensureUniverse, contains_ensureUniverses, or_assoc,
    or_comm (b := name = other)]

end Lattice

/-! ### Runs of cards -/

variable [Scalar K]

/-- A draft has what another one has and what some cards declare, and nothing else of the kind. -/
structure Adds (d : Draft K) (cards : List Card) (d' : Draft K) : Prop where
  cellsRead : ∀ card ∈ cards, card.kind.isCell = true → ∃ cell, card.cell? = some cell
  latticesRead : ∀ card ∈ cards, card.kind = .lattice →
    ∃ header, card.lattice? = some header ∧ ∃ l : Lattice K, Lattice.ofCard header = .ok l
  cells : d'.geometry.declared = d.geometry.declared ++ (cellCards cards).map CellCard.declared
  members : ∀ name,
    d'.geometry.members name = d.geometry.members name ++ namesIn name cards
  lattices : ∀ name l, d'.geometry.lattice? name = some l ↔
    d.geometry.lattice? name = some l ∨
      ∃ header ∈ latticeCards cards, header.name = name ∧ Lattice.ofCard header = .ok l
  /-- A lattice is never put in the place of another one. -/
  latticesNew : ∀ header ∈ latticeCards cards, d.geometry.lattice? header.name = none
  latticesDistinct : ((latticeCards cards).map (·.name)).Nodup
  universes : ∀ name, d'.universes.contains name = true ↔
    d.universes.contains name = true ∨ Mentioned K cards name

theorem adds_nil (d : Draft K) : Adds d [] d where
  cellsRead := by simp
  latticesRead := by simp
  cells := (List.append_nil _).symm
  members _ := (List.append_nil _).symm
  lattices := by simp [latticeCards]
  latticesNew := by simp [latticeCards]
  latticesDistinct := List.nodup_nil
  universes := by simp [Mentioned, cellCards, latticeCards]

/-- A lattice card of a run can be read, and its lattice is there in the end. -/
theorem Adds.exists_lattice {d d' : Draft K} {cards : List Card} (h : Adds d cards d')
    {header : LatticeCard} (hheader : header ∈ latticeCards cards) :
    ∃ l : Lattice K, Lattice.ofCard header = .ok l ∧ d'.geometry.lattice? header.name = some l := by
  obtain ⟨card, hcard, hread⟩ := List.mem_filterMap.1 hheader
  have hkind : card.kind = .lattice := (Card.lattice?_eq_some_iff.1 hread).1
  obtain ⟨other, hother, l, hl⟩ := h.latticesRead card hcard hkind
  obtain rfl : other = header := Option.some.inj (hother.symm.trans hread)
  exact ⟨l, hl, (h.lattices _ _).2 (.inr ⟨other, hheader, rfl, hl⟩)⟩

/-- Runs one after another add what they add together. -/
theorem Adds.trans {d₁ d₂ d₃ : Draft K} {cards others : List Card} (h : Adds d₁ cards d₂)
    (h' : Adds d₂ others d₃) : Adds d₁ (cards ++ others) d₃ := by
  have hkept {name : String} (hnone : d₂.geometry.lattice? name = none) :
      d₁.geometry.lattice? name = none := by
    rw [Option.eq_none_iff_forall_ne_some] at hnone ⊢
    exact fun l hl => hnone l ((h.lattices name l).2 (.inl hl))
  constructor
  case cellsRead =>
    exact List.forall_mem_append.2 ⟨h.cellsRead, h'.cellsRead⟩
  case latticesRead =>
    exact List.forall_mem_append.2 ⟨h.latticesRead, h'.latticesRead⟩
  case cells =>
    rw [h'.cells, h.cells, Card.cellCards_append, List.map_append, List.append_assoc]
  case members =>
    intro name
    rw [h'.members, h.members, Card.namesIn_append, List.append_assoc]
  case lattices =>
    intro name l
    rw [h'.lattices, h.lattices, Card.latticeCards_append, or_assoc]
    simp only [List.mem_append, or_and_right, exists_or]
  case latticesNew =>
    rw [Card.latticeCards_append]
    refine List.forall_mem_append.2 ⟨h.latticesNew, fun header hheader => ?_⟩
    exact hkept (h'.latticesNew header hheader)
  case latticesDistinct =>
    rw [Card.latticeCards_append, List.map_append, List.nodup_append]
    refine ⟨h.latticesDistinct, h'.latticesDistinct, ?_⟩
    -- After the first run its names are taken.
    intro name hname other hother heq
    obtain ⟨header, hheader, rfl⟩ := List.mem_map.1 hname
    obtain ⟨later, hlater, rfl⟩ := List.mem_map.1 hother
    obtain ⟨l, -, hl⟩ := h.exists_lattice hheader
    rw [heq, h'.latticesNew later hlater] at hl
    simp at hl
  case universes =>
    intro name
    rw [h'.universes, h.universes, Card.mentioned_append, or_assoc]

/-! ### Cards one after another -/

/-- A card that is neither of a cell nor of a lattice adds nothing. -/
theorem adds_of_same {d d' : Draft K} {card : Card} (hcell : card.kind.isCell = false)
    (hlattice : card.kind ≠ .lattice) (hcells : d'.geometry.declared = d.geometry.declared)
    (huniverses : d'.universes = d.universes) : Adds d [card] d' := by
  have hcellNone : card.cell? = none := by simp [Card.cell?, hcell]
  have hlatticeNone : card.lattice? = none := by simp [Card.lattice?, hlattice]
  have hsame := sameContents_of_universes huniverses
  constructor <;>
    simp [cellCards, latticeCards, namesIn, Mentioned, hcellNone, hlatticeNone, hcell, hlattice,
      hcells, huniverses, hsame.members, hsame.lattices]

omit [Scalar K] in
/-- What is settled about a filling is what its card says. -/
theorem fillOf_eq_filling {d : Draft K} {card : CellCard} {fill : Fill}
    (h : d.fillOf card = .ok fill) : fill = card.fill.filling := by
  unfold fillOf at h
  cases hword : card.fill with
  | outside =>
    simp only [hword, Except.ok.injEq] at h
    exact h.symm
  | material name =>
    simp only [hword] at h
    show fill = if name = voidName then .void else .material name
    -- The name that stands for nothing is not looked up among the materials.
    split at h
    · next hvoid =>
      rw [if_pos hvoid]
      exact (Except.ok.inj h).symm
    · next hvoid =>
      rw [if_neg hvoid]
      split at h
      · exact (Except.ok.inj h).symm
      · simp at h
  | _ =>
    simp only [hword] at h
    split at h
    · simp at h
    · exact (Except.ok.inj h).symm

theorem CellAdded.adds {d d' : Draft K} {card : Card} {plan : CellPlan} {cell : Cell K}
    (h : CellAdded d plan cell d') (hkind : card.kind.isCell = true)
    (hplan : d.planCell card.text = .ok plan) : Adds d [card] d' := by
  obtain ⟨hread, hsettled⟩ := planCell_eq_ok hplan
  have hfill : cell.fill = plan.card.fill.filling := h.fill.trans (fillOf_eq_filling hsettled)
  have hcell : card.cell? = some plan.card := Card.cell?_eq_some_iff.2 ⟨hkind, hread⟩
  have hlattice : card.kind ≠ .lattice := by
    intro heq
    rw [heq] at hkind
    exact Bool.false_ne_true hkind
  have hcells : cellCards [card] = [plan.card] := by simp [cellCards, hcell]
  have hlattices : latticeCards [card] = [] := by simp [latticeCards, Card.lattice?, hlattice]
  constructor
  case cellsRead =>
    intro other hother _
    rw [List.mem_singleton.1 hother]
    exact ⟨plan.card, hcell⟩
  case latticesRead =>
    intro other hother hkind
    rw [List.mem_singleton.1 hother] at hkind
    exact absurd hkind hlattice
  case cells =>
    rw [h.declared, hcells, h.name, h.parent, hfill]
    rfl
  case members =>
    intro name
    rw [h.members, namesIn, hcells, h.parent, h.name]
    by_cases hparent : plan.card.parent = name <;> simp [hparent]
  case lattices => simp [h.lattice?, hlattices]
  case latticesNew => simp [hlattices]
  case latticesDistinct => simp [hlattices]
  case universes =>
    intro name
    rw [h.contains, h.parent, hfill, Card.FillWord.filling_eq_universe_iff]
    simp [Mentioned, hcells, hlattices]

theorem LatticeAdded.adds {d d' : Draft K} {card : Card} {header : LatticeCard} {l : Lattice K}
    (h : LatticeAdded d header.name l d') (hkind : card.kind = .lattice)
    (hread : Card.readLattice card.text.toList = some header)
    (hlattice : Lattice.ofCard header = .ok l) : Adds d [card] d' := by
  have hheader : card.lattice? = some header := Card.lattice?_eq_some_iff.2 ⟨hkind, hread⟩
  have hcell : card.kind.isCell = false := by
    rw [hkind]
    rfl
  have hcells : cellCards [card] = [] := by simp [cellCards, Card.cell?, hcell]
  have hlattices : latticeCards [card] = [header] := by simp [latticeCards, hheader]
  constructor
  case cellsRead =>
    intro other hother hkind
    rw [List.mem_singleton.1 hother, hcell] at hkind
    exact absurd hkind Bool.false_ne_true
  case latticesRead =>
    intro other hother _
    rw [List.mem_singleton.1 hother]
    exact ⟨header, hheader, l, hlattice⟩
  case cells =>
    rw [hcells, List.map_nil, List.append_nil, h.frame]
    rfl
  case members =>
    intro name
    rw [h.members, namesIn, hcells]
    exact (List.append_nil _).symm
  case lattices =>
    intro name other
    rw [h.lattice?, hlattices]
    by_cases hname : header.name = name
    · -- There was no lattice of this name.
      have hnew := h.new
      rw [hname] at hnew
      simp [hname, hnew, hlattice]
    · simp [hname]
  case latticesNew => simp [hlattices, h.new]
  case latticesDistinct => simp [hlattices]
  case universes =>
    intro name
    rw [h.contains]
    simp [Mentioned, hcells, hlattices, hlattice]

/-- A card that is worked in to the end adds what is on it. -/
theorem Effect.adds {d d' : Draft K} {card : Card} (h : Effect d card d') : Adds d [card] d' := by
  cases h with
  | setting hsetting hsets =>
    refine adds_of_same ?_ ?_ (by rw [hsets.frame]; rfl) (by rw [hsets.frame]) <;>
      rcases hsetting with hkind | hkind <;> simp [hkind, Card.Kind.isCell]
  | surface hkind hadd =>
    have hframe := addSurfaceCard_frame hadd
    exact adds_of_same (by rw [hkind]; rfl) (by simp [hkind]) (by rw [hframe]; rfl)
      (by rw [hframe])
  | cell hkind hplan hadded => exact hadded.adds hkind hplan
  | lattice hkind hread hlattice hadded => exact hadded.adds hkind hread hlattice
  | motion hkind hmoving =>
    refine adds_of_same (by rw [hkind]; rfl) (by simp [hkind]) ?_ (by rw [hmoving.frame])
    -- A motion turns and shifts the fillings of cells, but does not replace them.
    refine map_cells_moving (fun _ _ => rfl) (fun c moves => ?_) hmoving
    obtain ⟨hname, hparent, hfill, -⟩ := fillMovedAll_keeps c moves
    rw [hname, hparent, hfill]
  | other hkind => exact adds_of_same (by rw [hkind]; rfl) (by simp [hkind]) rfl rfl

/-- Cards that are worked in to the end add what is on them. -/
theorem adds_addCards {d d' : Draft K} (hsound : d.Sound) {cards : List Card}
    (hdone : d.addCards cards = (d', none)) : Adds d cards d' := by
  induction cards generalizing d with
  | nil =>
    obtain ⟨rfl, -⟩ := Prod.mk.inj hdone
    exact adds_nil d
  | cons card cards ih =>
    -- The first card adds its own to `d`, and the rest go on from there.
    obtain ⟨hfirst, hrest⟩ := addCards_cons_done hdone
    have hadds := (addCard_effect hsound hfirst).adds
    exact hadds.trans (ih (hsound.changes (addCard_changes hsound card)) hrest)

end Draft

end SerpentCsg
