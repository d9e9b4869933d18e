import SerpentCsg.Proofs.Conversion.Root
import SerpentCsg.Proofs.Draft.Contents
import SerpentCsg.Proofs.Draft.Keys
import SerpentCsg.Proofs.Fallible

/-! # Contents of a Geometry

  A geometry that is made of lines has the cells and lattices that are on the cards, each once and
  in the order of the deck, and it has the universes that the cards mention. A universe may be
  mentioned before or after anything is declared in it, and may stay empty.
-/

namespace SerpentCsg

open Draft
open Card (CellCard cellCards latticeCards namesIn Mentioned)

variable {K : Type}

/-! ### Cards of a deck -/

/-- Cells and lattices are worked in in one phase, in the order of the deck. -/
theorem filterMap_inPhases {β : Type} {read : Card → Option β}
    (hphase : ∀ card b, read card = some b → phase? card.kind = some 2) (deck : List Card) :
    (inPhases deck).filterMap read = deck.filterMap read := by
  have hnone (phase : Nat) (hne : phase ≠ 2) :
      (deck.filter fun card => phase? card.kind == some phase).filterMap read = [] := by
    rw [List.filterMap_eq_nil_iff]
    intro card hcard
    rw [Option.eq_none_iff_forall_ne_some]
    intro b hread
    have hkind := (List.mem_filter.1 hcard).2
    rw [hphase card b hread, beq_iff_eq, Option.some.injEq] at hkind
    exact hne hkind.symm
  have hall : (deck.filter fun card => phase? card.kind == some 2).filterMap read =
      deck.filterMap read := by
    rw [List.filterMap_filter]
    refine List.filterMap_congr fun card _ => ?_
    cases hread : read card with
    | none => simp
    | some b => simp [hphase card b hread]
  simp [inPhases, phases, List.filterMap_append, hnone, hall]

theorem cellCards_inPhases (deck : List Card) : cellCards (inPhases deck) = cellCards deck :=
  filterMap_inPhases (fun _ _ h => phase_of_isCell (Card.cell?_eq_some_iff.1 h).1) deck

theorem latticeCards_inPhases (deck : List Card) :
    latticeCards (inPhases deck) = latticeCards deck :=
  filterMap_inPhases (fun _ _ h => by rw [(Card.lattice?_eq_some_iff.1 h).1]; rfl) deck

theorem namesIn_inPhases (parent : String) (deck : List Card) :
    namesIn parent (inPhases deck) = namesIn parent deck := by
  rw [namesIn, cellCards_inPhases, namesIn]

theorem mentioned_inPhases [Scalar K] (deck : List Card) (name : String) :
    Mentioned K (inPhases deck) name ↔ Mentioned K deck name := by
  rw [Mentioned, cellCards_inPhases, latticeCards_inPhases, Mentioned]

/-! ### Geometries of lines -/

/-- A geometry has in it what is on the cards of a deck, and nothing else. -/
structure Geometry.DeclaredBy [Scalar K] (g : Geometry K) (deck : List Card) : Prop where
  cellsRead : ∀ card ∈ deck, card.kind.isCell = true → ∃ cell, card.cell? = some cell
  latticesRead : ∀ card ∈ deck, card.kind = .lattice →
    ∃ header, card.lattice? = some header ∧ ∃ l : Lattice K, Lattice.ofCard header = .ok l
  /-- The cells are those on the cards, in order. -/
  cells : g.declared = (cellCards deck).map CellCard.declared
  cellNames : g.cells.keys = (cellCards deck).map (·.name)
  cellsDistinct : g.cells.keys.Nodup
  /-- A universe lists the cells that are declared in it, in order and each once. -/
  members : g.universes.All fun name u =>
    u.name = name ∧ u.cells = namesIn name deck ∧ u.cells.Nodup
  /-- A universe holds the lattice on the card of its name, if there is such a card. -/
  lattices : ∀ name l, g.lattice? name = some l ↔
    ∃ header ∈ latticeCards deck, header.name = name ∧ Lattice.ofCard header = .ok l
  latticesDistinct : ((latticeCards deck).map (·.name)).Nodup
  universes : ∀ name, name ∈ g.universes.keys ↔ Mentioned K deck name
  universesDistinct : g.universes.keys.Nodup

variable [Scalar K]

/-- What is left behind by a deck that can be worked in is what is on its cards. -/
theorem declaredBy_addDeck {materials : MaterialLibrary} {deck : List Card} {d : Draft K}
    (hdone : (new materials).addDeck deck = (d, none)) : d.geometry.DeclaredBy deck := by
  have hchanges := changes_of_addCards (sound_new materials) hdone
  have hsound := (sound_new materials).changes hchanges
  have hdistinct := (distinct_new materials).changes hchanges
  have hadds := adds_addCards (sound_new materials) hdone
  have hcells : d.geometry.declared = (cellCards deck).map CellCard.declared := by
    rw [hadds.cells, cellCards_inPhases]
    rfl
  have hnames : d.cells.keys = (cellCards deck).map (·.name) := by
    have hkeys : d.cells.keys = d.geometry.declared.map (·.1) := by
      rw [Table.keys_eq_map_values (hsound.cells.mono fun _ _ hc => hc.1), Geometry.declared,
        List.map_map]
      rfl
    rw [hkeys, hcells, List.map_map]
    rfl
  constructor
  case cellsRead =>
    intro card hcard hkind
    have hphase : phase? card.kind = some 2 := phase_of_isCell hkind
    exact hadds.cellsRead card (mem_inPhases hcard (by decide) hphase) hkind
  case latticesRead =>
    intro card hcard hkind
    have hphase : phase? card.kind = some 2 := by
      rw [hkind]
      rfl
    exact hadds.latticesRead card (mem_inPhases hcard (by decide) hphase) hkind
  case cells => exact hcells
  case cellNames => exact hnames
  case cellsDistinct => exact hdistinct.cells
  case members =>
    refine Table.all_of_find? hdistinct.universes fun name u hu => ?_
    have hlist : u.cells = namesIn name deck := by
      have hmembers := hadds.members name
      rw [namesIn_inPhases] at hmembers
      have hown : d.geometry.members name = u.cells := by
        rw [members_geometry, hu]
        rfl
      rw [← hown, hmembers]
      rfl
    -- The names are some of those of all cells, and no two cells share one.
    have hsome : (namesIn name deck).Sublist ((cellCards deck).map (·.name)) :=
      List.filter_sublist.map _
    refine ⟨(hsound.universes.find? hu).1, hlist, ?_⟩
    rw [hlist]
    exact (hnames ▸ hdistinct.cells).sublist hsome
  case lattices =>
    intro name l
    rw [hadds.lattices, latticeCards_inPhases]
    exact or_iff_right fun hnone => by simp [Geometry.lattice?, new, geometry] at hnone
  case latticesDistinct => exact latticeCards_inPhases deck ▸ hadds.latticesDistinct
  case universes =>
    intro name
    rw [Table.mem_keys_iff, ← mentioned_inPhases]
    refine (hadds.universes name).trans (or_iff_right ?_)
    simp [new, Table.contains]
  case universesDistinct => exact hdistinct.universes

namespace Conversion

/-- Nothing that is declared is lost, changed or doubled, and nothing is invented: a geometry that
    is made of lines has the cells, lattices and universes of the cards. -/
theorem ofLines_declaredBy {lines : List String} {materials : MaterialLibrary} {c : Conversion K}
    (h : ofLines lines materials = .ok c) : c.geometry.DeclaredBy (Card.deck lines) := by
  obtain ⟨d, hdeck, rfl⟩ := exists_draft_of_ofLines h
  exact declaredBy_addDeck hdeck

/-- A lattice that is used before it is declared, of pins that are declared after it. Nothing is
    ever declared in one of the universes. -/
def latticeLines : List String :=
  ["surf s sph 0 0 0 1", "cell a 0 fill L -s", "lat L 1 0 0 1 1 10 p", "cell b p void -s",
    "cell c p fill q s", "cell o 0 outside s"]

theorem ofLines_declaredBy_lattice :
    ∃ c : Conversion Float, ofLines latticeLines .empty = .ok c ∧
      c.geometry.universes.keys = ["L", "0", "p", "q"] ∧
      c.geometry.DeclaredBy (Card.deck latticeLines) := by
  have hrun : ((ofLines (K := Float) latticeLines .empty).toOption.map fun c =>
      c.geometry.universes.keys) = some ["L", "0", "p", "q"] := by
    decide +kernel
  obtain ⟨c, hlines, hkeys⟩ := exists_ok_of_map_eq_some hrun
  exact ⟨c, hlines, hkeys, ofLines_declaredBy hlines⟩

end Conversion

end SerpentCsg
