import SerpentCsg.Proofs.Draft.Contents
import SerpentCsg.Scalar.Binary64

/-! # What a Failed Card Leaves Behind

  Cards of cells and lattices change the draft step by step, and a fault can come between any two
  of the steps. What is left behind then counts for nothing: boundary conditions that an outside
  cell has set, universes without anything in them that the card mentions, and a number that has
  been given to a cell.

  - `Residue` says what may be left behind. It holds of nothing, of each of these steps, and of
    steps one after another.
  - `Fault.Preliminary` lists the faults that are found before the first step, and `Fault.Late` those
    that are found between steps. Each fault of such a card is one or the other.
-/

namespace SerpentCsg

open Card (CellCard CellToken LatticeCard cellCards latticeCards)

variable {K : Type}

/-! ### Causes -/

namespace Fault

/-- What can be told from a card of a cell or a lattice, the names that are declared so far and the
    materials. -/
inductive Preliminary : Fault → Prop where
  | unreadableCell (text : String) : Preliminary (.unreadableCell text)
  | material (name : String) : Preliminary (.unresolved .material name)
  | fill (cell parent fill : String) : Preliminary (.forbiddenFill cell parent fill)
  | cell (name : String) : Preliminary (.duplicate .cell name)
  | expression (cell expression : String) : Preliminary (.unreadableExpression cell expression)
  | noSurfaces (cell : String) : Preliminary (.noSurfaces cell)
  | everywhere (cell : String) : Preliminary (.outsideEverywhere cell)
  | unreadableLattice (name : String) : Preliminary (.unreadableLattice name)
  | latticeType (name : String) (type : Nat) : Preliminary (.unknownLatticeType name type)
  | header (name : String) (expected found : Nat) :
      Preliminary (.shortLatticeHeader name expected found)
  | number (name word : String) : Preliminary (.latticeNumber name word)
  | count (name word : String) : Preliminary (.latticeCount name word)
  | layers (name : String) : Preliminary (.latticeLayers name)
  | pitch (name : String) : Preliminary (.latticePitch name)
  | size (name : String) (columns rows : Nat) : Preliminary (.latticeSize name columns rows)
  | names (name : String) (expected found : Nat) : Preliminary (.latticeNames name expected found)

/-- What is found when a draft is being changed: in the surfaces of a cell, and in the universe that
    a cell or a lattice belongs to. -/
inductive Late : Fault → Prop where
  | surface (name : String) : Late (.unresolved .surface name)
  | infinite (cell : String) : Late (.infiniteAmongOthers cell)
  | region (expression rest : String) : Late (.unreadableRegion expression rest)
  | universe (name : String) : Late (.duplicate .universe name)

theorem Preliminary.not_late {fault : Fault} (h : fault.Preliminary) : ¬ fault.Late := by
  intro hlate
  cases h <;> cases hlate

end Fault

/-! ### Cards that describe no lattice -/

namespace Lattice

variable [Scalar K]

theorem number_eq_error {card : LatticeCard} {place : Nat} {fault : Fault}
    (h : number (K := K) card place = .error fault) : fault.Preliminary := by
  unfold number at h
  split at h <;> cases h
  exact .number _ _

theorem count_eq_error {card : LatticeCard} {place : Nat} {fault : Fault}
    (h : count card place = .error fault) : fault.Preliminary := by
  unfold count at h
  split at h <;> cases h
  exact .count _ _

theorem header_eq_error {card : LatticeCard} {fault : Fault}
    (h : header (K := K) card = .error fault) : fault.Preliminary := by
  unfold header at h
  split at h
  · next kind length _ _ =>
    split at h
    · cases h
      exact .header _ _ _
    · simp only [bind_eq_error_iff] at h
      rcases h with hx | ⟨x, -, hy | ⟨y, -, hcounts⟩⟩
      · exact number_eq_error hx
      · exact number_eq_error hy
      · cases kind with
        | square | squareInfinite =>
          simp only [squareHeader, bind_eq_error_iff] at hcounts
          rcases hcounts with hp | ⟨p, -, hcolumns | ⟨columns, -, hrows | ⟨rows, -, hdone⟩⟩⟩
          · exact number_eq_error hp
          · exact count_eq_error hcolumns
          · exact count_eq_error hrows
          · cases hdone
        | cuboidal =>
          simp only [cuboidalHeader, bind_eq_error_iff] at hcounts
          rcases hcounts with hlayers | ⟨layers, -, hcounts⟩
          · exact count_eq_error hlayers
          · split at hcounts
            · cases hcounts
              exact .layers _
            · simp only [bind_eq_error_iff] at hcounts
              rcases hcounts with
                hcolumns | ⟨columns, -, hrows | ⟨rows, -, hx | ⟨px, -, hy | ⟨py, -, hdone⟩⟩⟩⟩
              · exact count_eq_error hcolumns
              · exact count_eq_error hrows
              · exact number_eq_error hx
              · exact number_eq_error hy
              · cases hdone
  · cases h
    exact .latticeType _ _

/-- A card describes no lattice for reasons that are known before anything is changed. -/
theorem ofCard_eq_error {card : LatticeCard} {fault : Fault}
    (h : ofCard (K := K) card = .error fault) : fault.Preliminary := by
  unfold ofCard at h
  split at h
  · next other hheader =>
    obtain rfl : other = fault := Except.error.inj h
    exact header_eq_error hheader
  · dsimp only at h
    split_ifs at h <;> cases h
    · exact .pitch _
    · exact .size _ _ _
    · exact .names _ _ _

end Lattice

namespace Draft

/-! ### What may be left behind -/

/-- Nothing has changed that counts: boundary conditions of surfaces may be others, numbers may have
    been given to cells, and there may be more universes, empty ones with certain names. -/
structure Residue (mentioned : String → Prop) (d d' : Draft K) : Prop where
  entries : d'.entries = d.entries
  cells : d'.cells = d.cells
  materials : d'.materials = d.materials
  boundaries : d'.boundaries = d.boundaries
  root : d'.root = d.root
  owners : d'.owners = d.owners
  surfaceKeys : d'.surfaces.keys = d.surfaces.keys
  surfaces : d'.surfaces.values.map (fun s => (s.id, s.name, s.kind)) =
    d.surfaces.values.map fun s => (s.id, s.name, s.kind)
  /-- The universes that were there stay as they are, with new ones behind them. -/
  universes : ∃ added, d'.universes.entries = d.universes.entries ++ added ∧
    ∀ item ∈ added, mentioned item.1 ∧ item.2.name = item.1 ∧ item.2.isPlaceholder = true

namespace Residue

variable {mentioned : String → Prop} {d d₁ d₂ : Draft K}

theorem refl (mentioned : String → Prop) (d : Draft K) : d.Residue mentioned d where
  entries := rfl
  cells := rfl
  materials := rfl
  boundaries := rfl
  root := rfl
  owners := rfl
  surfaceKeys := rfl
  surfaces := rfl
  universes := ⟨[], by simp, by simp⟩

theorem trans (h : d.Residue mentioned d₁) (h' : d₁.Residue mentioned d₂) :
    d.Residue mentioned d₂ where
  entries := h'.entries.trans h.entries
  cells := h'.cells.trans h.cells
  materials := h'.materials.trans h.materials
  boundaries := h'.boundaries.trans h.boundaries
  root := h'.root.trans h.root
  owners := h'.owners.trans h.owners
  surfaceKeys := h'.surfaceKeys.trans h.surfaceKeys
  surfaces := h'.surfaces.trans h.surfaces
  universes := by
    obtain ⟨added, heq, hadded⟩ := h.universes
    obtain ⟨further, heq', hfurther⟩ := h'.universes
    refine ⟨added ++ further, by rw [heq', heq, List.append_assoc], ?_⟩
    intro item hitem
    rcases List.mem_append.1 hitem with hfirst | hsecond
    · exact hadded item hfirst
    · exact hfurther item hsecond

/-- A universe that was there is found as it was. -/
theorem find?_universes (h : d.Residue mentioned d₁) {name : String} {u : Universe K}
    (hu : d.universes.find? name = some u) : d₁.universes.find? name = some u := by
  obtain ⟨added, heq, -⟩ := h.universes
  exact Table.find?_of_append heq hu

/-- Steps for some things leave behind what single steps do. -/
theorem foldl {α : Type} {step : Draft K → α → Draft K} {items : List α}
    (h : ∀ d : Draft K, ∀ a ∈ items, d.Residue mentioned (step d a)) (d : Draft K) :
    d.Residue mentioned (items.foldl step d) := by
  induction items generalizing d with
  | nil => exact refl mentioned d
  | cons a items ih =>
    have hfirst := h d a List.mem_cons_self
    exact hfirst.trans (ih (fun d b hb => h d b (List.mem_cons_of_mem a hb)) (step d a))

end Residue

/-! ### Single steps -/

section Steps

variable {mentioned : String → Prop}

theorem ensureUniverse_residue (d : Draft K) {name : String} (h : mentioned name) :
    d.Residue mentioned (d.ensureUniverse name) := by
  unfold ensureUniverse
  split
  · exact .refl mentioned d
  · next hnew =>
    refine { Residue.refl mentioned d with universes := ?_ }
    refine ⟨[(name, { id := Identifier.allocate name d.universeIds, name })], ?_, ?_⟩
    · rw [Bool.not_eq_true] at hnew
      exact Table.entries_insert _ hnew
    · intro item hitem
      rw [List.mem_singleton.1 hitem]
      exact ⟨h, rfl, rfl⟩

theorem markSurface_residue (d : Draft K) (id : Nat) : d.Residue mentioned (d.markSurface id) :=
  { Residue.refl mentioned d with
    surfaceKeys := Table.keys_modify _ _ _
    surfaces := Table.map_values_modify fun _ _ => rfl }

theorem reserveCellId_residue (d : Draft K) (name : String) :
    d.Residue mentioned (d.reserveCellId name).1 :=
  { Residue.refl mentioned d with }

theorem ensureFill_residue (d : Draft K) {fill : Fill}
    (h : ∀ name, fill = .universe name → mentioned name) :
    d.Residue mentioned (d.ensureFill fill) := by
  match fill with
  | .universe name => exact ensureUniverse_residue d (h name rfl)
  | .material _ | .void | .outside => exact .refl mentioned d

theorem markSurfaces_residue (d : Draft K) (tokens : List CellToken) :
    d.Residue mentioned (d.markSurfaces tokens) :=
  .foldl (fun d id _ => markSurface_residue d id) d

end Steps

/-! ### Cells -/

section Cells

theorem fillOf_eq_error {d : Draft K} {card : CellCard} {fault : Fault}
    (h : d.fillOf card = .error fault) : fault.Preliminary := by
  unfold fillOf at h
  split at h
  · cases h
  · split at h
    · cases h
    · split at h <;> cases h
      exact .material _
  · split at h <;> cases h
    exact .fill _ _ _

/-- A cell cannot be planned for reasons that are known before anything is changed. -/
theorem planCell_eq_error {d : Draft K} {text : String} {fault : Fault}
    (h : d.planCell text = .error fault) : fault.Preliminary := by
  unfold planCell at h
  split at h
  · cases h
    exact .unreadableCell text
  · next card _ =>
    split at h
    · next other hfill =>
      obtain rfl : other = fault := Except.error.inj h
      exact fillOf_eq_error hfill
    · split at h
      · cases h
        exact .cell card.name
      · split at h
        · cases h
          exact .expression card.name card.expression
        · cases h
          exact .noSurfaces card.name
        · split at h <;> cases h
          exact .everywhere card.name

theorem new_of_planCell {d : Draft K} {text : String} {plan : CellPlan}
    (h : d.planCell text = .ok plan) : d.cells.contains plan.card.name = false := by
  unfold planCell at h
  split at h
  · cases h
  · split at h
    · cases h
    · split at h
      · cases h
      · next hnew =>
        rw [Bool.not_eq_true] at hnew
        split at h
        · cases h
        · cases h
        · split at h <;> cases h
          exact hnew

theorem regionOf_eq_error {d : Draft K} {cell : String} {tokens : List CellToken} {fault : Fault}
    (h : d.regionOf cell tokens = .error fault) : fault.Late := by
  unfold regionOf regionText at h
  cases htexts : tokens.mapM (d.tokenText cell) with
  | ok texts =>
    rw [htexts] at h
    have h : Region.ofExpression (" ".intercalate texts) = .error fault := h
    unfold Region.ofExpression at h
    split at h <;> cases h
    exact .region _ _
  | error other =>
    rw [htexts] at h
    obtain rfl : other = fault := Except.error.inj h
    obtain ⟨token, -, htoken⟩ := exists_of_mapM_eq_error htexts
    unfold tokenText at htoken
    split at htoken
    case h_5 =>
      split at htoken
      · unfold entryText at htoken
        split at htoken <;> cases htoken
        exact .infinite cell
      · cases htoken
        exact .surface _
    all_goals cases htoken

/-- A cell that cannot be registered has a lattice in its universe. The universe that fills it is
    there by then, and it has been given a number. -/
theorem registerCell_residue {mentioned : String → Prop} {d : Draft K} {plan : CellPlan}
    {region : Option Region} {fault : Fault} (hnew : d.cells.contains plan.card.name = false)
    (hmentioned : ∀ name, plan.fill = .universe name → mentioned name)
    (h : (d.registerCell plan region).fault = some fault) :
    fault = .duplicate .universe plan.card.parent ∧
      d.Residue mentioned (d.registerCell plan region).draft ∧
      (d.registerCell plan region).draft.surfaces = d.surfaces := by
  let filled := d.ensureFill plan.fill
  let numbered : Draft K := (filled.reserveCellId plan.card.name).1
  let cell : Cell K :=
    { id := (filled.reserveCellId plan.card.name).2, name := plan.card.name,
      parent := plan.card.parent, fill := plan.fill, region }
  have hstep : d.registerCell plan region = .ofStep numbered (numbered.addCell cell) := rfl
  have hfilled : filled = { d with universes := filled.universes } := ensureFill_frame d plan.fill
  have hresidue : d.Residue mentioned numbered :=
    (ensureFill_residue d hmentioned).trans (reserveCellId_residue filled plan.card.name)
  have hcells : numbered.cells.contains cell.name = false := by
    rw [hresidue.cells]
    exact hnew
  rw [hstep] at h ⊢
  cases hadd : numbered.addCell cell with
  | ok d' =>
    rw [hadd] at h
    cases h
  | error other =>
    rw [hadd] at h
    obtain rfl : other = fault := Option.some.inj h
    refine ⟨?_, hresidue, ?_⟩
    · unfold addCell at hadd
      rw [if_neg (by rw [hcells]; simp)] at hadd
      split at hadd <;> cases hadd
      rfl
    · show filled.surfaces = d.surfaces
      rw [hfilled]

/-- A planned cell fails for reasons that are found late. -/
theorem addPlannedCell_residue {mentioned : String → Prop} {d : Draft K} {plan : CellPlan}
    {fault : Fault} (hnew : d.cells.contains plan.card.name = false)
    (hmentioned : ∀ name, plan.fill = .universe name → mentioned name)
    (h : (d.addPlannedCell plan).fault = some fault) :
    fault.Late ∧ d.Residue mentioned (d.addPlannedCell plan).draft ∧
      (plan.fill ≠ .outside → (d.addPlannedCell plan).draft.surfaces = d.surfaces ∧
        ((∀ name, fault ≠ .duplicate .universe name) → (d.addPlannedCell plan).draft = d)) := by
  unfold addPlannedCell at h ⊢
  split at h
  · next hcovers =>
    rw [if_pos hcovers]
    obtain ⟨rfl, hresidue, hsurfaces⟩ := registerCell_residue hnew hmentioned h
    exact ⟨.universe _, hresidue, fun _ => ⟨hsurfaces, fun hother => absurd rfl (hother _)⟩⟩
  · next hcovers =>
    rw [if_neg hcovers]
    dsimp only at h ⊢
    have hmarked : d.Residue mentioned
        (if plan.fill == .outside then d.markSurfaces plan.tokens else d) := by
      split
      · exact markSurfaces_residue d plan.tokens
      · exact .refl mentioned d
    have hsame (hinside : plan.fill ≠ .outside) :
        (if plan.fill == .outside then d.markSurfaces plan.tokens else d) = d :=
      if_neg (by simpa using hinside)
    generalize (if plan.fill == .outside then d.markSurfaces plan.tokens else d) = marked
      at h hmarked hsame ⊢
    cases hregion : marked.regionOf plan.card.name plan.tokens with
    | error other =>
      rw [hregion] at h
      obtain rfl : other = fault := Option.some.inj h
      refine ⟨regionOf_eq_error hregion, hmarked, ?_⟩
      intro hinside
      exact ⟨congrArg Draft.surfaces (hsame hinside), fun _ => hsame hinside⟩
    | ok region =>
      rw [hregion] at h
      have hnew' : marked.cells.contains plan.card.name = false := by
        rw [hmarked.cells]
        exact hnew
      obtain ⟨rfl, hresidue, hsurfaces⟩ := registerCell_residue hnew' hmentioned h
      refine ⟨.universe _, hmarked.trans hresidue, ?_⟩
      intro hinside
      exact ⟨hsurfaces.trans (congrArg Draft.surfaces (hsame hinside)),
        fun hother => absurd rfl (hother _)⟩

end Cells

/-! ### Lattices -/

section Lattices

theorem addLattice_residue {mentioned : String → Prop} {d : Draft K} {name : String}
    {lattice : Lattice K} {fault : Fault} (hname : mentioned name)
    (hnames : ∀ other ∈ lattice.names, mentioned other)
    (h : (d.addLattice name lattice).fault = some fault) :
    fault = .duplicate .universe name ∧ d.Residue mentioned (d.addLattice name lattice).draft := by
  have hresidue : d.Residue mentioned
      ((lattice.names.foldl ensureUniverse d).ensureUniverse name) := by
    refine Residue.trans (.foldl ?_ d) (ensureUniverse_residue _ hname)
    intro d other hother
    exact ensureUniverse_residue d (hnames other hother)
  unfold addLattice at h ⊢
  dsimp only at h ⊢
  generalize (lattice.names.foldl ensureUniverse d).ensureUniverse name = filled at h hresidue ⊢
  split at h
  · next u hu =>
    split at h
    · cases h
    · next hdeclared =>
      cases h
      rw [if_neg hdeclared]
      exact ⟨rfl, hresidue⟩
  · cases h

end Lattices

/-! ### Cards -/

/-- What a card leaves behind that fails: nothing if the fault is found before the first step, and
    what may be left behind in any case. Surfaces are changed by outside cells only, and everything
    else stays as it is unless the fault lies in the universe that the card belongs to. -/
structure FailsWith [Scalar K] (d : Draft K) (card : Card) (fault : Fault) (d' : Draft K) :
    Prop where
  cause : fault.Preliminary ∨ fault.Late
  preliminary : fault.Preliminary → d' = d
  residue : d.Residue (Card.Mentioned K [card]) d'
  surfaces : (∀ cell, card.cell? = some cell → cell.fill ≠ .outside) → d'.surfaces = d.surfaces
  rest : (∀ cell, card.cell? = some cell → cell.fill ≠ .outside) →
    (∀ name, fault ≠ .duplicate .universe name) → d' = d

section Cards

variable [Scalar K] {d : Draft K} {card : Card} {fault : Fault}

theorem FailsWith.of_preliminary (h : fault.Preliminary) : d.FailsWith card fault d where
  cause := .inl h
  preliminary := fun _ => rfl
  residue := .refl _ d
  surfaces := fun _ => rfl
  rest := fun _ _ => rfl

theorem addCellCard_failsWith (hkind : card.kind.isCell = true)
    (hfault : (d.addCellCard card.text).fault = some fault) :
    d.FailsWith card fault (d.addCellCard card.text).draft := by
  unfold addCellCard at hfault ⊢
  cases hplan : d.planCell card.text with
  | error other =>
    rw [hplan] at hfault
    obtain rfl : other = fault := Option.some.inj hfault
    exact .of_preliminary (planCell_eq_error hplan)
  | ok plan =>
    rw [hplan] at hfault
    obtain ⟨hread, hfill⟩ := planCell_eq_ok hplan
    have hfilling := fillOf_eq_filling hfill
    have hcard : card.cell? = some plan.card := Card.cell?_eq_some_iff.2 ⟨hkind, hread⟩
    have hmentioned (name : String) (hname : plan.fill = .universe name) :
        Card.Mentioned K [card] name := by
      rw [hfilling, Card.FillWord.filling_eq_universe_iff] at hname
      refine .inl ⟨plan.card, ?_, .inr hname⟩
      simp [cellCards, hcard]
    obtain ⟨hlate, hresidue, hinside⟩ :=
      addPlannedCell_residue (new_of_planCell hplan) hmentioned hfault
    have hfillInside (h : ∀ cell, card.cell? = some cell → cell.fill ≠ .outside) :
        plan.fill ≠ .outside := by
      intro houtside
      rw [hfilling, Card.FillWord.filling_eq_outside_iff] at houtside
      exact h plan.card hcard houtside
    exact {
      cause := .inr hlate
      preliminary := fun h => absurd hlate h.not_late
      residue := hresidue
      surfaces := fun h => (hinside (hfillInside h)).1
      rest := fun h => (hinside (hfillInside h)).2 }

theorem addLatticeCard_failsWith (hkind : card.kind = .lattice)
    (hfault : (d.addLatticeCard card.text).fault = some fault) :
    d.FailsWith card fault (d.addLatticeCard card.text).draft := by
  have hframe := addLatticeCard_frame d card.text
  unfold addLatticeCard at hfault hframe ⊢
  cases hread : Card.readLattice card.text.toList with
  | none =>
    rw [hread] at hfault
    obtain rfl := Option.some.inj hfault
    exact .of_preliminary (.unreadableLattice _)
  | some header =>
    rw [hread] at hfault hframe
    dsimp only at hfault hframe ⊢
    cases hlattice : Lattice.ofCard (K := K) header with
    | error other =>
      rw [hlattice] at hfault
      obtain rfl : other = fault := Option.some.inj hfault
      exact .of_preliminary (Lattice.ofCard_eq_error hlattice)
    | ok lattice =>
      rw [hlattice] at hfault hframe
      have hheader : header ∈ latticeCards [card] := by
        simp [latticeCards, Card.lattice?_eq_some_iff.2 ⟨hkind, hread⟩]
      have hname : Card.Mentioned K [card] header.name := .inr ⟨header, hheader, .inl rfl⟩
      have hnames (other : String) (hother : other ∈ lattice.names) :
          Card.Mentioned K [card] other :=
        .inr ⟨header, hheader, .inr ⟨lattice, hlattice, hother⟩⟩
      obtain ⟨rfl, hresidue⟩ := addLattice_residue hname hnames hfault
      have hlate : (Fault.duplicate .universe header.name).Late := .universe header.name
      exact {
        cause := .inr hlate
        preliminary := fun h => absurd hlate h.not_late
        residue := hresidue
        surfaces := fun _ => by rw [hframe]
        rest := fun _ h => absurd rfl (h header.name) }

/-- A card of a cell or of a lattice that fails registers nothing that counts. -/
theorem addCard_failsWith (hkind : card.kind.isCell = true ∨ card.kind = .lattice)
    (hfault : (d.addCard card).fault = some fault) :
    d.FailsWith card fault (d.addCard card).draft ∧
      ∀ name u, d.universes.find? name = some u →
        (d.addCard card).draft.universes.find? name = some u := by
  have hfails : d.FailsWith card fault (d.addCard card).draft := by
    rcases hkind with hcell | hlattice
    · rw [addCard_of_isCell d hcell] at hfault ⊢
      exact addCellCard_failsWith hcell hfault
    · have hcard : d.addCard card = d.addLatticeCard card.text := by
        unfold addCard
        rw [hlattice]
      rw [hcard] at hfault ⊢
      exact addLatticeCard_failsWith hlattice hfault
  exact ⟨hfails, fun name u hu => hfails.residue.find?_universes hu⟩

/-- A surface, and a lattice of one element. -/
def surfaceAndLattice : Draft Float :=
  ((new .empty).addCards
    [⟨1, .surface, "surf s px 1"⟩, ⟨2, .lattice, "lat L 1 0 0 1 1 10 A"⟩]).1

/-- A cell in the universe of the lattice: the universe that should fill it is left behind, with
    nothing in it. -/
theorem addCard_failsWith_lattice :
    let card : Card := ⟨3, .cellFill, "cell c L fill F -s"⟩
    surfaceAndLattice.FailsWith card (.duplicate .universe "L")
      (surfaceAndLattice.addCard card).draft ∧
    (surfaceAndLattice.addCard card).draft.universes.keys =
      surfaceAndLattice.universes.keys ++ ["F"] := by
  have hfault : (surfaceAndLattice.addCard ⟨3, .cellFill, "cell c L fill F -s"⟩).fault =
      some (.duplicate .universe "L") := by
    decide +kernel
  exact ⟨(addCard_failsWith (.inl rfl) hfault).1, by decide +kernel⟩

end Cards

end Draft

end SerpentCsg
