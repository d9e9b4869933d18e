import Mathlib.Data.List.Nodup
import Mathlib.Data.List.Perm.Basic
import SerpentCsg.Proofs.Draft.Registering
import SerpentCsg.Proofs.Draft.Residue
import SerpentCsg.Proofs.Text.Reading

/-! # Names of Surfaces

  Surfaces get their names in three ways: that of their card, that of a composite with the number of
  the face behind it, and, for a copy, that of another surface with the number of all surfaces
  behind it. No two cards have the same name, which is all that is ever checked.

  - `Shape.ownNames` and `Shape.faceNames` are the names that cards give to surfaces, and
    `CopyNames` says how the names of copies follow from those that were there.
  - `CopyNames.nodup_iff` says when all of them are distinct: faces and copies never have a name in
    common with each other, so it is up to the surfaces that have the name of their card.
  - `Draft.NamedAfter` is kept by all cards that declare no surfaces.
-/

namespace SerpentCsg

variable {K : Type}

/-! ### Names with numbers behind them -/

/-- A name with a number behind it. -/
def numbered (name : String) (n : Nat) : String := name ++ "_" ++ n.repr

/-- The number is what comes after the last underscore. -/
theorem numbered_inj {name other : String} {n m : Nat} :
    numbered name n = numbered other m ↔ name = other ∧ n = m := by
  -- Read from the end, the first underscore is the one in front of the number.
  have hreverse (name : String) (n : Nat) : (numbered name n).toList.reverse =
      n.repr.toList.reverse ++ '_' :: name.toList.reverse := by
    simp [numbered]
  have hdigits (n : Nat) : '_' ∉ n.repr.toList.reverse := by
    intro hmem
    have hdigit := Text.isDigit_of_mem_repr (List.mem_reverse.1 hmem)
    revert hdigit
    decide
  constructor
  · intro heq
    have hlists := congrArg (fun s : String => s.toList.reverse) heq
    simp only [hreverse] at hlists
    obtain ⟨hnumber, hname⟩ := Text.append_cons_inj (hdigits n) (hdigits m) hlists
    rw [List.reverse_inj, String.toList_inj] at hname hnumber
    have hvalue := Text.digitsValue_repr n
    rw [hnumber, Text.digitsValue_repr] at hvalue
    exact ⟨hname, hvalue.symm⟩
  · rintro ⟨rfl, rfl⟩
    rfl

/-- The name of a face has its number behind it. -/
theorem faceName_eq_numbered (name : String) (i : Nat) :
    Draft.faceName name i = numbered (name ++ "_sub") i := by
  have hsub : "_sub_" = "_sub" ++ "_" := by decide
  rw [Draft.faceName, numbered, hsub, ← String.append_assoc]

theorem faceName_inj {name other : String} {i j : Nat} :
    Draft.faceName name i = Draft.faceName other j ↔ name = other ∧ i = j := by
  rw [faceName_eq_numbered, faceName_eq_numbered, numbered_inj, String.append_left_inj]

/-! ### The names that cards give -/

namespace Shape

/-- The name of a single surface is that of its card. -/
def ownName (name : String) : Shape K → List String
  | .primitive _ => [name]
  | .composite _ | .infinite => []

/-- The faces of a composite have the name of the card with their numbers behind it. -/
def ownFaces (name : String) : Shape K → List String
  | .composite kinds => (List.range kinds.faces.length).map fun i => name ++ "_sub_" ++ i.repr
  | .primitive _ | .infinite => []

theorem map_fst_faceParts (name : String) (i : Nat) (kinds : List (SurfaceKind K)) :
    (faceParts name i kinds).map (·.1) =
      (List.range' i kinds.length).map (Draft.faceName name) := by
  induction kinds generalizing i with
  | nil => rfl
  | cons kind kinds ih =>
    rw [faceParts, List.map_cons, ih]
    rfl

theorem map_fst_parts (name : String) (shape : Shape K) :
    (shape.parts name).map (·.1) = shape.ownName name ++ shape.ownFaces name := by
  cases shape with
  | infinite | primitive => rfl
  | composite kinds =>
    show (faceParts name 0 kinds.faces).map (·.1) = _
    rw [map_fst_faceParts, ← List.range_eq_range']
    rfl

theorem eq_of_mem_ownName {name other : String} {shape : Shape K}
    (h : other ∈ shape.ownName name) : other = name := by
  cases shape with
  | primitive kind => exact List.mem_singleton.1 h
  | composite | infinite => cases h

theorem mem_ownFaces {name other : String} {shape : Shape K} (h : other ∈ shape.ownFaces name) :
    ∃ i < (shape.ownFaces name).length, Draft.faceName name i = other := by
  cases shape with
  | composite kinds =>
    obtain ⟨i, hi, rfl⟩ := List.mem_map.1 h
    refine ⟨i, ?_, rfl⟩
    rw [ownFaces, List.length_map, List.length_range]
    exact List.mem_range.1 hi
  | primitive | infinite => cases h

variable (items : List (String × Shape K))

/-- The names of all surfaces that some cards declare, in order. -/
def surfaceNames : List String :=
  items.flatMap fun item => item.2.ownName item.1 ++ item.2.ownFaces item.1

/-- The names of cards that are names of surfaces. -/
def ownNames : List String := items.flatMap fun item => item.2.ownName item.1

/-- The names of the faces of composites. -/
def faceNames : List String := items.flatMap fun item => item.2.ownFaces item.1

theorem surfaceNames_perm : (surfaceNames items).Perm (ownNames items ++ faceNames items) := by
  exact (List.flatMap_append_perm items _ _).symm

variable {items}

/-- Names are distinct if those of one card are and each tells the name of its card. -/
private theorem nodup_flatMap_of_cards {names : String × Shape K → List String}
    (h : (items.map (·.1)).Nodup) (hown : ∀ item, (names item).Nodup)
    (htell : ∀ item other name, name ∈ names item → name ∈ names other → item.1 = other.1) :
    (items.flatMap names).Nodup := by
  refine List.nodup_flatMap.2 ⟨fun item _ => hown item, ?_⟩
  refine (List.pairwise_map.1 h).imp ?_
  intro item other hne name hitem hother
  exact hne (htell item other name hitem hother)

theorem nodup_ownNames (h : (items.map (·.1)).Nodup) : (ownNames items).Nodup := by
  refine nodup_flatMap_of_cards h ?_ ?_
  · intro item
    cases item.2 with
    | primitive kind => exact List.nodup_singleton _
    | composite | infinite => exact List.nodup_nil
  · intro item other name hitem hother
    rw [← eq_of_mem_ownName hitem, ← eq_of_mem_ownName hother]

theorem nodup_faceNames (h : (items.map (·.1)).Nodup) : (faceNames items).Nodup := by
  refine nodup_flatMap_of_cards h ?_ ?_
  · intro item
    cases item.2 with
    | composite kinds => exact List.nodup_range.map fun _ _ heq => (faceName_inj.1 heq).2
    | primitive | infinite => exact List.nodup_nil
  · intro item other name hitem hother
    obtain ⟨i, -, rfl⟩ := mem_ownFaces hitem
    obtain ⟨j, -, heq⟩ := mem_ownFaces hother
    exact (faceName_inj.1 heq).1.symm

/-- There are more surfaces than the number of any face. -/
theorem lt_of_mem_faceNames {name : String} (h : name ∈ faceNames items) :
    ∃ base i, name = numbered base i ∧ i < (surfaceNames items).length := by
  obtain ⟨item, hitem, hname⟩ := List.mem_flatMap.1 h
  obtain ⟨i, hi, rfl⟩ := mem_ownFaces hname
  refine ⟨_, i, faceName_eq_numbered item.1 i, hi.trans_le ?_⟩
  -- The faces of this composite are among the surfaces.
  obtain ⟨before, after, rfl⟩ := List.append_of_mem hitem
  rw [surfaceNames, List.flatMap_append, List.flatMap_cons]
  simp only [List.length_append]
  omega

end Shape

/-! ### The names of copies -/

/-- Names that copies get where there are some names: each is one of those that are there, with
    the number of all of them behind it. -/
inductive CopyNames (names : List String) : List String → Prop where
  | none : CopyNames names []
  | more {copies : List String} {name : String} : CopyNames names copies → name ∈ names ++ copies →
      CopyNames names (copies ++ [numbered name (names ++ copies).length])

namespace CopyNames

variable {names copies : List String}

/-- The number of a copy is its place among all names. -/
theorem exists_of_mem (h : CopyNames names copies) {copy : String} (hcopy : copy ∈ copies) :
    ∃ name n, copy = numbered name n ∧ names.length ≤ n ∧ n < (names ++ copies).length := by
  induction h with
  | none => cases hcopy
  | @more copies name _ _ ih =>
    rcases List.mem_append.1 hcopy with hearlier | hlast
    · obtain ⟨name, n, rfl, hle, hlt⟩ := ih hearlier
      refine ⟨name, n, rfl, hle, hlt.trans ?_⟩
      simp
    · refine ⟨name, _, List.mem_singleton.1 hlast, ?_, ?_⟩
      · simp
      · simp

theorem nodup (h : CopyNames names copies) : copies.Nodup := by
  induction h with
  | none => exact List.nodup_nil
  | @more copies name hcopies _ ih =>
    rw [List.nodup_append]
    refine ⟨ih, List.nodup_singleton _, ?_⟩
    rintro copy hcopy last hlast rfl
    -- The number of an earlier copy is too small.
    obtain ⟨other, n, heq, -, hlt⟩ := hcopies.exists_of_mem hcopy
    rw [List.mem_singleton.1 hlast, numbered_inj] at heq
    exact absurd heq.2 hlt.ne'

variable {items : List (String × Shape K)}

/-- No copy has the name of a face. -/
theorem not_mem_faceNames (h : CopyNames (Shape.surfaceNames items) copies) {copy : String}
    (hcopy : copy ∈ copies) : copy ∉ Shape.faceNames items := by
  intro hface
  obtain ⟨name, n, heq, hle, -⟩ := h.exists_of_mem hcopy
  obtain ⟨other, i, heq', hlt⟩ := Shape.lt_of_mem_faceNames hface
  obtain ⟨-, rfl⟩ := numbered_inj.1 (heq.symm.trans heq')
  exact absurd hlt (not_lt.2 hle)

/-- Names of cards are the only ones that can be those of faces or of copies. -/
theorem nodup_iff (h : CopyNames (Shape.surfaceNames items) copies)
    (hcards : (items.map (·.1)).Nodup) :
    (Shape.surfaceNames items ++ copies).Nodup ↔
      ∀ name ∈ Shape.ownNames items, name ∉ Shape.faceNames items ∧ name ∉ copies := by
  -- Distinctness does not depend on the order, so the three sorts of names can be set apart.
  have hperm := (Shape.surfaceNames_perm items).append_right copies
  rw [hperm.nodup_iff, List.append_assoc, List.nodup_append', List.nodup_append']
  have hfaces : List.Disjoint (Shape.faceNames items) copies :=
    fun name hface hcopy => h.not_mem_faceNames hcopy hface
  constructor
  · rintro ⟨-, -, hdisjoint⟩ name hname
    have hnot : name ∉ Shape.faceNames items ++ copies := hdisjoint hname
    rw [List.mem_append, not_or] at hnot
    exact hnot
  · intro hnames
    refine ⟨Shape.nodup_ownNames hcards, ⟨Shape.nodup_faceNames hcards, h.nodup, hfaces⟩, ?_⟩
    intro name hname hother
    rcases List.mem_append.1 hother with hface | hcopy
    · exact (hnames name hname).1 hface
    · exact (hnames name hname).2 hcopy

end CopyNames

/-! ### Drafts -/

/-- The names of the surfaces in a table, in order. -/
def Surface.names (surfaces : Table Nat (Surface K)) : List String :=
  surfaces.values.map (·.name)

theorem Surface.length_names (surfaces : Table Nat (Surface K)) :
    (names surfaces).length = surfaces.size := by
  rw [names, List.length_map, Table.values, List.length_map]
  rfl

namespace Draft

/-- The surfaces are some with given names, and copies behind them. -/
def NamedAfter (names : List String) (d : Draft K) : Prop :=
  ∃ copies, CopyNames names copies ∧ Surface.names d.surfaces = names ++ copies

variable {names : List String} {d d' : Draft K}

theorem NamedAfter.congr (h : d.NamedAfter names)
    (hnames : Surface.names d'.surfaces = Surface.names d.surfaces) : d'.NamedAfter names := by
  obtain ⟨copies, hcopies, heq⟩ := h
  exact ⟨copies, hcopies, hnames.trans heq⟩

/-- When some shapes have been declared, their names are taken, and those that were before. -/
theorem contains_addShapes {items : List (String × Shape K)} {d : Draft K} {name : String}
    (h : d.entries.contains name = true ∨ name ∈ items.map (·.1)) :
    (d.addShapes items).entries.contains name = true := by
  induction items generalizing d with
  | nil => simpa [addShapes] using h
  | cons item items ih =>
    obtain ⟨entry, hentries⟩ := addShape_entries d item.1 item.2
    rw [List.map_cons, List.mem_cons, ← or_assoc] at h
    refine ih (h.imp_left fun hname => ?_)
    rw [hentries]
    rcases hname with hthere | rfl
    · exact Table.contains_insert_of_contains _ _ hthere
    · exact Table.contains_insert_self _ _ _

/-- Marks are made on surfaces that keep their names. -/
theorem names_markSurfaces (d : Draft K) (tokens : List Card.CellToken) :
    Surface.names (d.markSurfaces tokens).surfaces = Surface.names d.surfaces := by
  have hmarks : d.Residue (fun _ => True) (d.markSurfaces tokens) := markSurfaces_residue d tokens
  have hnames := congrArg (List.map fun part => part.2.1) hmarks.surfaces
  rw [List.map_map, List.map_map] at hnames
  exact hnames

theorem names_addCellCard {text : String} (hdone : (d.addCellCard text).fault = none) :
    Surface.names (d.addCellCard text).draft.surfaces = Surface.names d.surfaces := by
  unfold addCellCard at hdone ⊢
  cases hplan : d.planCell text with
  | error fault => simp [hplan, Outcome.stopped] at hdone
  | ok plan =>
    simp only [hplan] at hdone ⊢
    rcases addPlannedCell_done hdone with ⟨-, hsame⟩ | ⟨marked, r, hmarked, -, hsame⟩
    · rw [hsame] at hdone ⊢
      rw [(registerCell_done hdone).1]
    · rw [hsame] at hdone ⊢
      rw [(registerCell_done hdone).1, hmarked]
      split
      · exact names_markSurfaces d plan.tokens
      · rfl

variable [Scalar K]

/-- A motion gives names to copies only. -/
theorem NamedAfter.moves (h : d.NamedAfter names) (hm : Moves d d') : d'.NamedAfter names := by
  cases hm with
  | @surface id s moves hs =>
    refine h.congr (Table.map_values_modify fun t ht => ?_)
    obtain rfl : s = t := Option.some.inj (hs.symm.trans ht)
    exact (movedAll_keeps s moves).2.1
  | @copy d' cell _ _ id copy _ _ _ hcopy =>
    obtain ⟨copies, hcopies, hnames⟩ := h
    obtain ⟨s, hs, hnew, rfl⟩ := copySurface_eq_some hcopy
    have hmem : s.name ∈ names ++ copies := by
      rw [← hnames]
      exact List.mem_map_of_mem (Table.mem_values_of_find? hs)
    refine ⟨_, hcopies.more hmem, ?_⟩
    -- A copy counts the surfaces in the table, which are as many as the names.
    have hsize : (names ++ copies).length = d.surfaces.size := by
      rw [← hnames, Surface.length_names]
    have hinserted (s' : Surface K) : Surface.names (d.surfaces.insert copy s') =
        Surface.names d.surfaces ++ [s'.name] := by
      rw [Surface.names, Table.values_insert _ hnew, List.map_append]
      rfl
    rw [hinserted, hnames, hsize, List.append_assoc]
    rfl
  | renumber | filling => exact h.congr rfl

/-- A card that declares no surfaces gives names to copies only. -/
theorem NamedAfter.addCard (h : d.NamedAfter names) (hsound : d.Sound) {card : Card}
    (hkind : card.kind ≠ .surface) (hdone : (d.addCard card).fault = none) :
    (d.addCard card).draft.NamedAfter names := by
  by_cases hcell : card.kind.isCell = true
  · rw [addCard_of_isCell d hcell] at hdone ⊢
    exact h.congr (names_addCellCard hdone)
  · have heffect := addCard_effect hsound hdone
    generalize (d.addCard card).draft = d' at heffect ⊢
    cases heffect with
    | setting _ hsets =>
      rw [hsets.frame]
      exact h.congr rfl
    | surface hsurface _ => exact absurd hsurface hkind
    | cell hisCell _ _ => exact absurd hisCell hcell
    | lattice _ _ _ hadded =>
      rw [hadded.frame]
      exact h.congr rfl
    | motion _ hmoving =>
      induction hmoving with
      | refl => exact h
      | tail _ hlast ih => exact ih.moves hlast
    | other => exact h

theorem NamedAfter.addCards (h : d.NamedAfter names) (hsound : d.Sound) {cards : List Card}
    (hkinds : ∀ card ∈ cards, card.kind ≠ .surface) (hdone : d.addCards cards = (d', none)) :
    d'.NamedAfter names := by
  let P (d : Draft K) := d.Sound ∧ d.NamedAfter names
  suffices hall : P d' from hall.2
  refine addCards_done_invariant (fun d card hcard hd hdone => ?_) ⟨hsound, h⟩ hdone
  exact ⟨hd.1.changes (addCard_changes hd.1 card),
    hd.2.addCard hd.1 (hkinds card hcard) hdone⟩

end Draft

end SerpentCsg
