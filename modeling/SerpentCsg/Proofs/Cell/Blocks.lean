import SerpentCsg.Proofs.Cell.Formula
import SerpentCsg.Proofs.Fallible
import SerpentCsg.Proofs.Region.Spelling
import SerpentCsg.Proofs.Region.Surfaces

/-! # Blocks of Surface Expressions

  A surface expression is put into numbers token by token. What a token writes is a block of tokens
  of a region expression, and the text of a whole expression spells its blocks. The block of a
  surface name is an operand, and its numbers are those of the surfaces that the name stands for.
-/

namespace SerpentCsg.Draft

open Card (CellToken)
open Region (Token IsOperand IsIntersection IsUnion IsExpression Writes Spelled combine)

variable {K : Type}

/-! ### Blocks -/

/-- The side that a sign asks for. -/
def sideOf (negative : Bool) : Side := if negative then .negative else .positive

/-- Tokens of a region expression for a side of what a name stands for. -/
def entryBlock (negative : Bool) : SurfaceEntry → List Token
  | .primitive id => [.number ⟨id, sideOf negative⟩]
  | .composite faces =>
    (if negative then [] else [.tilde]) ++
      .opening :: (faces.inside.map .number ++ [.closing])
  | .infinite => []

/-- Tokens of a region expression for a token of a surface expression. -/
def block (d : Draft K) : CellToken → List Token
  | .opening => [.opening]
  | .closing => [.closing]
  | .union => [.bar]
  | .complement => [.tilde]
  | .surface negative name =>
    match d.entries.find? name with
    | some entry => entryBlock negative entry
    | none => []

/-- The region on a side of what a name stands for. -/
def entryRegion (negative : Bool) : SurfaceEntry → Region
  | .primitive id => .halfspace ⟨id, sideOf negative⟩
  | .composite faces => if negative then faces.region else .complement faces.region
  | .infinite => .intersection []

/-- Half-spaces side by side. -/
private theorem isIntersection_halfspaces :
    ∀ {hs : List Halfspace}, hs ≠ [] →
      IsIntersection (hs.map .number) (hs.map .halfspace)
  | [h], _ => .single (.number h)
  | h :: g :: hs, _ => .beside (.number h) (isIntersection_halfspaces (List.cons_ne_nil g hs))

/-- The faces of a composite in parentheses are its inside. -/
theorem isOperand_composite (faces : Composite Nat) :
    IsOperand (.opening :: (faces.inside.map .number ++ [.closing])) faces.region := by
  have hne : faces.inside ≠ [] := by
    cases faces with
    | hexPrism flats => cases flats <;> simp [Composite.inside, Composite.sides]
    | _ => simp [Composite.inside, Composite.sides]
  have hregion : combine .intersection (faces.inside.map .halfspace) = faces.region := by
    cases faces with
    | hexPrism flats => cases flats <;> rfl
    | _ => rfl
  have hunion := IsUnion.single (isIntersection_halfspaces hne)
  rw [hregion] at hunion
  exact .group hunion

/-- The block of a name is an operand. -/
theorem isOperand_entryBlock (negative : Bool) {entry : SurfaceEntry} (h : entry ≠ .infinite) :
    IsOperand (entryBlock negative entry) (entryRegion negative entry) := by
  cases entry with
  | primitive id => exact .number _
  | composite faces =>
    cases negative with
    | false => exact .complement (isOperand_composite faces)
    | true => exact isOperand_composite faces
  | infinite => exact absurd rfl h

theorem block_surface {d : Draft K} {name : String} {entry : SurfaceEntry} (negative : Bool)
    (h : d.entries.find? name = some entry) :
    d.block (.surface negative name) = entryBlock negative entry := by
  simp only [block, h]

/-! ### Text of blocks -/

theorem writes_composite (faces : Composite Nat) :
    Writes faces.region.text.toList (faces.inside.map .number) := by
  have htext : faces.region.text.toList =
      [' '].intercalate (faces.inside.map fun h => h.side.sign :: h.surface.repr.toList) := by
    simp [Composite.region, Region.text, Region.chars, Region.isCombination, Region.enclosed,
      Function.comp_def]
  have htokens : faces.inside.map Token.number = faces.inside.flatMap fun h => [.number h] :=
    List.map_eq_flatMap
  rw [htext, htokens]
  refine .spaced (List.forall₂_map_right_iff.2 (List.forall₂_same.2 ?_))
  intro h _
  exact .number h.surface h.side

theorem writes_entryText {cell text : String} {negative : Bool} {entry : SurfaceEntry}
    (h : entryText cell negative entry = .ok text) :
    Writes text.toList (entryBlock negative entry) := by
  cases entry with
  | primitive id =>
    obtain rfl := Except.ok.inj h
    cases negative with
    | true => simpa [entryBlock, sideOf, Side.sign] using Writes.number id .negative
    | false => simpa [entryBlock, sideOf, Side.sign] using Writes.number id .positive
  | composite faces =>
    obtain rfl := Except.ok.inj h
    have hgroup := (writes_composite faces).append_symbol (t := .closing) rfl
    have hgroup := hgroup.cons_symbol (t := .opening) rfl
    cases negative with
    | true => simpa [entryBlock] using hgroup
    | false => simpa [entryBlock] using hgroup.cons_symbol (t := .tilde) rfl
  | infinite => simp [entryText] at h

theorem tokenText_surface {d : Draft K} {name : String} {entry : SurfaceEntry} (cell : String)
    (negative : Bool) (h : d.entries.find? name = some entry) :
    d.tokenText cell (.surface negative name) = entryText cell negative entry := by
  simp only [tokenText, h]

theorem writes_tokenText {d : Draft K} {cell text : String} {t : CellToken}
    (h : d.tokenText cell t = .ok text) : Writes text.toList (d.block t) := by
  cases t with
  | surface negative name =>
    cases hentry : d.entries.find? name with
    | some entry =>
      rw [tokenText_surface cell negative hentry] at h
      rw [block_surface negative hentry]
      exact writes_entryText h
    | none => simp [tokenText, hentry] at h
  | _ => obtain rfl := Except.ok.inj h; exact .symbol rfl

theorem exists_tokenText_iff {d : Draft K} {cell : String} {t : CellToken} :
    (∃ text, d.tokenText cell t = .ok text) ↔ d.Resolves t := by
  cases t with
  | surface negative name =>
    cases hentry : d.entries.find? name with
    | none => simp [tokenText, Resolves, hentry]
    | some entry =>
      rw [tokenText_surface cell negative hentry]
      cases entry <;> simp [entryText, Resolves, hentry]
  | _ => simp [tokenText, Resolves]

/-- The text of an expression spells the blocks of its tokens, all of which could be resolved. -/
theorem spelled_of_regionText {d : Draft K} {cell text : String} {tokens : List CellToken}
    (h : d.regionText cell tokens = .ok text) :
    Spelled text.toList (tokens.flatMap d.block) ∧ ∀ t ∈ tokens, d.Resolves t := by
  unfold regionText at h
  cases htexts : tokens.mapM (d.tokenText cell) with
  | error fault => simp [htexts, Except.map] at h
  | ok texts =>
    obtain rfl : " ".intercalate texts = text := by simpa [htexts, Except.map] using h
    have hparts := mapM_eq_ok_iff.1 htexts
    -- Every text writes its block, and the texts have spaces between them.
    constructor
    · rw [String.toList_intercalate]
      refine (Writes.spaced (List.forall₂_map_right_iff.2 (hparts.imp ?_))).spelled
      intro t text ht
      exact writes_tokenText ht
    · clear htexts h
      induction hparts with
      | nil => simp
      | cons ht _ ih => exact List.forall_mem_cons.2 ⟨exists_tokenText_iff.1 ⟨_, ht⟩, ih⟩

theorem exists_regionText {d : Draft K} {tokens : List CellToken} (cell : String)
    (h : ∀ t ∈ tokens, d.Resolves t) : ∃ text, d.regionText cell tokens = .ok text := by
  have hparts : ∃ texts,
      List.Forall₂ (fun t text => d.tokenText cell t = .ok text) tokens texts := by
    induction tokens with
    | nil => exact ⟨[], .nil⟩
    | cons t tokens ih =>
      rw [List.forall_mem_cons] at h
      obtain ⟨text, htext⟩ := exists_tokenText_iff.2 h.1
      obtain ⟨texts, htexts⟩ := ih h.2
      exact ⟨text :: texts, .cons htext htexts⟩
  obtain ⟨texts, htexts⟩ := hparts
  exact ⟨" ".intercalate texts, by simp [regionText, mapM_eq_ok_iff.2 htexts, Except.map]⟩

/-! ### The region of an expression -/

/-- The region of an expression is what its blocks stand for. -/
theorem regionOf_eq_ok {d : Draft K} {cell : String} {tokens : List CellToken} {r : Region}
    (h : d.regionOf cell tokens = .ok r) :
    (∀ t ∈ tokens, d.Resolves t) ∧ IsExpression (tokens.flatMap d.block) r := by
  unfold regionOf at h
  cases htext : d.regionText cell tokens with
  | error fault => simp [htext, Except.bind] at h
  | ok text =>
    obtain ⟨hspelled, hresolves⟩ := spelled_of_regionText htext
    simp only [htext, Except.bind, Region.ofExpression] at h
    split at h
    · next region hread =>
      obtain rfl := Except.ok.inj h
      exact ⟨hresolves, (hspelled.read_eq_ok_iff.1 hread).2⟩
    · simp at h

/-- The numbers in the block of a name are those of the surfaces that it stands for. -/
theorem number_mem_entryBlock_iff {negative : Bool} {entry : SurfaceEntry} {id : Nat} :
    (∃ side, .number ⟨id, side⟩ ∈ entryBlock negative entry) ↔ id ∈ entry.surfaces := by
  cases entry with
  | primitive other => simp [entryBlock, SurfaceEntry.surfaces]
  | composite faces =>
    have hinside (h : Halfspace) :
        .number h ∈ entryBlock negative (.composite faces) ↔ h ∈ faces.inside := by
      cases negative <;> simp [entryBlock]
    show _ ↔ id ∈ faces.faces
    rw [← faces.map_surface_inside, List.mem_map]
    constructor
    · rintro ⟨side, hmem⟩
      exact ⟨⟨id, side⟩, (hinside _).1 hmem, rfl⟩
    · rintro ⟨h, hmem, rfl⟩
      exact ⟨h.side, (hinside h).2 hmem⟩
  | infinite => simp [entryBlock, SurfaceEntry.surfaces]

theorem number_mem_block_iff {d : Draft K} {t : CellToken} {id : Nat} :
    (∃ side, .number ⟨id, side⟩ ∈ d.block t) ↔ id ∈ d.surfacesNamed [t] := by
  cases t with
  | surface negative name =>
    show _ ↔ id ∈ d.surfacesOf name ++ []
    rw [List.append_nil]
    unfold surfacesOf
    cases hentry : d.entries.find? name with
    | none => simp [block, hentry]
    | some entry =>
      rw [block_surface negative hentry]
      exact number_mem_entryBlock_iff
  | _ => simp [block, surfacesNamed]

theorem named_of_mem_surfacesNamed {d : Draft K} {tokens : List CellToken} {id : Nat}
    (h : id ∈ d.surfacesNamed tokens) : d.Named id := by
  obtain ⟨token, -, hid⟩ := List.mem_flatMap.1 h
  cases token with
  | surface negative name =>
    simp only [surfacesOf] at hid
    split at hid
    · next entry hentry => exact ⟨name, entry, hentry, hid⟩
    · simp at hid
  | _ => simp at hid

theorem mem_surfacesNamed_iff {d : Draft K} {tokens : List CellToken} {id : Nat} :
    id ∈ d.surfacesNamed tokens ↔ ∃ t ∈ tokens, id ∈ d.surfacesNamed [t] := by
  simp [surfacesNamed]

/-- The region of an expression is bounded by the surfaces that the expression names. -/
theorem mem_surfaces_of_regionOf {d : Draft K} {cell : String} {tokens : List CellToken}
    {r : Region} (h : d.regionOf cell tokens = .ok r) {id : Nat} :
    id ∈ r.surfaces ↔ id ∈ d.surfacesNamed tokens := by
  rw [(regionOf_eq_ok h).2.mem_surfaces_iff, mem_surfacesNamed_iff]
  simp only [← number_mem_block_iff, List.mem_flatMap]
  constructor
  · rintro ⟨side, t, ht, hmem⟩
    exact ⟨t, ht, side, hmem⟩
  · rintro ⟨t, ht, side, hmem⟩
    exact ⟨side, t, ht, hmem⟩

theorem named_of_regionOf {d : Draft K} {cell : String} {tokens : List CellToken} {r : Region}
    (h : d.regionOf cell tokens = .ok r) {id : Nat} (hid : id ∈ r.surfaces) : d.Named id :=
  named_of_mem_surfacesNamed ((mem_surfaces_of_regionOf h).1 hid)

/-- An expression whose names can be resolved has a region, if no number that it names is too large
    to be read. -/
theorem regionOf_of_fits {d : Draft K} {tokens : List CellToken} {r : Region}
    (hfit : ∀ id ∈ d.surfacesNamed tokens, id ≤ Text.max32) (cell : String)
    (hresolves : ∀ t ∈ tokens, d.Resolves t) (h : IsExpression (tokens.flatMap d.block) r) :
    d.regionOf cell tokens = .ok r := by
  obtain ⟨text, htext⟩ := exists_regionText cell hresolves
  have hfits : ∀ t ∈ tokens.flatMap d.block, t.fits = true := by
    intro t ht
    obtain ⟨c, hc, ht⟩ := List.mem_flatMap.1 ht
    cases t with
    | number h =>
      have hnamed : h.surface ∈ d.surfacesNamed tokens :=
        mem_surfacesNamed_iff.2 ⟨c, hc, number_mem_block_iff.1 ⟨h.side, ht⟩⟩
      simpa [Token.fits] using hfit h.surface hnamed
    | _ => rfl
  have hread := (spelled_of_regionText htext).1.read_eq_ok_iff.2 ⟨hfits, h⟩
  simp [regionOf, htext, Except.bind, Region.ofExpression, hread]

theorem regionOf_of_isExpression {d : Draft K} {tokens : List CellToken} {r : Region}
    (hfit : d.EntriesFit) (cell : String) (hresolves : ∀ t ∈ tokens, d.Resolves t)
    (h : IsExpression (tokens.flatMap d.block) r) : d.regionOf cell tokens = .ok r :=
  regionOf_of_fits (fun id hid => hfit id (named_of_mem_surfacesNamed hid)) cell hresolves h

/-- A name alone is an expression for the region on its side. -/
theorem regionOf_surface {d : Draft K} {name : String} {entry : SurfaceEntry} (cell : String)
    (negative : Bool) (hentry : d.entries.find? name = some entry) (hne : entry ≠ .infinite)
    (hfit : ∀ id ∈ entry.surfaces, id ≤ Text.max32) :
    d.regionOf cell [.surface negative name] = .ok (entryRegion negative entry) := by
  apply regionOf_of_fits
  · intro id hid
    apply hfit
    simpa [surfacesNamed, surfacesOf, hentry] using hid
  · intro t ht
    rw [List.mem_singleton.1 ht]
    exact ⟨entry, hentry, hne⟩
  · have hoperand := isOperand_entryBlock negative hne
    simp only [List.flatMap_cons, List.flatMap_nil, List.append_nil, block_surface negative hentry]
    exact ⟨_, .single (.single hoperand), rfl⟩

end SerpentCsg.Draft
