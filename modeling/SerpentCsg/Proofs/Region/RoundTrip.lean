import SerpentCsg.Proofs.Region.Spelling
import SerpentCsg.Proofs.Region.Surfaces

/-! # Region Expressions Are Read Back

  The expression of a region is read as the region again, in both spellings: with a sign before
  every number, and without the sign of positive half-spaces.

  Nothing is written about a combination of a single part, so it is read as that part. Apart from
  that the region is the same, and it is exactly the same if every combination has two parts or
  more, as every region has that was read from an expression.
-/

namespace SerpentCsg.Region

open Text

/-! ### Parts of combinations -/

mutual

/-- Every intersection and every union in the region has at least so many parts. -/
def hasParts (least : Nat) : Region → Bool
  | halfspace _ => true
  | intersection parts => decide (least ≤ parts.length) && allHaveParts least parts
  | union parts => decide (least ≤ parts.length) && allHaveParts least parts
  | complement part => part.hasParts least

/-- The same for each of some regions. -/
def allHaveParts (least : Nat) : List Region → Bool
  | [] => true
  | part :: parts => part.hasParts least && allHaveParts least parts

end

@[simp] theorem allHaveParts_eq_all (least : Nat) (parts : List Region) :
    allHaveParts least parts = parts.all (hasParts least) := by
  induction parts with
  | nil => rfl
  | cons part parts ih => rw [allHaveParts, ih, List.all_cons]

mutual

/-- The region with every combination of a single part replaced by that part. -/
def collapsed : Region → Region
  | halfspace h => halfspace h
  | intersection parts => combine intersection (collapsedAll parts)
  | union parts => combine union (collapsedAll parts)
  | complement part => complement part.collapsed

/-- Some regions, each of them collapsed. -/
def collapsedAll : List Region → List Region
  | [] => []
  | part :: parts => part.collapsed :: collapsedAll parts

end

@[simp] theorem collapsedAll_eq_map (parts : List Region) :
    collapsedAll parts = parts.map collapsed := by
  induction parts with
  | nil => rfl
  | cons part parts ih => rw [collapsedAll, ih, List.map_cons]

/-! ### What collapsing keeps -/

theorem halfspaces_collapsed (r : Region) : r.collapsed.halfspaces = r.halfspaces := by
  induction r using induction_parts with
  | halfspace h => rfl
  | intersection parts ih | union parts ih =>
    simp only [collapsed, collapsedAll_eq_map, halfspaces_combine_intersection,
      halfspaces_combine_union, halfspaces, halfspacesOf_eq_flatMap, List.flatMap_map]
    exact List.flatMap_congr ih
  | complement part ih => simpa only [collapsed, halfspaces] using ih

theorem surfaces_collapsed (r : Region) : r.collapsed.surfaces = r.surfaces := by
  unfold surfaces
  rw [halfspaces_collapsed]

theorem contains_collapsed {K : Type} [Scalar K] (table : Table Nat (Surface K)) (p : Vec3 K)
    (r : Region) : r.collapsed.contains table p = r.contains table p := by
  induction r using induction_parts with
  | halfspace h => rfl
  | intersection parts ih | union parts ih =>
    have hparts : (parts.map collapsed).map (fun part => part.contains table p) =
        parts.map fun part => part.contains table p := by
      rw [List.map_map]
      exact List.map_congr_left ih
    simp only [collapsed, collapsedAll_eq_map, contains_combine_intersection,
      contains_combine_union, contains, hparts]
  | complement part ih => simp only [collapsed, contains, ih]

/-- Where every combination has two parts or more, there is nothing to collapse. -/
theorem collapsed_eq_self {r : Region} (h : r.hasParts 2 = true) : r.collapsed = r := by
  induction r using induction_parts with
  | halfspace h => rfl
  | intersection parts ih | union parts ih =>
    simp only [hasParts, allHaveParts_eq_all, Bool.and_eq_true, decide_eq_true_eq,
      List.all_eq_true] at h
    obtain ⟨hlength, hparts⟩ := h
    have hmap : parts.map collapsed = parts := by
      rw [List.map_congr_left fun part hpart => ih part hpart (hparts part hpart)]
      exact List.map_id' parts
    rw [collapsed, collapsedAll_eq_map, hmap, combine_of_two_le _ hlength]
  | complement part ih => rw [collapsed, ih h]

theorem hasParts_of_le {least more : Nat} (hle : least ≤ more) {r : Region}
    (h : r.hasParts more = true) : r.hasParts least = true := by
  induction r using induction_parts with
  | halfspace h => rfl
  | intersection parts ih | union parts ih =>
    simp only [hasParts, allHaveParts_eq_all, Bool.and_eq_true, decide_eq_true_eq,
      List.all_eq_true] at h ⊢
    exact ⟨Nat.le_trans hle h.1, fun part hpart => ih part hpart (h.2 part hpart)⟩
  | complement part ih => exact ih h

theorem hasParts_renumber (f : Nat → Nat) (least : Nat) (r : Region) :
    (r.renumber f).hasParts least = r.hasParts least := by
  induction r using induction_parts with
  | halfspace h => rfl
  | intersection parts ih | union parts ih =>
    have hparts : (parts.map (renumber f)).all (hasParts least) = parts.all (hasParts least) := by
      rw [List.all_map, Bool.eq_iff_iff, List.all_eq_true, List.all_eq_true]
      exact forall₂_congr fun part hpart => by rw [Function.comp_apply, ih part hpart]
    simp only [renumber, renumberAll_eq_map, hasParts, allHaveParts_eq_all, List.length_map,
      hparts]
  | complement part ih => simpa only [renumber, hasParts] using ih

/-! ### Regions of expressions -/

private theorem hasParts_combine {make : List Region → Region} {parts : List Region}
    (hmake : ∀ parts : List Region, 2 ≤ parts.length → (∀ part ∈ parts, part.hasParts 2 = true) →
      (make parts).hasParts 2 = true)
    (hne : parts ≠ []) (h : ∀ part ∈ parts, part.hasParts 2 = true) :
    (combine make parts).hasParts 2 = true := by
  rcases parts with - | ⟨first, - | ⟨second, others⟩⟩
  · exact absurd rfl hne
  · exact h first (List.mem_singleton_self first)
  · exact hmake _ (by simp) h

private theorem hasParts_combine_intersection {parts : List Region} (hne : parts ≠ [])
    (h : ∀ part ∈ parts, part.hasParts 2 = true) :
    (combine .intersection parts).hasParts 2 = true := by
  refine hasParts_combine (fun parts hlength hparts => ?_) hne h
  simpa [hasParts, hlength] using hparts

private theorem hasParts_combine_union {parts : List Region} (hne : parts ≠ [])
    (h : ∀ part ∈ parts, part.hasParts 2 = true) :
    (combine .union parts).hasParts 2 = true := by
  refine hasParts_combine (fun parts hlength hparts => ?_) hne h
  simpa [hasParts, hlength] using hparts

-- By recursion on the derivation. A sequence has at least one part.
mutual

theorem IsOperand.hasParts {ts : List Token} {r : Region} (h : IsOperand ts r) :
    r.hasParts 2 = true := by
  match h with
  | .number h => rfl
  | .complement hpart => exact hpart.hasParts
  | .group hparts => exact hasParts_combine_union hparts.hasParts.1 hparts.hasParts.2
termination_by structural h

theorem IsIntersection.hasParts {ts : List Token} {parts : List Region}
    (h : IsIntersection ts parts) : parts ≠ [] ∧ ∀ part ∈ parts, part.hasParts 2 = true := by
  match h with
  | .single hpart => exact ⟨by simp, List.forall_mem_singleton.2 hpart.hasParts⟩
  | .beside hpart hparts | .ampersand hpart hparts =>
    exact ⟨by simp, List.forall_mem_cons.2 ⟨hpart.hasParts, hparts.hasParts.2⟩⟩
termination_by structural h

theorem IsUnion.hasParts {ts : List Token} {parts : List Region} (h : IsUnion ts parts) :
    parts ≠ [] ∧ ∀ part ∈ parts, part.hasParts 2 = true := by
  match h with
  | .single hparts =>
    have hpart := hasParts_combine_intersection hparts.hasParts.1 hparts.hasParts.2
    exact ⟨by simp, List.forall_mem_singleton.2 hpart⟩
  | .bar hparts hunion =>
    have hpart := hasParts_combine_intersection hparts.hasParts.1 hparts.hasParts.2
    exact ⟨by simp, List.forall_mem_cons.2 ⟨hpart, hunion.hasParts.2⟩⟩
termination_by structural h

end

theorem IsExpression.hasParts {ts : List Token} {r : Region} (h : IsExpression ts r) :
    r.hasParts 2 = true := by
  obtain ⟨parts, hparts, rfl⟩ := h
  exact hasParts_combine_union hparts.hasParts.1 hparts.hasParts.2

theorem ofExpression_eq_ok_iff {expression : String} {r : Region} :
    ofExpression expression = .ok r ↔ read expression.toList = .ok r := by
  unfold ofExpression
  cases read expression.toList <;> simp

/-- Every combination in a region that was read has two parts or more. -/
theorem hasParts_of_ofExpression {expression : String} {r : Region}
    (h : ofExpression expression = .ok r) : r.hasParts 2 = true := by
  obtain ⟨ts, -, hexpression⟩ := read_eq_ok_iff.1 (ofExpression_eq_ok_iff.1 h)
  exact hexpression.hasParts

/-! ### Tokens of a region -/

/-- Tokens in parentheses, if a condition holds. -/
def enclosedTokens (condition : Bool) (ts : List Token) : List Token :=
  if condition then .opening :: (ts ++ [.closing]) else ts

mutual

/-- The tokens that a region is written with. -/
def written : Region → List Token
  | halfspace h => [.number h]
  | intersection parts => (partsWritten isCombination parts).flatten
  | union parts => [.bar].intercalate (partsWritten isUnion parts)
  | complement part => .tilde :: enclosedTokens true part.written

/-- The tokens of some regions, with parentheses around those of a kind. -/
def partsWritten (inParentheses : Region → Bool) : List Region → List (List Token)
  | [] => []
  | part :: parts =>
    enclosedTokens (inParentheses part) part.written :: partsWritten inParentheses parts

end

@[simp] theorem partsWritten_eq_map (inParentheses : Region → Bool) (parts : List Region) :
    partsWritten inParentheses parts =
      parts.map fun part => enclosedTokens (inParentheses part) part.written := by
  induction parts with
  | nil => rfl
  | cons part parts ih => rw [partsWritten, ih, List.map_cons]

/-- The tokens of a region are an expression for a region. If it is no union they are an
    intersection as they are; and they are an operand as they stand in an intersection. -/
structure WrittenAs (r collapsed : Region) : Prop where
  expression : IsExpression r.written collapsed
  intersection : r.isUnion = false →
    ∃ parts, IsIntersection r.written parts ∧ combine .intersection parts = collapsed
  operand : IsOperand (enclosedTokens r.isCombination r.written) collapsed

theorem isExpression_of_isIntersection {ts : List Token} {parts : List Region}
    (h : IsIntersection ts parts) : IsExpression ts (combine .intersection parts) :=
  ⟨_, .single h, rfl⟩

theorem isOperand_of_isExpression {ts : List Token} {r : Region} (h : IsExpression ts r) :
    IsOperand (enclosedTokens true ts) r := by
  obtain ⟨parts, hparts, rfl⟩ := h
  exact .group hparts

/-- What is an operand without parentheses is written as anything. -/
theorem writtenAs_of_isOperand {r collapsed : Region} (hplain : r.isCombination = false)
    (h : IsOperand r.written collapsed) : WrittenAs r collapsed where
  expression := isExpression_of_isIntersection (.single h)
  intersection _ := ⟨[collapsed], .single h, rfl⟩
  operand := by
    rw [hplain]
    exact h

/-- Operands side by side, for parts that are written as they stand in an intersection. -/
private theorem isIntersection_parts {parts : List Region} (hne : parts ≠ [])
    (h : ∀ part ∈ parts, WrittenAs part part.collapsed) :
    IsIntersection (partsWritten isCombination parts).flatten (parts.map collapsed) := by
  induction parts with
  | nil => exact absurd rfl hne
  | cons first others ih =>
    rw [List.forall_mem_cons] at h
    have hfirst := h.1.operand
    cases others with
    | nil => simpa using IsIntersection.single hfirst
    | cons second others => exact .beside hfirst (ih (by simp) h.2)

/-- A part of a union is an intersection, in parentheses or not. -/
private theorem isIntersection_of_writtenAs {part collapsed : Region}
    (h : WrittenAs part collapsed) :
    ∃ parts, IsIntersection (enclosedTokens part.isUnion part.written) parts ∧
      combine .intersection parts = collapsed := by
  cases hunion : part.isUnion with
  | false => exact h.intersection hunion
  | true => exact ⟨[collapsed], .single (isOperand_of_isExpression h.expression), rfl⟩

private theorem isUnion_parts {parts : List Region} (hne : parts ≠ [])
    (h : ∀ part ∈ parts, WrittenAs part part.collapsed) :
    IsUnion ([.bar].intercalate (partsWritten isUnion parts)) (parts.map collapsed) := by
  induction parts with
  | nil => exact absurd rfl hne
  | cons first others ih =>
    rw [List.forall_mem_cons] at h
    obtain ⟨operands, hoperands, hcombined⟩ := isIntersection_of_writtenAs h.1
    rw [List.map_cons, ← hcombined]
    cases others with
    | nil => simpa using IsUnion.single hoperands
    | cons second others =>
      have hrest := IsUnion.bar hoperands (ih (by simp) h.2)
      simpa only [partsWritten, List.intercalate_cons_cons, List.append_assoc,
        List.singleton_append] using hrest

/-- A region whose combinations all have parts is written as what it collapses to. -/
theorem writtenAs_collapsed {r : Region} (h : r.hasParts 1 = true) : WrittenAs r r.collapsed := by
  -- By induction on the region: parentheses stand wherever a part is no operand by itself.
  induction r using induction_parts with
  | halfspace => exact writtenAs_of_isOperand rfl (.number _)
  | intersection parts ih =>
    simp only [hasParts, allHaveParts_eq_all, Bool.and_eq_true, decide_eq_true_eq,
      List.all_eq_true] at h
    have hne := List.ne_nil_of_length_pos h.1
    have hoperands := isIntersection_parts hne fun part hpart => ih part hpart (h.2 part hpart)
    have hcollapsed :
        combine intersection (parts.map collapsed) = (intersection parts).collapsed := by
      rw [collapsed, collapsedAll_eq_map]
    have hexpression :
        IsExpression (intersection parts).written (intersection parts).collapsed := by
      rw [written, ← hcollapsed]
      exact isExpression_of_isIntersection hoperands
    exact ⟨hexpression, fun _ => ⟨_, by rwa [written], hcollapsed⟩,
      isOperand_of_isExpression hexpression⟩
  | union parts ih =>
    simp only [hasParts, allHaveParts_eq_all, Bool.and_eq_true, decide_eq_true_eq,
      List.all_eq_true] at h
    have hne := List.ne_nil_of_length_pos h.1
    have hunion := isUnion_parts hne fun part hpart => ih part hpart (h.2 part hpart)
    have hexpression : IsExpression (union parts).written (union parts).collapsed :=
      ⟨_, by simpa only [written] using hunion, by simp only [collapsed, collapsedAll_eq_map]⟩
    exact ⟨hexpression, fun hplain => absurd hplain (by simp [isUnion]),
      isOperand_of_isExpression hexpression⟩
  | complement part ih =>
    have hpart := isOperand_of_isExpression (ih h).expression
    exact writtenAs_of_isOperand rfl (by simpa only [written, collapsed] using hpart.complement)

/-! ### Text of a region -/

theorem filter_intercalate {α : Type} (p : α → Bool) (sep : List α) (l : List (List α)) :
    (sep.intercalate l).filter p = (sep.filter p).intercalate (l.map (List.filter p)) := by
  induction l with
  | nil => rfl
  | cons first rest ih =>
    cases rest with
    | nil => simp
    | cons second rest =>
      simp only [List.map_cons, List.intercalate_cons_cons, List.filter_append] at ih ⊢
      rw [ih]

/-- Some plus signs may be left out, and nothing else. -/
def KeepsAllButPlus (keep : Char → Bool) : Prop := ∀ c, c ≠ '+' → keep c = true

theorem ne_plus_of_isDigit {c : Char} (h : isDigit c = true) : c ≠ '+' := by
  rintro rfl
  exact absurd h (by decide)

/-- A number without a sign is on the positive side. -/
theorem Writes.unsigned (n : Nat) : Writes n.repr.toList [.number ⟨n, .positive⟩] := by
  intro s us hs hends
  have hspelled := Spelled.number .unsigned (repr_toList_ne_nil n)
    (fun _ hc => isDigit_of_mem_repr hc) hends hs
  rwa [digitsValue_repr] at hspelled

section Writing

variable {keep : Char → Bool}

private theorem writes_halfspace (hkeep : KeepsAllButPlus keep) (h : Halfspace) :
    Writes ((halfspace h).chars.filter keep) [.number h] := by
  have hdigits : h.surface.repr.toList.filter keep = h.surface.repr.toList :=
    List.filter_eq_self.2 fun c hc => hkeep c (ne_plus_of_isDigit (isDigit_of_mem_repr hc))
  obtain ⟨n, side⟩ := h
  simp only [chars]
  cases side with
  | negative =>
    rw [List.filter_cons_of_pos (hkeep _ (by decide)), hdigits]
    exact Writes.number n .negative
  | positive =>
    by_cases hplus : keep '+' = true
    · rw [List.filter_cons_of_pos (by exact hplus), hdigits]
      exact Writes.number n .positive
    · rw [List.filter_cons_of_neg (by exact hplus), hdigits]
      exact Writes.unsigned n

private theorem writes_enclosed (hkeep : KeepsAllButPlus keep) (condition : Bool)
    {text : List Char} {ts : List Token} (h : Writes (text.filter keep) ts) :
    Writes ((enclosed condition text).filter keep) (enclosedTokens condition ts) := by
  cases condition with
  | false => exact h
  | true =>
    have hgroup := (h.append_symbol (t := .closing) rfl).cons_symbol (t := .opening) rfl
    have hopening : keep '(' = true := hkeep _ (by decide)
    have hclosing : keep ')' = true := hkeep _ (by decide)
    simpa [enclosed, enclosedTokens, hopening, hclosing] using hgroup

private theorem writes_parts (hkeep : KeepsAllButPlus keep) (inParentheses : Region → Bool)
    {parts : List Region} (h : ∀ part ∈ parts, Writes (part.chars.filter keep) part.written) :
    List.Forall₂ Writes ((partChars inParentheses parts).map (List.filter keep))
      (partsWritten inParentheses parts) := by
  rw [partChars_eq_map, partsWritten_eq_map, List.map_map, List.forall₂_map_left_iff,
    List.forall₂_map_right_iff, List.forall₂_same]
  intro part hpart
  exact writes_enclosed hkeep _ (h part hpart)

/-- The expression of a region writes its tokens, with or without plus signs. -/
theorem writes_chars (hkeep : KeepsAllButPlus keep) (r : Region) :
    Writes (r.chars.filter keep) r.written := by
  have hspace : [' '].filter keep = [' '] := List.filter_eq_self.2 (by simp [hkeep ' ' (by decide)])
  have hbar : [' ', '|', ' '].filter keep = [' ', '|', ' '] :=
    List.filter_eq_self.2 (by simp [hkeep ' ' (by decide), hkeep '|' (by decide)])
  induction r using induction_parts with
  | halfspace h => exact writes_halfspace hkeep h
  | intersection parts ih =>
    have hwrites := Writes.intercalate separates_space (writes_parts hkeep isCombination ih)
    rw [chars, filter_intercalate, hspace, written, ← intercalate_nil_sep]
    exact hwrites
  | union parts ih =>
    have hwrites := Writes.intercalate separates_bar (writes_parts hkeep isUnion ih)
    rw [chars, filter_intercalate, hbar, written]
    exact hwrites
  | complement part ih =>
    have hwrites := (writes_enclosed hkeep true ih).cons_symbol (t := .tilde) rfl
    rw [chars, List.filter_cons_of_pos (hkeep _ (by decide)), written]
    exact hwrites

/-- Both spellings of a region are read as what it collapses to. -/
theorem read_chars (hkeep : KeepsAllButPlus keep) {r : Region} (hparts : r.hasParts 1 = true)
    (hfits : ∀ id ∈ r.surfaces, id ≤ max32) : read (r.chars.filter keep) = .ok r.collapsed := by
  have hexpression := (writtenAs_collapsed hparts).expression
  refine (writes_chars hkeep r).spelled.read_eq_ok_iff.2 ⟨?_, hexpression⟩
  intro t ht
  cases t with
  | number h =>
    -- The numbers that are written are those of the region.
    have hmem : h ∈ r.halfspaces := by
      rw [← halfspaces_collapsed, hexpression.halfspaces_eq]
      exact mem_numbers.2 ht
    simpa [Token.fits] using hfits h.surface (mem_surfaces.2 ⟨h, hmem, rfl⟩)
  | _ => rfl

end Writing

/-! ### Reading back -/

/-- A region without empty combinations is read back from its expression, in both spellings, with
    combinations of a single part collapsed. That changes neither its surfaces nor the points in
    it, and nothing at all if every combination has two parts or more, which is so for every
    region that was read. -/
theorem ofExpression_text {r : Region} (hparts : r.hasParts 1 = true)
    (hfits : ∀ id ∈ r.surfaces, id ≤ max32) :
    ofExpression r.text = .ok r.collapsed ∧ ofExpression r.unsignedText = .ok r.collapsed ∧
    r.collapsed.surfaces = r.surfaces ∧
    (∀ (K : Type) [Scalar K] (table : Table Nat (Surface K)) (p : Vec3 K),
      r.collapsed.contains table p = r.contains table p) ∧
    (r.hasParts 2 = true → r.collapsed = r) ∧
    ∀ expression q, ofExpression expression = .ok q → q.hasParts 2 = true := by
  have hsigned : KeepsAllButPlus fun _ => true := fun _ _ => rfl
  have hunsigned : KeepsAllButPlus (· != '+') := fun c hc => by simpa using hc
  refine ⟨?_, ?_, surfaces_collapsed r, fun K _ table p => contains_collapsed table p r,
    collapsed_eq_self, fun expression q => hasParts_of_ofExpression⟩
  · rw [ofExpression_eq_ok_iff, text, String.toList_ofList]
    simpa using read_chars hsigned hparts hfits
  · rw [ofExpression_eq_ok_iff, unsignedText, String.toList_ofList]
    exact read_chars hunsigned hparts hfits

/-- A union in an intersection in a union, with single parts in two places. -/
def nestedRegion : Region :=
  .union [.intersection [.union [.halfspace ⟨1, .negative⟩, .halfspace ⟨2, .positive⟩]],
    .intersection [.halfspace ⟨30, .positive⟩, .intersection [.halfspace ⟨4, .positive⟩],
      .complement (.union [.halfspace ⟨1, .positive⟩])]]

/-- It is written as `(-1 | +2) | +30 (+4) ~(+1)`, and loses its single parts when it is read. -/
theorem ofExpression_text_nested :
    nestedRegion.hasParts 1 = true ∧ (∀ id ∈ nestedRegion.surfaces, id ≤ max32) ∧
    nestedRegion.text = "(-1 | +2) | +30 (+4) ~(+1)" ∧
    nestedRegion.unsignedText = "(-1 | 2) | 30 (4) ~(1)" ∧
    ofExpression nestedRegion.text = .ok nestedRegion.collapsed ∧
    ofExpression nestedRegion.unsignedText = .ok nestedRegion.collapsed ∧
    nestedRegion.collapsed = .union [.union [.halfspace ⟨1, .negative⟩, .halfspace ⟨2, .positive⟩],
      .intersection [.halfspace ⟨30, .positive⟩, .halfspace ⟨4, .positive⟩,
        .complement (.halfspace ⟨1, .positive⟩)]] := by
  have hparts : nestedRegion.hasParts 1 = true := by decide
  have hfits : ∀ id ∈ nestedRegion.surfaces, id ≤ max32 := by decide +kernel
  obtain ⟨htext, hunsigned, -⟩ := ofExpression_text hparts hfits
  exact ⟨hparts, hfits, by decide +kernel, by decide +kernel, htext, hunsigned, rfl⟩

end SerpentCsg.Region
