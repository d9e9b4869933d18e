import SerpentCsg.Proofs.Cell.Blocks
import SerpentCsg.Scalar.Binary64

/-! # Regions of Cells

  A surface expression is put into numbers and read again as a region expression, by a grammar of
  its own. Here it is shown that nothing of its structure is lost on the way:

  - a derivation of the surface expression gives one of its blocks, with the same meaning;
  - a derivation of the blocks comes from one of the surface expression, since operands end where
    blocks end.
-/

namespace SerpentCsg.Draft

open Card (CellToken Formula IsFactor IsTerm IsFormula)
open Region (Token IsOperand IsIntersection IsUnion combine)

variable {K : Type}

/-! ### From the surface expression to its blocks -/

section Meaning

variable [Scalar K]

/-- The region of a name contains the points on its side. -/
theorem contains_entryRegion {d : Draft K} {name : String} {entry : SurfaceEntry}
    (negative : Bool) (p : Vec3 K) (hentry : d.entries.find? name = some entry)
    (hne : entry ≠ .infinite) :
    (entryRegion negative entry).contains d.surfaces p = d.onSide p negative name := by
  unfold onSide
  rw [hentry]
  cases entry with
  | primitive id =>
    cases hfind : d.surfaces.find? id <;> cases negative <;>
      simp [entryRegion, sideOf, Region.contains, Halfspace.contains, hfind]
  | composite faces =>
    have hinside : faces.region.contains d.surfaces p =
        faces.inside.all fun h => h.contains d.surfaces p := by
      simp [Composite.region, Region.contains, Function.comp_def, List.and]
    cases negative <;> simp [entryRegion, Region.contains, hinside]
  | infinite => exact absurd rfl hne

-- By recursion on the formula; the kinds of sequences with the same formula are ordered by the
-- number of tokens and then by kind, as a group has more tokens than what is in it.
mutual

/-- A factor gives an operand with the same meaning. -/
theorem isOperand_of_isFactor {d : Draft K} {ts : List CellToken} {f : Formula}
    (h : IsFactor ts f) (hresolves : ∀ t ∈ ts, d.Resolves t) :
    ∃ r, IsOperand (ts.flatMap d.block) r ∧
      ∀ p, r.contains d.surfaces p = f.holds (d.onSide p) := by
  cases h with
  | surface negative name =>
    obtain ⟨entry, hentry, hne⟩ := hresolves (.surface negative name) (by simp)
    refine ⟨entryRegion negative entry, ?_, fun p => contains_entryRegion negative p hentry hne⟩
    simpa [block_surface negative hentry] using isOperand_entryBlock negative hne
  | @complement ts f hpart =>
    rw [List.forall_mem_cons] at hresolves
    obtain ⟨r, hr, hmeaning⟩ := isOperand_of_isFactor hpart hresolves.2
    refine ⟨.complement r, ?_, fun p => by simp [Region.contains, Formula.holds, hmeaning p]⟩
    simpa [block] using IsOperand.complement hr
  | @group ts f hparts =>
    rw [List.forall_mem_cons, List.forall_mem_append] at hresolves
    obtain ⟨parts, hunion, hmeaning⟩ := isUnion_of_isFormula hparts hresolves.2.1
    refine ⟨combine .union parts, ?_, fun p => by simp [hmeaning p]⟩
    simpa [block] using IsOperand.group hunion
termination_by (sizeOf f, ts.length, 0)

theorem isIntersection_of_isTerm {d : Draft K} {ts : List CellToken} {f : Formula}
    (h : IsTerm ts f) (hresolves : ∀ t ∈ ts, d.Resolves t) :
    ∃ parts, IsIntersection (ts.flatMap d.block) parts ∧
      ∀ p, (parts.map fun part => part.contains d.surfaces p).and = f.holds (d.onSide p) := by
  cases h with
  | single hfactor =>
    obtain ⟨r, hr, hmeaning⟩ := isOperand_of_isFactor hfactor hresolves
    exact ⟨[r], .single hr, fun p => by simp [hmeaning p]⟩
  | beside hfactor hterm =>
    rw [List.forall_mem_append] at hresolves
    obtain ⟨r, hr, hfirst⟩ := isOperand_of_isFactor hfactor hresolves.1
    obtain ⟨parts, hparts, hrest⟩ := isIntersection_of_isTerm hterm hresolves.2
    rw [List.flatMap_append]
    exact ⟨r :: parts, .beside hr hparts, fun p => by simp [Formula.holds, hfirst p, hrest p]⟩
termination_by (sizeOf f, ts.length, 1)

theorem isUnion_of_isFormula {d : Draft K} {ts : List CellToken} {f : Formula}
    (h : IsFormula ts f) (hresolves : ∀ t ∈ ts, d.Resolves t) :
    ∃ parts, IsUnion (ts.flatMap d.block) parts ∧
      ∀ p, (parts.map fun part => part.contains d.surfaces p).or = f.holds (d.onSide p) := by
  cases h with
  | single hterm =>
    obtain ⟨parts, hparts, hmeaning⟩ := isIntersection_of_isTerm hterm hresolves
    exact ⟨_, .single hparts, fun p => by simp [hmeaning p]⟩
  | @union ts us f g hterm hformula =>
    rw [List.forall_mem_append, List.forall_mem_cons] at hresolves
    obtain ⟨parts, hparts, hfirst⟩ := isIntersection_of_isTerm hterm hresolves.1
    obtain ⟨others, hothers, hrest⟩ := isUnion_of_isFormula hformula hresolves.2.2
    refine ⟨combine .intersection parts :: others, ?_, fun p => ?_⟩
    · simpa [block] using IsUnion.bar hparts hothers
    · simp [Formula.holds, hfirst p, hrest p]
termination_by (sizeOf f, ts.length, 2)

end

end Meaning

/-! ### From the blocks back to the surface expression -/

/-- A closing parenthesis, a bar or an ampersand is written by the token of the same meaning only,
    as no block starts with it. -/
theorem exists_separator {d : Draft K} {ts : List CellToken} {t : Token} {us : List Token}
    (hresolves : ∀ t ∈ ts, d.Resolves t) (h : ts.flatMap d.block = t :: us)
    (ht : t = .closing ∨ t = .bar ∨ t = .ampersand) :
    ∃ c rest, ts = c :: rest ∧ rest.flatMap d.block = us ∧
      (c = .closing ∧ t = .closing ∨ c = .union ∧ t = .bar) := by
  cases ts with
  | nil => simp at h
  | cons c rest =>
    rw [List.flatMap_cons] at h
    cases c with
    | surface negative name =>
      obtain ⟨entry, hentry, hne⟩ := hresolves _ List.mem_cons_self
      obtain ⟨t', us', hblock, h₁, h₂, h₃⟩ := (isOperand_entryBlock negative hne).head
      rw [block_surface negative hentry, hblock, List.cons_append, List.cons.injEq] at h
      obtain ⟨rfl, -⟩ := h
      simp_all
    | closing =>
      simp only [block, List.cons_append, List.nil_append, List.cons.injEq] at h
      exact ⟨_, rest, rfl, h.2, .inl ⟨rfl, h.1.symm⟩⟩
    | union =>
      simp only [block, List.cons_append, List.nil_append, List.cons.injEq] at h
      exact ⟨_, rest, rfl, h.2, .inr ⟨rfl, h.1.symm⟩⟩
    | opening | complement =>
      simp only [block, List.cons_append, List.nil_append, List.cons.injEq] at h
      obtain ⟨rfl, -⟩ := h
      simp at ht

/-- Nothing is written by nothing only. -/
theorem eq_nil_of_blocks {d : Draft K} {ts : List CellToken} (hresolves : ∀ t ∈ ts, d.Resolves t)
    (h : ts.flatMap d.block = []) : ts = [] := by
  cases ts with
  | nil => rfl
  | cons c ts =>
    obtain ⟨hblock, -⟩ := List.append_eq_nil_iff.1 (List.flatMap_cons ▸ h)
    cases c with
    | surface negative name =>
      obtain ⟨entry, hentry, hne⟩ := hresolves _ List.mem_cons_self
      obtain ⟨t, us, hhead, -⟩ := (isOperand_entryBlock negative hne).head
      rw [block_surface negative hentry, hhead] at hblock
      simp at hblock
    | _ => simp [block] at hblock

-- By recursion on the number of tokens that the derivation takes. The first token of the derivation
-- tells what the first token of the expression is.
mutual

/-- An operand in front of the blocks is a factor in front of the tokens. -/
theorem isFactor_of_isOperand {d : Draft K} {ts : List CellToken} {us vs : List Token} {r : Region}
    (h : IsOperand us r) (hresolves : ∀ t ∈ ts, d.Resolves t) (he : ts.flatMap d.block = us ++ vs) :
    ∃ front back f, ts = front ++ back ∧ back.flatMap d.block = vs ∧ IsFactor front f := by
  obtain ⟨t, us', rfl, h₁, h₂, h₃⟩ := h.head
  cases ts with
  | nil => simp at he
  | cons c ts =>
    rw [List.forall_mem_cons] at hresolves
    rw [List.flatMap_cons] at he
    cases c with
    | surface negative name =>
      obtain ⟨entry, hentry, hne⟩ := hresolves.1
      rw [block_surface negative hentry] at he
      -- The block is an operand as well, so both end at the same place.
      obtain ⟨-, hrest, -⟩ := (isOperand_entryBlock negative hne).unique h he
      exact ⟨[.surface negative name], ts, _, rfl, hrest, .surface negative name⟩
    | closing | union => simp_all [block]
    | complement =>
      simp only [block, List.cons_append, List.nil_append, List.cons.injEq] at he
      obtain ⟨rfl, he⟩ := he
      cases h with
      | complement hpart =>
        obtain ⟨front, back, f, rfl, hback, hfactor⟩ := isFactor_of_isOperand hpart hresolves.2 he
        exact ⟨.complement :: front, back, _, rfl, hback, .complement hfactor⟩
    | opening =>
      simp only [block, List.cons_append, List.nil_append, List.cons.injEq] at he
      obtain ⟨rfl, he⟩ := he
      cases h with
      | @group ws _ hparts =>
        rw [List.append_assoc] at he
        obtain ⟨front, back, f, rfl, hback, hformula⟩ :=
          isFormula_of_isUnion hparts hresolves.2 he
        -- What follows the formula is written as a closing parenthesis, so it is one.
        obtain ⟨c, left, rfl, hleft, hc⟩ :=
          exists_separator (fun t ht => hresolves.2 t (by simp [ht])) hback (.inl rfl)
        obtain rfl : c = .closing := by simpa using hc
        exact ⟨.opening :: (front ++ [.closing]), left, f, by simp, hleft, .group hformula⟩
termination_by 3 * us.length
decreasing_by
  all_goals subst_vars
  all_goals first | omega | (simp only [List.length_cons, List.length_append]; omega)

theorem isTerm_of_isIntersection {d : Draft K} {ts : List CellToken} {us vs : List Token}
    {parts : List Region} (h : IsIntersection us parts) (hresolves : ∀ t ∈ ts, d.Resolves t)
    (he : ts.flatMap d.block = us ++ vs) :
    ∃ front back f, ts = front ++ back ∧ back.flatMap d.block = vs ∧ IsTerm front f := by
  cases h with
  | single hpart =>
    obtain ⟨front, back, f, rfl, hback, hfactor⟩ := isFactor_of_isOperand hpart hresolves he
    exact ⟨front, back, f, rfl, hback, .single hfactor⟩
  | @beside us₁ us₂ _ _ hpart hparts =>
    have hpos := hpart.length_pos
    rw [List.append_assoc] at he
    obtain ⟨front, back, f, rfl, hback, hfactor⟩ := isFactor_of_isOperand hpart hresolves he
    rw [List.forall_mem_append] at hresolves
    obtain ⟨next, last, g, rfl, hlast, hterm⟩ := isTerm_of_isIntersection hparts hresolves.2 hback
    exact ⟨front ++ next, last, _, by simp, hlast, .beside hfactor hterm⟩
  | @ampersand us₁ us₂ _ _ hpart hparts =>
    rw [List.append_assoc] at he
    obtain ⟨front, back, f, rfl, hback, -⟩ := isFactor_of_isOperand hpart hresolves he
    rw [List.forall_mem_append] at hresolves
    -- No token of a surface expression writes an ampersand.
    obtain ⟨c, back, -, -, hc⟩ := exists_separator hresolves.2 hback (.inr (.inr rfl))
    simp at hc
termination_by 3 * us.length + 1
decreasing_by
  all_goals subst_vars
  all_goals first | omega | (simp only [List.length_cons, List.length_append]; omega)

theorem isFormula_of_isUnion {d : Draft K} {ts : List CellToken} {us vs : List Token}
    {parts : List Region} (h : IsUnion us parts) (hresolves : ∀ t ∈ ts, d.Resolves t)
    (he : ts.flatMap d.block = us ++ vs) :
    ∃ front back f, ts = front ++ back ∧ back.flatMap d.block = vs ∧ IsFormula front f := by
  cases h with
  | single hparts =>
    obtain ⟨front, back, f, rfl, hback, hterm⟩ := isTerm_of_isIntersection hparts hresolves he
    exact ⟨front, back, f, rfl, hback, .single hterm⟩
  | @bar us₁ us₂ _ _ hparts hunion =>
    rw [List.append_assoc] at he
    obtain ⟨front, back, f, rfl, hback, hterm⟩ := isTerm_of_isIntersection hparts hresolves he
    rw [List.forall_mem_append] at hresolves
    obtain ⟨c, left, rfl, hleft, hc⟩ := exists_separator hresolves.2 hback (.inr (.inl rfl))
    obtain rfl : c = .union := by simpa using hc
    obtain ⟨next, last, g, rfl, hlast, hformula⟩ :=
      isFormula_of_isUnion hunion (List.forall_mem_cons.1 hresolves.2).2 hleft
    exact ⟨front ++ .union :: next, last, _, by simp, hlast, .union hterm hformula⟩
termination_by 3 * us.length + 2
decreasing_by
  all_goals subst_vars
  all_goals first | omega | (simp only [List.length_cons, List.length_append]; omega)

end

/-! ### The meaning of an expression -/

/-- A surface expression has a region exactly if its names stand for surfaces and its tokens are an
    expression, and the region contains the points for which the expression holds. -/
theorem regionOf_meaning [Scalar K] (d : Draft K) (hfit : d.EntriesFit) (cell : String)
    (tokens : List CellToken) :
    ((∃ r, d.regionOf cell tokens = .ok r) ↔
      (∀ t ∈ tokens, d.Resolves t) ∧ ∃ f, IsFormula tokens f) ∧
    ∀ r f, d.regionOf cell tokens = .ok r → IsFormula tokens f →
      ∀ p, r.contains d.surfaces p = f.holds (d.onSide p) := by
  constructor
  · constructor
    · rintro ⟨r, hregion⟩
      obtain ⟨hresolves, parts, hparts, -⟩ := regionOf_eq_ok hregion
      obtain ⟨front, back, f, rfl, hback, hformula⟩ :=
        isFormula_of_isUnion hparts hresolves (List.append_nil _).symm
      -- The derivation takes all blocks, so nothing is left of the tokens either.
      obtain rfl : back = [] :=
        eq_nil_of_blocks (fun t ht => hresolves t (List.mem_append_right _ ht)) hback
      exact ⟨hresolves, f, by simpa using hformula⟩
    · rintro ⟨hresolves, f, hformula⟩
      obtain ⟨parts, hparts, -⟩ := isUnion_of_isFormula hformula hresolves
      exact ⟨_, regionOf_of_isExpression hfit cell hresolves ⟨parts, hparts, rfl⟩⟩
  · intro r f hregion hformula p
    obtain ⟨hresolves, hexpression⟩ := regionOf_eq_ok hregion
    obtain ⟨parts, hparts, hmeaning⟩ := isUnion_of_isFormula hformula hresolves
    obtain rfl := hexpression.unique ⟨parts, hparts, rfl⟩
    rw [Region.contains_combine_union, hmeaning p]

/-- A draft with a prism, `box`, and a sphere, `ball`. -/
def boxAndBall : Draft Float where
  entries := .ofList [("box", .composite (.rectPrism 1 2 3 4)), ("ball", .primitive 5)]
  surfaces := .ofList
    [(1, { id := 1, name := "box_sub_0", kind := .axisPlane .x (-1) }),
     (2, { id := 2, name := "box_sub_1", kind := .axisPlane .x 1 }),
     (3, { id := 3, name := "box_sub_2", kind := .axisPlane .y (-1) }),
     (4, { id := 4, name := "box_sub_3", kind := .axisPlane .y 1 }),
     (5, { id := 5, name := "ball", kind := .sphere .zero 1 })]
  materials := .empty

/-- The expression `box : #(-box -ball)`. -/
theorem regionOf_meaning_nested :
    boxAndBall.EntriesFit ∧
    ∃ r, boxAndBall.regionOf "cell"
        [.surface false "box", .union, .complement, .opening, .surface true "box",
          .surface true "ball", .closing] = .ok r ∧
      ∀ p, r.contains boxAndBall.surfaces p =
        (boxAndBall.onSide p false "box" ||
          !(boxAndBall.onSide p true "box" && boxAndBall.onSide p true "ball")) := by
  have hfit : boxAndBall.EntriesFit := by
    rintro id ⟨name, entry, h, hid⟩
    have hentry : entry = .composite (.rectPrism 1 2 3 4) ∨ entry = .primitive 5 := by
      simp only [boxAndBall, Table.ofList, List.foldl_cons, List.foldl_nil, Table.find?_insert,
        Table.find?_empty] at h
      split at h
      · exact .inr (Option.some.inj h).symm
      · split at h
        · exact .inl (Option.some.inj h).symm
        · simp at h
    have hle : ∀ id ∈ entry.surfaces, id ≤ Text.max32 := by
      rcases hentry with rfl | rfl <;> decide
    exact hle id hid
  have hbox : ∃ entry, boxAndBall.entries.find? "box" = some entry ∧ entry ≠ .infinite :=
    ⟨_, rfl, by simp⟩
  have hball : ∃ entry, boxAndBall.entries.find? "ball" = some entry ∧ entry ≠ .infinite :=
    ⟨_, rfl, by simp⟩
  have hgroup := IsFactor.group (.single (.beside (.surface true "box")
    (.single (.surface true "ball"))))
  have hformula := IsFormula.union (.single (.surface false "box"))
    (.single (.single (.complement hgroup)))
  obtain ⟨hexists, hmeaning⟩ := regionOf_meaning boxAndBall hfit "cell"
    [.surface false "box", .union, .complement, .opening, .surface true "box",
      .surface true "ball", .closing]
  obtain ⟨r, hregion⟩ := hexists.2 ⟨by simp [Resolves, hbox, hball], _, hformula⟩
  exact ⟨hfit, r, hregion, fun p => hmeaning r _ hregion hformula p⟩

end SerpentCsg.Draft
