import Mathlib.Data.List.Nodup
import SerpentCsg.Proofs.Region.Grammar

/-! # Surfaces of a Region

  Which surfaces occur in a region: those whose numbers stand in its expression, each listed once.
  Renumbering a region renumbers them, and if no two of them get the same number there are
  as many as before.
-/

namespace SerpentCsg

namespace Region

/-- Induction on a region, with the hypothesis for every part of a combination. -/
@[elab_as_elim]
theorem induction_parts {motive : Region → Prop}
    (halfspace : ∀ h, motive (.halfspace h))
    (intersection : ∀ parts, (∀ part ∈ parts, motive part) → motive (.intersection parts))
    (union : ∀ parts, (∀ part ∈ parts, motive part) → motive (.union parts))
    (complement : ∀ part, motive part → motive (.complement part)) (r : Region) : motive r := by
  cases r with
  | halfspace h => exact halfspace h
  | intersection parts =>
    exact intersection parts fun part _ =>
      induction_parts halfspace intersection union complement part
  | union parts =>
    exact union parts fun part _ => induction_parts halfspace intersection union complement part
  | complement part =>
    exact complement part (induction_parts halfspace intersection union complement part)
termination_by sizeOf r

/-! ### Lists without repetition -/

/-- Induction on a list, where the hypothesis is for the rest without the repetitions of the first
    element. -/
@[elab_as_elim]
theorem induction_eraseDups {motive : List Nat → Prop} (nil : motive [])
    (cons : ∀ a l, motive (l.filter fun b => !b == a) → motive (a :: l)) (l : List Nat) :
    motive l := by
  match l with
  | [] => exact nil
  | a :: l =>
    have hle := List.length_filter_le (fun b => !b == a) l
    exact cons a l (induction_eraseDups nil cons _)
termination_by l.length
decreasing_by
  simp only [List.length_cons]
  omega

theorem nodup_eraseDups (l : List Nat) : l.eraseDups.Nodup := by
  induction l using induction_eraseDups with
  | nil => simp
  | cons a l ih =>
    rw [List.eraseDups_cons, List.nodup_cons]
    exact ⟨by simp, ih⟩

theorem eraseDups_map {f : Nat → Nat} {l : List Nat}
    (hinj : ∀ a ∈ l, ∀ b ∈ l, f a = f b → a = b) : (l.map f).eraseDups = l.eraseDups.map f := by
  induction l using induction_eraseDups with
  | nil => simp
  | cons a l ih =>
    -- Removing the repetitions of an element and mapping are done in either order.
    have hfilter : (l.map f).filter (fun b => !b == f a) =
        (l.filter fun b => !b == a).map f := by
      rw [List.filter_map]
      congr 1
      apply List.filter_congr
      intro b hb
      have hiff : f b = f a ↔ b = a :=
        ⟨hinj b (List.mem_cons_of_mem _ hb) a List.mem_cons_self, congrArg f⟩
      simp [hiff]
    have hrest : ((l.filter fun b => !b == a).map f).eraseDups =
        (l.filter fun b => !b == a).eraseDups.map f := by
      apply ih
      intro x hx y hy
      exact hinj x (List.mem_cons_of_mem _ (List.mem_of_mem_filter hx)) y
        (List.mem_cons_of_mem _ (List.mem_of_mem_filter hy))
    rw [List.map_cons, List.eraseDups_cons, List.eraseDups_cons, hfilter, hrest, List.map_cons]

/-! ### Surfaces -/

theorem nodup_surfaces (r : Region) : r.surfaces.Nodup := nodup_eraseDups _

theorem mem_surfaces {r : Region} {id : Nat} :
    id ∈ r.surfaces ↔ ∃ h ∈ r.halfspaces, h.surface = id := by
  simp [surfaces, List.mem_eraseDups]

theorem halfspaces_renumber (f : Nat → Nat) (r : Region) :
    (r.renumber f).halfspaces = r.halfspaces.map fun h => { h with surface := f h.surface } := by
  induction r using induction_parts with
  | halfspace h => simp [renumber, halfspaces]
  | intersection parts ih | union parts ih =>
    simp only [renumber, halfspaces, renumberAll_eq_map, halfspacesOf_eq_flatMap,
      List.flatMap_map, List.map_flatMap]
    exact List.flatMap_congr ih
  | complement part ih => simpa [renumber, halfspaces] using ih

@[simp] theorem renumber_id (r : Region) : r.renumber id = r := by
  induction r using induction_parts with
  | halfspace h => simp [renumber]
  | intersection parts ih | union parts ih =>
    have hparts : parts.map (renumber id) = parts :=
      (List.map_congr_left (g := id) ih).trans (List.map_id parts)
    simp only [renumber, renumberAll_eq_map, hparts]
  | complement part ih => simp only [renumber, ih]

theorem renumber_renumber (f g : Nat → Nat) (r : Region) :
    (r.renumber f).renumber g = r.renumber (g ∘ f) := by
  induction r using induction_parts with
  | halfspace h => simp [renumber]
  | intersection parts ih | union parts ih =>
    have hparts : (parts.map (renumber f)).map (renumber g) = parts.map (renumber (g ∘ f)) := by
      rw [List.map_map]
      exact List.map_congr_left ih
    simp only [renumber, renumberAll_eq_map, hparts]
  | complement part ih => simp only [renumber, ih]

theorem mem_surfaces_renumber {f : Nat → Nat} {r : Region} {id : Nat} :
    id ∈ (r.renumber f).surfaces ↔ ∃ old ∈ r.surfaces, f old = id := by
  simp [mem_surfaces, halfspaces_renumber]

/-- A renumbered region contains a point if every half-space that is renumbered contains it just if
    the half-space contains another point, and the region contains that point. -/
theorem contains_renumber {K : Type} [Scalar K] {table table' : Table Nat (Surface K)}
    {p p' : Vec3 K} {f : Nat → Nat} (r : Region)
    (h : ∀ g ∈ r.halfspaces,
      ({ g with surface := f g.surface } : Halfspace).contains table' p' = g.contains table p) :
    (r.renumber f).contains table' p' = r.contains table p := by
  induction r using induction_parts with
  | halfspace g =>
    simp only [renumber, contains]
    exact h g (by simp [halfspaces])
  | intersection parts ih | union parts ih =>
    have hparts : (parts.map fun part => (part.renumber f).contains table' p') =
        parts.map fun part => part.contains table p := by
      apply List.map_congr_left
      intro part hpart
      refine ih part hpart fun g hg => h g ?_
      rw [halfspaces, halfspacesOf_eq_flatMap]
      exact List.mem_flatMap.2 ⟨part, hpart, hg⟩
    simp only [renumber, contains, renumberAll_eq_map, List.map_map, Function.comp_def, hparts]
  | complement part ih =>
    rw [halfspaces] at h
    simp only [renumber, contains, ih h]

/-- A renumbering that keeps the surfaces apart keeps their number. -/
theorem length_surfaces_renumber {f : Nat → Nat} {r : Region}
    (hinj : ∀ a ∈ r.surfaces, ∀ b ∈ r.surfaces, f a = f b → a = b) :
    (r.renumber f).surfaces.length = r.surfaces.length := by
  have hmap : (r.renumber f).surfaces = r.surfaces.map f := by
    unfold surfaces
    rw [halfspaces_renumber, List.map_map, ← eraseDups_map, List.map_map]
    · rfl
    · intro a ha b hb
      exact hinj a (List.mem_eraseDups.2 ha) b (List.mem_eraseDups.2 hb)
  rw [hmap, List.length_map]

/-! ### Surfaces of an expression -/

/-- The half-space that a token is. -/
def Token.halfspace? : Token → Option Halfspace
  | .number h => some h
  | _ => none

/-- The half-spaces among some tokens, from left to right. -/
def numbers (ts : List Token) : List Halfspace := ts.filterMap Token.halfspace?

theorem mem_numbers {ts : List Token} {h : Halfspace} : h ∈ numbers ts ↔ .number h ∈ ts := by
  unfold numbers
  rw [List.mem_filterMap]
  constructor
  · rintro ⟨t, ht, heq⟩
    cases t <;> simp only [Token.halfspace?, Option.some.injEq, reduceCtorEq] at heq
    exact heq ▸ ht
  · intro hmem
    exact ⟨.number h, hmem, rfl⟩

@[simp] theorem numbers_append (ts us : List Token) :
    numbers (ts ++ us) = numbers ts ++ numbers us := List.filterMap_append

@[simp] theorem numbers_cons_of_halfspace?_eq_none {t : Token} (ts : List Token)
    (h : t.halfspace? = none) : numbers (t :: ts) = numbers ts :=
  List.filterMap_cons_none h

-- By recursion on the derivation.
mutual

/-- The half-spaces of an operand are the numbers in it. -/
theorem IsOperand.halfspaces_eq {ts : List Token} {r : Region} (h : IsOperand ts r) :
    r.halfspaces = numbers ts := by
  match h with
  | .number h => rfl
  | .complement hpart =>
    rw [numbers_cons_of_halfspace?_eq_none _ rfl, ← hpart.halfspaces_eq, halfspaces]
  | .group hparts =>
    rw [numbers_cons_of_halfspace?_eq_none _ rfl, numbers_append, ← hparts.flatMap_halfspaces]
    simp [numbers, Token.halfspace?]
termination_by structural h

theorem IsIntersection.flatMap_halfspaces {ts : List Token} {parts : List Region}
    (h : IsIntersection ts parts) : parts.flatMap halfspaces = numbers ts := by
  match h with
  | .single hpart => rw [List.flatMap_singleton, hpart.halfspaces_eq]
  | .beside hpart hparts =>
    rw [List.flatMap_cons, numbers_append, hpart.halfspaces_eq, hparts.flatMap_halfspaces]
  | .ampersand hpart hparts =>
    rw [List.flatMap_cons, numbers_append, numbers_cons_of_halfspace?_eq_none _ rfl,
      hpart.halfspaces_eq, hparts.flatMap_halfspaces]
termination_by structural h

theorem IsUnion.flatMap_halfspaces {ts : List Token} {parts : List Region}
    (h : IsUnion ts parts) : parts.flatMap halfspaces = numbers ts := by
  match h with
  | .single hparts =>
    rw [List.flatMap_singleton, halfspaces_combine_intersection, hparts.flatMap_halfspaces]
  | .bar hparts hunion =>
    rw [List.flatMap_cons, numbers_append, numbers_cons_of_halfspace?_eq_none _ rfl,
      halfspaces_combine_intersection, hparts.flatMap_halfspaces, hunion.flatMap_halfspaces]
termination_by structural h

end

theorem IsExpression.halfspaces_eq {ts : List Token} {r : Region} (h : IsExpression ts r) :
    r.halfspaces = numbers ts := by
  obtain ⟨parts, hparts, rfl⟩ := h
  rw [halfspaces_combine_union, hparts.flatMap_halfspaces]

/-- The surfaces of an expression are the numbers in it. -/
theorem IsExpression.mem_surfaces_iff {ts : List Token} {r : Region} (h : IsExpression ts r)
    {id : Nat} : id ∈ r.surfaces ↔ ∃ side, .number ⟨id, side⟩ ∈ ts := by
  rw [mem_surfaces, h.halfspaces_eq]
  constructor
  · rintro ⟨g, hg, rfl⟩
    exact ⟨g.side, mem_numbers.1 hg⟩
  · rintro ⟨side, hmem⟩
    exact ⟨⟨id, side⟩, mem_numbers.2 hmem, rfl⟩

end Region

end SerpentCsg
