import SerpentCsg.Proofs.Draft.Registering

/-! # Putting Surfaces Behind Others

  The surfaces of a shape are numbered one after another and come behind those that are there.

  - `Puts` says which surfaces have been put behind those of a table, and under which numbers. It
    holds of nothing put, of one more surface, and of what is put one after another.
  - `addShape_puts` says it of the parts of a shape, and that its name stands for something of the
    same form.
-/

namespace SerpentCsg

open Identifier (allocate)

variable {K : Type}

/-- A name stands for a thing of this form. -/
def Shape.IsEntry : Shape K → SurfaceEntry → Prop
  | .infinite, .infinite => True
  | .primitive _, .primitive _ => True
  | .composite kinds, .composite faces => faces.outline = kinds.outline
  | _, _ => False

/-! ### Surfaces put behind others -/

/-- A part of a shape as the surface with a given number. -/
def Surface.under (id : Nat) (part : String × SurfaceKind K) : Nat × Surface K :=
  (id, { id, name := part.1, kind := part.2 })

/-- Surfaces have been put behind those of a table, under distinct numbers that were free. -/
structure Puts (before : Table Nat (Surface K)) (parts : List (String × SurfaceKind K))
    (ids : List Nat) (after : Table Nat (Surface K)) : Prop where
  count : ids.length = parts.length
  distinct : ids.Nodup
  free : ∀ id ∈ ids, before.contains id = false
  entries : after.entries = before.entries ++ List.zipWith Surface.under ids parts
  /-- As long as there are numbers for all surfaces, none of them is past the largest. -/
  le_largest : after.size ≤ Identifier.largest → ∀ id ∈ ids, id ≤ Identifier.largest

namespace Puts

variable {before between after : Table Nat (Surface K)}
  {parts others : List (String × SurfaceKind K)} {ids further : List Nat}

theorem keys_zipWith (hcount : ids.length = parts.length) :
    (List.zipWith Surface.under ids parts).map (·.1) = ids := by
  induction ids generalizing parts with
  | nil => simp
  | cons id ids ih =>
    cases parts with
    | nil => simp at hcount
    | cons part parts =>
      simp only [List.zipWith_cons_cons, List.map_cons, List.length_cons, Nat.succ.injEq] at *
      rw [ih hcount]
      rfl

theorem keys (h : Puts before parts ids after) : after.keys = before.keys ++ ids := by
  unfold Table.keys
  rw [h.entries, List.map_append, keys_zipWith h.count]

theorem size (h : Puts before parts ids after) : after.size = before.size + ids.length := by
  unfold Table.size
  rw [h.entries, List.length_append, List.length_zipWith, ← h.count, Nat.min_self]

/-- What has been put is found under its number. -/
theorem find?_of_getElem? (h : Puts before parts ids after) {i id : Nat} (hid : ids[i]? = some id) :
    ∃ part, parts[i]? = some part ∧ after.find? id = some (Surface.under id part).2 := by
  have hlt : i < parts.length := by
    obtain ⟨hlt, -⟩ := List.getElem?_eq_some_iff.1 hid
    rw [← h.count]
    exact hlt
  refine ⟨parts[i], List.getElem?_eq_getElem hlt, ?_⟩
  let added : Table Nat (Surface K) := ⟨List.zipWith Surface.under ids parts⟩
  have hkeys : added.keys = ids := keys_zipWith h.count
  have hmem : Surface.under id parts[i] ∈ added.entries := by
    apply List.mem_of_getElem? (i := i)
    rw [List.getElem?_zipWith, hid, List.getElem?_eq_getElem hlt]
  have hnew : added.find? id = some (Surface.under id parts[i]).2 :=
    Table.find?_of_mem (by rw [hkeys]; exact h.distinct) hmem
  have hold : before.find? id = none :=
    Table.find?_eq_none_of_contains (h.free id (List.mem_of_getElem? hid))
  rw [Table.find?_append h.entries, hold, Option.none_or]
  exact hnew

/-- The numbers are those of the kinds that have been put. -/
theorem forall₂_kinds (h : Puts before parts ids after) :
    List.Forall₂ (fun id kind => ∃ s, after.find? id = some s ∧ s.kind = kind) ids
      (parts.map (·.2)) := by
  rw [List.forall₂_map_right_iff, List.forall₂_iff_get]
  refine ⟨h.count, ?_⟩
  intro i hi hi'
  obtain ⟨part, hpart, hfound⟩ := h.find?_of_getElem? (List.getElem?_eq_getElem hi)
  obtain rfl : parts[i] = part := Option.some.inj ((List.getElem?_eq_getElem hi').symm.trans hpart)
  exact ⟨_, hfound, rfl⟩

theorem nil (table : Table Nat (Surface K)) : Puts table [] [] table where
  count := rfl
  distinct := List.nodup_nil
  free := by simp
  entries := by simp
  le_largest := by simp

/-- Surfaces are put behind others that have been put. -/
theorem append (h : Puts before parts ids between) (h' : Puts between others further after) :
    Puts before (parts ++ others) (ids ++ further) after where
  count := by rw [List.length_append, List.length_append, h.count, h'.count]
  distinct := by
    rw [List.nodup_append]
    refine ⟨h.distinct, h'.distinct, ?_⟩
    intro id hid other hother heq
    -- The second number was free when the first one had been given.
    have hfree := h'.free other hother
    rw [← Bool.not_eq_true, ← Table.mem_keys_iff, h.keys, ← heq] at hfree
    exact hfree (List.mem_append_right _ hid)
  free := by
    intro id hid
    rcases List.mem_append.1 hid with hfirst | hsecond
    · exact h.free id hfirst
    · have hfree := h'.free id hsecond
      rw [← Bool.not_eq_true, ← Table.mem_keys_iff, h.keys] at hfree
      rw [← Bool.not_eq_true, ← Table.mem_keys_iff]
      intro hmem
      exact hfree (List.mem_append_left _ hmem)
  entries := by
    rw [h'.entries, h.entries, List.append_assoc, List.zipWith_append h.count]
  le_largest := by
    intro hsize id hid
    rcases List.mem_append.1 hid with hfirst | hsecond
    · apply h.le_largest _ id hfirst
      rw [h'.size] at hsize
      omega
    · exact h'.le_largest hsize id hsecond

end Puts

namespace Draft

theorem addSurface_puts (d : Draft K) (name : String) (kind : SurfaceKind K) :
    Puts d.surfaces [(name, kind)] [(d.addSurface name kind).2]
      (d.addSurface name kind).1.surfaces where
  count := rfl
  distinct := List.nodup_singleton _
  free := by
    intro id hid
    rw [List.mem_singleton.1 hid]
    exact addSurface_fresh d name kind
  entries := Table.entries_insert _ (allocate_fresh name d.surfaces)
  le_largest := by
    intro hsize id hid
    rw [List.mem_singleton.1 hid]
    apply Identifier.allocate_le_largest
    -- The new surface is one more than the numbers that were taken.
    have hsize : (d.surfaces.insert (allocate name d.surfaces.keys) _).size ≤ _ := hsize
    unfold Table.size at hsize
    rw [Table.entries_insert _ (allocate_fresh name d.surfaces), List.length_append] at hsize
    unfold Table.keys
    rw [List.length_map]
    exact hsize

/-- The faces of a composite are put behind what is there, under the names of faces. -/
theorem accumulate_addFace_puts (name : String) (kinds : List (SurfaceKind K)) (d : Draft K)
    (i : Nat) :
    Puts d.surfaces (Shape.faceParts name i kinds)
      (Composite.accumulate (addFace name) (d, i) kinds).2
      (Composite.accumulate (addFace name) (d, i) kinds).1.1.surfaces := by
  induction kinds generalizing d i with
  | nil => exact Puts.nil d.surfaces
  | cons kind kinds ih =>
    have hfirst := addSurface_puts d (faceName name i) kind
    exact hfirst.append (ih (d.addSurface (faceName name i) kind).1 (i + 1))

theorem accumulate_addFace_entries (name : String) (kinds : List (SurfaceKind K)) (d : Draft K)
    (i : Nat) : (Composite.accumulate (addFace name) (d, i) kinds).1.1.entries = d.entries := by
  induction kinds generalizing d i with
  | nil => rfl
  | cons kind kinds ih => exact ih (d.addSurface (faceName name i) kind).1 (i + 1)

/-- A shape puts its parts behind the surfaces that are there, and under its name what has its
    form. -/
theorem addShape_puts (d : Draft K) (name : String) (shape : Shape K) :
    ∃ entry,
      d.addShape name shape = { d with
        entries := d.entries.insert name entry
        surfaces := (d.addShape name shape).surfaces } ∧
      shape.IsEntry entry ∧
      Puts d.surfaces (shape.parts name) entry.surfaces (d.addShape name shape).surfaces := by
  cases shape with
  | infinite => exact ⟨.infinite, rfl, trivial, Puts.nil d.surfaces⟩
  | primitive kind =>
    exact ⟨.primitive (d.addSurface name kind).2, rfl, trivial, addSurface_puts d name kind⟩
  | composite kinds =>
    obtain ⟨hstate, hfaces⟩ :=
      Prod.mk.inj (Composite.mapAccum_eq_accumulate (addFace name) (d, 0) kinds)
    let faces := (kinds.mapAccum (addFace name) (d, 0)).2
    have hparts := accumulate_addFace_puts name kinds.faces d 0
    rw [← hstate, ← hfaces] at hparts
    have hentries : (d.addShape name (.composite kinds)).entries =
        d.entries.insert name (.composite faces) := by
      have hkept := accumulate_addFace_entries name kinds.faces d 0
      rw [← hstate] at hkept
      exact congrArg (fun entries => entries.insert name (.composite faces)) hkept
    refine ⟨.composite faces, ?_, Composite.outline_mapAccum _ _ kinds, hparts⟩
    rw [← hentries]
    exact addShape_frame d name (.composite kinds)

end Draft

end SerpentCsg
