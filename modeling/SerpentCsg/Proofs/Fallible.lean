import Mathlib.Data.List.Forall2

/-! # Steps That Can Fail

  When a sequence of steps succeeds, each of which can fail: exactly if every step does. The
  first fault ends the sequence, so there is no more to a success than that.
-/

namespace SerpentCsg

variable {ε α β : Type}

/-- A step and what follows it succeed exactly if the step does, and then the rest with what the
    step gave. -/
theorem bind_eq_ok_iff {x : Except ε α} {f : α → Except ε β} {b : β} :
    (x >>= f) = .ok b ↔ ∃ a, x = .ok a ∧ f a = .ok b := by
  cases x <;> simp [bind, Except.bind]

/-- The fault of a step and what follows it is that of the step, or else that of the rest. -/
theorem bind_eq_error_iff {x : Except ε α} {f : α → Except ε β} {e : ε} :
    (x >>= f) = .error e ↔ x = .error e ∨ ∃ a, x = .ok a ∧ f a = .error e := by
  cases x <;> simp [bind, Except.bind]

/-- Where a step gives nothing, the rest does not depend on it. -/
theorem seq_eq_ok_iff {x : Except ε Unit} {y : Except ε β} {b : β} :
    (x >>= fun _ => y) = .ok b ↔ x = .ok () ∧ y = .ok b := by
  rw [bind_eq_ok_iff]
  exact ⟨fun ⟨_, hx, hy⟩ => ⟨hx, hy⟩, fun h => ⟨(), h⟩⟩

/-- A step succeeds exactly if it does before its value is changed. -/
theorem map_eq_ok_iff {x : Except ε α} {f : α → β} {b : β} :
    x.map f = .ok b ↔ ∃ a, x = .ok a ∧ f a = b := by
  cases x <;> simp [Except.map]

/-- Something is known of the value of a step, so the step has succeeded. -/
theorem exists_ok_of_map_eq_some {x : Except ε α} {f : α → β} {b : β}
    (h : x.toOption.map f = some b) : ∃ a, x = .ok a ∧ f a = b := by
  cases x with
  | error fault => simp [Except.toOption] at h
  | ok a => exact ⟨a, rfl, Option.some.inj h⟩

/-- A step for every entry of a list. -/
theorem forM_eq_ok_iff {f : α → Except ε Unit} {items : List α} :
    items.forM f = .ok () ↔ ∀ a ∈ items, f a = .ok () := by
  induction items with
  | nil => exact ⟨fun _ a ha => absurd ha List.not_mem_nil, fun _ => rfl⟩
  | cons a items ih =>
    rw [List.forall_mem_cons, ← ih]
    exact seq_eq_ok_iff

/-- A value for every entry of a list. -/
theorem mapM_eq_ok_iff {f : α → Except ε β} {items : List α} {values : List β} :
    items.mapM f = .ok values ↔ List.Forall₂ (fun a b => f a = .ok b) items values := by
  induction items generalizing values with
  | nil => cases values <;> simp [List.mapM_nil, pure, Except.pure]
  | cons a items ih =>
    rw [List.mapM_cons, bind_eq_ok_iff, List.forall₂_cons_left_iff]
    refine exists_congr fun b => ?_
    rw [bind_eq_ok_iff]
    constructor
    · intro h
      obtain ⟨ha, rest, hrest, hvalues⟩ := h
      exact ⟨rest, ha, ih.1 hrest, (Except.ok.inj hvalues).symm⟩
    · intro h
      obtain ⟨rest, ha, hrest, rfl⟩ := h
      exact ⟨ha, rest, ih.2 hrest, rfl⟩

/-- A fault comes from one of the entries. -/
theorem exists_of_mapM_eq_error {f : α → Except ε β} {items : List α} {e : ε}
    (h : items.mapM f = .error e) : ∃ a ∈ items, f a = .error e := by
  induction items with
  | nil => cases h
  | cons a items ih =>
    rw [List.mapM_cons] at h
    cases ha : f a with
    | error first =>
      rw [ha] at h
      exact ⟨a, List.mem_cons_self, ha.trans (congrArg Except.error (Except.error.inj h))⟩
    | ok b =>
      cases hrest : items.mapM f with
      | error rest =>
        rw [ha, hrest] at h
        obtain ⟨other, hmem, hother⟩ :=
          ih (hrest.trans (congrArg Except.error (Except.error.inj h)))
        exact ⟨other, List.mem_cons_of_mem _ hmem, hother⟩
      | ok values =>
        rw [ha, hrest] at h
        cases h

end SerpentCsg
