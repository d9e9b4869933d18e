import SerpentCsg.Table

/-! # Properties of All Entries of a Table

  A property that every entry of a table has, and what the operations ask for to keep it:
  inserting asks for it at the new entry only, and changing a value for it at the changed entry.
-/

namespace SerpentCsg.Table

variable {κ α : Type}

/-- Every entry has a property. -/
def All (t : Table κ α) (P : κ → α → Prop) : Prop := ∀ entry ∈ t.entries, P entry.1 entry.2

theorem All.mono {t : Table κ α} {P Q : κ → α → Prop} (h : t.All P)
    (himp : ∀ key a, P key a → Q key a) : t.All Q :=
  fun entry hentry => himp _ _ (h entry hentry)

theorem all_empty (P : κ → α → Prop) : (empty : Table κ α).All P := by
  intro entry hentry
  simp [empty] at hentry

theorem All.of_mem_values {t : Table κ α} {P : κ → α → Prop} (h : t.All P) {a : α}
    (ha : a ∈ t.values) : ∃ key, P key a := by
  obtain ⟨entry, hentry, rfl⟩ := List.mem_map.1 ha
  exact ⟨entry.1, h entry hentry⟩

variable [DecidableEq κ]

theorem mem_of_find? {t : Table κ α} {key : κ} {a : α} (h : t.find? key = some a) :
    (key, a) ∈ t.entries := by
  obtain ⟨entries⟩ := t
  simp only [find?] at h
  induction entries with
  | nil => simp [lookup] at h
  | cons entry rest ih =>
    obtain ⟨k, b⟩ := entry
    unfold lookup at h
    split at h
    · next heq =>
      obtain rfl := heq
      obtain rfl := Option.some.inj h
      exact List.mem_cons_self
    · exact List.mem_cons_of_mem _ (ih h)

/-- Where no key comes twice, every entry is found under its key. -/
theorem find?_of_mem {t : Table κ α} (h : t.keys.Nodup) {entry : κ × α}
    (hentry : entry ∈ t.entries) : t.find? entry.1 = some entry.2 := by
  obtain ⟨entries⟩ := t
  simp only [keys, find?] at h hentry ⊢
  induction entries with
  | nil => simp at hentry
  | cons first rest ih =>
    rw [List.map_cons, List.nodup_cons] at h
    rcases List.mem_cons.1 hentry with rfl | hrest
    · simp [lookup]
    · have hne : first.1 ≠ entry.1 := fun heq => h.1 (heq ▸ List.mem_map_of_mem hrest)
      rw [lookup, if_neg hne]
      exact ih h.2 hrest

/-- Where no key comes twice, what is known of all that can be found is known of every entry. -/
theorem all_of_find? {t : Table κ α} (h : t.keys.Nodup) {P : κ → α → Prop}
    (hP : ∀ key a, t.find? key = some a → P key a) : t.All P :=
  fun _ hentry => hP _ _ (find?_of_mem h hentry)

theorem nodup_keys_modify {t : Table κ α} (h : t.keys.Nodup) (key : κ) (f : α → α) :
    (t.modify key f).keys.Nodup := by
  rwa [keys_modify]

theorem All.find? {t : Table κ α} {P : κ → α → Prop} (h : t.All P) {key : κ} {a : α}
    (ha : t.find? key = some a) : P key a :=
  h _ (mem_of_find? ha)

private theorem mem_of_mem_change {key : κ} {f : α → α} {entries : List (κ × α)} {entry : κ × α}
    (h : entry ∈ change key f entries) :
    entry ∈ entries ∨ entry.1 = key ∧ ∃ a, lookup key entries = some a ∧ entry.2 = f a := by
  induction entries with
  | nil => simp [change] at h
  | cons first rest ih =>
    obtain ⟨k, a⟩ := first
    unfold change at h
    split at h
    · next heq =>
      rcases List.mem_cons.1 h with rfl | h
      · exact .inr ⟨heq, a, by simp [lookup, heq], rfl⟩
      · exact .inl (List.mem_cons_of_mem _ h)
    · next hne =>
      rcases List.mem_cons.1 h with rfl | h
      · exact .inl List.mem_cons_self
      · rcases ih h with h | ⟨hkey, b, hb, heq⟩
        · exact .inl (List.mem_cons_of_mem _ h)
        · exact .inr ⟨hkey, b, by simpa [lookup, hne] using hb, heq⟩

theorem All.modify {t : Table κ α} {P : κ → α → Prop} (h : t.All P) {key : κ} {f : α → α}
    (hf : ∀ a, t.find? key = some a → P key (f a)) : (t.modify key f).All P := by
  intro entry hentry
  rcases mem_of_mem_change hentry with hentry | ⟨hkey, a, ha, heq⟩
  · exact h entry hentry
  · rw [hkey, heq]
    exact hf a ha

theorem All.insert {t : Table κ α} {P : κ → α → Prop} (h : t.All P) {key : κ} {a : α}
    (ha : P key a) : (t.insert key a).All P := by
  unfold Table.insert
  split
  · exact h.modify fun _ _ => ha
  · intro entry hentry
    rcases List.mem_append.1 hentry with hentry | hentry
    · exact h entry hentry
    · obtain rfl := List.mem_singleton.1 hentry
      exact ha

/-! ### Presence of keys -/

theorem contains_iff {t : Table κ α} {key : κ} :
    t.contains key = true ↔ ∃ a, t.find? key = some a :=
  Option.isSome_iff_exists

theorem contains_of_find? {t : Table κ α} {key : κ} {a : α} (h : t.find? key = some a) :
    t.contains key = true :=
  contains_iff.2 ⟨a, h⟩

theorem find?_eq_none_of_contains {t : Table κ α} {key : κ} (h : t.contains key = false) :
    t.find? key = none := by
  simpa [contains] using h

@[simp] theorem contains_modify (t : Table κ α) (key other : κ) (f : α → α) :
    (t.modify key f).contains other = t.contains other := by
  unfold contains
  rw [find?_modify]
  split <;> simp

theorem contains_insert (t : Table κ α) (key other : κ) (a : α) :
    (t.insert key a).contains other = (decide (key = other) || t.contains other) := by
  unfold contains
  rw [find?_insert]
  split <;> simp [*]

theorem contains_insert_self (t : Table κ α) (key : κ) (a : α) :
    (t.insert key a).contains key = true := by
  simp [contains_insert]

theorem contains_insert_of_contains {t : Table κ α} {other : κ} (key : κ) (a : α)
    (h : t.contains other = true) : (t.insert key a).contains other = true := by
  simp [contains_insert, h]

theorem ne_of_contains {t : Table κ α} {key other : κ} (hkey : t.contains key = false)
    (hother : t.contains other = true) : key ≠ other := by
  rintro rfl
  rw [hkey] at hother
  simp at hother

theorem find?_insert_of_contains {t : Table κ α} {key other : κ} (a : α)
    (hkey : t.contains key = false) (hother : t.contains other = true) :
    (t.insert key a).find? other = t.find? other := by
  rw [find?_insert, if_neg (ne_of_contains hkey hother)]

/-! ### Entries behind others -/

theorem entries_insert {t : Table κ α} {key : κ} (a : α) (h : t.contains key = false) :
    (t.insert key a).entries = t.entries ++ [(key, a)] := by
  unfold Table.insert
  rw [h]
  rfl

/-- A key is looked up among the first entries, and then among those behind them. -/
theorem find?_append {t t' : Table κ α} {added : List (κ × α)}
    (h : t'.entries = t.entries ++ added) (key : κ) :
    t'.find? key = (t.find? key).or ((Table.mk added).find? key) := by
  unfold Table.find?
  rw [h, lookup_append]

/-- What was there is found as before. -/
theorem find?_of_append {t t' : Table κ α} {added : List (κ × α)}
    (h : t'.entries = t.entries ++ added) {key : κ} {a : α} (ha : t.find? key = some a) :
    t'.find? key = some a := by
  rw [find?_append h, ha, Option.some_or]

/-! ### Values -/

theorem mem_values_of_find? {t : Table κ α} {key : κ} {a : α} (h : t.find? key = some a) :
    a ∈ t.values :=
  List.mem_map_of_mem (f := Prod.snd) (mem_of_find? h)

/-- A value under a new key comes last. -/
theorem values_insert {t : Table κ α} {key : κ} (a : α) (h : t.contains key = false) :
    (t.insert key a).values = t.values ++ [a] := by
  unfold Table.values
  rw [entries_insert a h, List.map_append]
  rfl

/-- What a change of a value keeps is kept for all values. -/
theorem map_values_modify {β : Type} {g : α → β} {t : Table κ α} {key : κ} {f : α → α}
    (h : ∀ a, t.find? key = some a → g (f a) = g a) :
    (t.modify key f).values.map g = t.values.map g := by
  obtain ⟨entries⟩ := t
  simp only [find?, values, modify] at h ⊢
  induction entries with
  | nil => rfl
  | cons entry rest ih =>
    obtain ⟨k, a⟩ := entry
    by_cases hk : k = key
    · have hkept : g (f a) = g a := h a (by simp [lookup, hk])
      simp [change, hk, hkept]
    · have hrest := ih fun b hb => h b (by simpa [lookup, hk] using hb)
      simpa [change, hk] using hrest

omit [DecidableEq κ] in
/-- Keys that can be told from the values. -/
theorem keys_eq_map_values {t : Table κ α} {g : α → κ} (h : t.All fun key a => g a = key) :
    t.keys = t.values.map g := by
  unfold keys values
  rw [List.map_map]
  refine List.map_congr_left fun entry hentry => ?_
  exact (h entry hentry).symm

/-! ### Order -/

/-- Two tables have the same entries, in one order or another, and no key comes twice. -/
structure Rearranged (t t' : Table κ α) : Prop where
  perm : t.entries.Perm t'.entries
  distinct : t.keys.Nodup

namespace Rearranged

variable {t t' : Table κ α}

omit [DecidableEq κ] in
theorem keys (h : Rearranged t t') : t.keys.Perm t'.keys := h.perm.map _

omit [DecidableEq κ] in
theorem size (h : Rearranged t t') : t.size = t'.size := h.perm.length_eq

/-- What is looked up does not depend on the order. -/
theorem find? (h : Rearranged t t') (key : κ) : t'.find? key = t.find? key := by
  have hdistinct : t'.keys.Nodup := h.keys.nodup_iff.1 h.distinct
  have hiff (a : α) : t'.find? key = some a ↔ t.find? key = some a := by
    constructor
    · intro ha
      exact find?_of_mem h.distinct (h.perm.mem_iff.2 (mem_of_find? ha))
    · intro ha
      exact find?_of_mem hdistinct (h.perm.mem_iff.1 (mem_of_find? ha))
  exact Option.ext hiff

theorem contains (h : Rearranged t t') (key : κ) : t'.contains key = t.contains key := by
  unfold Table.contains
  rw [h.find?]

private theorem change_eq_map {key : κ} {f : α → α} {entries : List (κ × α)}
    (h : (entries.map (·.1)).Nodup) :
    change key f entries = entries.map fun entry => if entry.1 = key then (entry.1, f entry.2)
      else entry := by
  induction entries with
  | nil => rfl
  | cons entry rest ih =>
    obtain ⟨k, a⟩ := entry
    rw [List.map_cons, List.nodup_cons] at h
    by_cases hk : k = key
    · -- The key does not come again.
      have hrest : rest.map (fun entry => if entry.1 = key then (entry.1, f entry.2) else entry) =
          rest := by
        have hkept : ∀ entry ∈ rest,
            (if entry.1 = key then (entry.1, f entry.2) else entry) = entry := by
          intro entry hentry
          refine if_neg fun heq => h.1 ?_
          show k ∈ rest.map (·.1)
          rw [hk, ← heq]
          exact List.mem_map_of_mem (f := Prod.fst) hentry
        rw [List.map_congr_left hkept]
        exact List.map_id' rest
      simp [change, hk, hrest]
    · simp [change, hk, ih h.2]

theorem modify (h : Rearranged t t') (key : κ) (f : α → α) :
    Rearranged (t.modify key f) (t'.modify key f) := by
  have hdistinct : t'.keys.Nodup := h.keys.nodup_iff.1 h.distinct
  refine ⟨?_, by rw [keys_modify]; exact h.distinct⟩
  show (change key f t.entries).Perm (change key f t'.entries)
  rw [change_eq_map h.distinct, change_eq_map hdistinct]
  exact h.perm.map _

theorem insert (h : Rearranged t t') (key : κ) (a : α) :
    Rearranged (t.insert key a) (t'.insert key a) := by
  refine ⟨?_, nodup_keys_insert h.distinct key a⟩
  unfold Table.insert
  rw [h.contains]
  split
  · exact (h.modify key _).perm
  · exact h.perm.append_right _

end Rearranged

end SerpentCsg.Table
