/-! # Tables in Order of Insertion

  A table maps keys to values and remembers the order in which the keys came in. Inserting under a
  key that is already present replaces the value and keeps the place.

  The view of a table is its list of entries, and every operation is described by what it does to
  `find?` and to `keys`.
-/

namespace SerpentCsg

/-- A table with its entries in order of insertion. -/
structure Table (κ α : Type) where
  /-- Keys with their values, first come first. -/
  entries : List (κ × α)
  deriving Repr

namespace Table

variable {κ α : Type}

/-! ### Operations -/

/-- The table without entries. -/
def empty : Table κ α := ⟨[]⟩

instance : Inhabited (Table κ α) := ⟨empty⟩

/-- Keys in order. -/
def keys (t : Table κ α) : List κ := t.entries.map (·.1)

/-- Values in order. -/
def values (t : Table κ α) : List α := t.entries.map (·.2)

/-- Number of entries. -/
def size (t : Table κ α) : Nat := t.entries.length

/-- The value under a key of a list of entries. -/
def lookup [DecidableEq κ] (key : κ) : List (κ × α) → Option α
  | [] => none
  | (k, a) :: rest => if k = key then some a else lookup key rest

/-- The entries with the value under a key changed. -/
def change [DecidableEq κ] (key : κ) (f : α → α) : List (κ × α) → List (κ × α)
  | [] => []
  | (k, a) :: rest => if k = key then (k, f a) :: rest else (k, a) :: change key f rest

/-- The value under a key. -/
def find? [DecidableEq κ] (t : Table κ α) (key : κ) : Option α := lookup key t.entries

/-- The key is present. -/
def contains [DecidableEq κ] (t : Table κ α) (key : κ) : Bool := (t.find? key).isSome

/-- The table with the value under a key changed, if the key is present. -/
def modify [DecidableEq κ] (t : Table κ α) (key : κ) (f : α → α) : Table κ α :=
  ⟨change key f t.entries⟩

/-- The table with a value under a key: in place of the old one, or as a new last entry. -/
def insert [DecidableEq κ] (t : Table κ α) (key : κ) (a : α) : Table κ α :=
  if t.contains key then t.modify key fun _ => a else ⟨t.entries ++ [(key, a)]⟩

/-- The table of some entries, inserted from first to last. -/
def ofList [DecidableEq κ] (entries : List (κ × α)) : Table κ α :=
  entries.foldl (fun t entry => t.insert entry.1 entry.2) empty

/-! ### What the operations do -/

section Laws

variable [DecidableEq κ]

@[simp] theorem find?_empty (key : κ) : (empty : Table κ α).find? key = none := rfl

omit [DecidableEq κ] in
@[simp] theorem keys_empty : (empty : Table κ α).keys = [] := rfl

theorem lookup_append (key : κ) (l r : List (κ × α)) :
    lookup key (l ++ r) = (lookup key l).or (lookup key r) := by
  induction l with
  | nil => rfl
  | cons entry l ih =>
    obtain ⟨k, a⟩ := entry
    by_cases h : k = key <;> simp [lookup, h, ih]

theorem lookup_change (key other : κ) (f : α → α) (l : List (κ × α)) :
    lookup other (change key f l) =
      if key = other then (lookup other l).map f else lookup other l := by
  induction l with
  | nil => simp [change, lookup]
  | cons entry l ih =>
    obtain ⟨k, a⟩ := entry
    by_cases hk : k = key
    · subst hk
      by_cases ho : k = other <;> simp [change, lookup, ho]
    · by_cases ho : k = other
      · subst ho
        have hne : ¬ key = k := fun h => hk h.symm
        simp [change, lookup, hk, hne]
      · simp [change, lookup, hk, ho, ih]

theorem map_fst_change (key : κ) (f : α → α) (l : List (κ × α)) :
    (change key f l).map (·.1) = l.map (·.1) := by
  induction l with
  | nil => rfl
  | cons entry l ih =>
    obtain ⟨k, a⟩ := entry
    by_cases h : k = key <;> simp [change, h, ih]

/-- A key is listed exactly if it has a value. -/
theorem mem_keys_iff {t : Table κ α} {key : κ} : key ∈ t.keys ↔ t.contains key = true := by
  obtain ⟨entries⟩ := t
  simp only [keys, contains, find?]
  induction entries with
  | nil => simp [lookup]
  | cons entry l ih =>
    obtain ⟨k, a⟩ := entry
    by_cases h : k = key
    · simp [lookup, h]
    · have hne : ¬ key = k := fun e => h e.symm
      simp only [List.map_cons, List.mem_cons, hne, false_or, lookup, h, if_false]
      exact ih

@[simp] theorem keys_modify (t : Table κ α) (key : κ) (f : α → α) :
    (t.modify key f).keys = t.keys := map_fst_change key f t.entries

theorem find?_modify (t : Table κ α) (key other : κ) (f : α → α) :
    (t.modify key f).find? other =
      if key = other then (t.find? other).map f else t.find? other :=
  lookup_change key other f t.entries

/-- Inserting changes the value of its own key and of no other. -/
theorem find?_insert (t : Table κ α) (key other : κ) (a : α) :
    (t.insert key a).find? other = if key = other then some a else t.find? other := by
  by_cases hc : t.contains key = true
  · simp only [insert, hc, if_true, find?_modify]
    by_cases ho : key = other
    · subst ho
      obtain ⟨old, hold⟩ := Option.isSome_iff_exists.1 hc
      simp [hold]
    · simp [ho]
  · have hnone : lookup key t.entries = none := by
      simpa [contains, find?] using hc
    simp only [insert, hc, Bool.false_eq_true, if_false, find?, lookup_append]
    by_cases ho : key = other
    · subst ho
      simp [hnone, lookup]
    · simp [lookup, ho]

/-- Inserting under a key that is present keeps the keys, and a new key comes last. -/
theorem keys_insert (t : Table κ α) (key : κ) (a : α) :
    (t.insert key a).keys = if t.contains key then t.keys else t.keys ++ [key] := by
  by_cases hc : t.contains key = true
  · simp [insert, hc]
  · simp [insert, hc, keys]

/-- Inserting keeps the keys distinct. -/
theorem nodup_keys_insert {t : Table κ α} (h : t.keys.Nodup) (key : κ) (a : α) :
    (t.insert key a).keys.Nodup := by
  rw [keys_insert]
  by_cases hc : t.contains key = true
  · simpa [hc] using h
  · have hmem : key ∉ t.keys := fun hm => hc (mem_keys_iff.1 hm)
    simp only [hc, Bool.false_eq_true, if_false, List.nodup_append, List.mem_singleton]
    refine ⟨h, by simp, ?_⟩
    rintro k hk _ rfl rfl
    exact hmem hk

end Laws

end Table

end SerpentCsg
