import Mathlib.Data.List.Nodup
import Mathlib.Data.List.Perm.Subperm
import SerpentCsg.Identifier

/-! # Numbers Given to Names

  Names are given numbers one after another. A name asks for a number of its own and gets it if it
  is free; otherwise it gets the next one that is free, counting upwards and going round at the
  largest. So no number is given twice, and as long as there are no more names than numbers, all
  of them stay in the allowed range.

  `IsNumbering` says this of a list of names with their numbers, in the order in which they were
  given. It holds of the empty list and is kept by giving one more number.
-/

namespace SerpentCsg.Identifier

/-! ### The number that a name asks for -/

/-- The number that a name asks for. -/
def wanted (name : String) : Nat := max (ofName name) 1

theorem ofName_le_largest (name : String) : ofName name ≤ largest := by
  have hhash (h : Nat) : (if h % (largest + 1) == 0 then 1 else h % (largest + 1)) ≤ largest := by
    split
    · decide
    · exact Nat.le_of_lt_succ (Nat.mod_lt h (Nat.succ_pos largest))
  unfold ofName
  dsimp only
  split
  · split
    · assumption
    · exact hhash _
  · exact hhash _

theorem one_le_wanted (name : String) : 1 ≤ wanted name := Nat.le_max_right _ _

theorem wanted_le_largest (name : String) : wanted name ≤ largest :=
  Nat.max_le.2 ⟨ofName_le_largest name, by decide⟩

/-! ### Going round -/

theorem one_le_after (start steps : Nat) : 1 ≤ after start steps := by
  unfold after
  omega

theorem after_le_largest (start steps : Nat) : after start steps ≤ largest := by
  have hlt := Nat.mod_lt (start - 1 + steps) (show 0 < largest by decide)
  unfold after
  omega

theorem after_zero {start : Nat} (hpos : 1 ≤ start) (hle : start ≤ largest) :
    after start 0 = start := by
  simp only [after, largest] at *
  omega

/-- Nothing comes twice before all numbers have been passed. -/
theorem nodup_after (start : Nat) {count : Nat} (h : count ≤ largest) :
    ((List.range count).map (after start)).Nodup := by
  refine List.Nodup.map_on ?_ List.nodup_range
  intro i hi j hj heq
  rw [List.mem_range] at hi hj
  -- Both places are the same modulo the largest number, and less than that apart.
  simp only [after, largest] at *
  omega

/-! ### The number that is given -/

/-- A list of distinct numbers holds one that is not in a shorter list. -/
theorem exists_not_mem_of_length_lt {numbers taken : List Nat} (hnodup : numbers.Nodup)
    (h : taken.length < numbers.length) : ∃ n ∈ numbers, n ∉ taken := by
  by_contra hall
  have hsubset : numbers ⊆ taken := by
    intro n hn
    by_contra hfree
    exact hall ⟨n, hn, hfree⟩
  have hle := (hnodup.subperm hsubset).length_le
  omega

/-- There is one number more among these than there are taken ones, and no two are the same. -/
theorem exists_after_not_mem (start : Nat) {taken : List Nat} (h : taken.length < largest) :
    ∃ n ∈ (List.range (taken.length + 1)).map (after start), n ∉ taken :=
  exists_not_mem_of_length_lt (nodup_after start h) (by simp)

theorem one_le_allocate (name : String) (taken : List Nat) : 1 ≤ allocate name taken := by
  unfold allocate
  dsimp only
  cases hfind : ((List.range (taken.length + 1)).map (after (max (ofName name) 1))).find?
      (fun id => !taken.contains id) with
  | some id =>
    obtain ⟨steps, -, rfl⟩ := List.mem_map.1 (List.mem_of_find?_eq_some hfind)
    exact one_le_after _ _
  | none =>
    rw [Option.getD_none]
    omega

/-- As long as there are free numbers, one of them is given. -/
theorem allocate_le_largest (name : String) {taken : List Nat} (h : taken.length < largest) :
    allocate name taken ≤ largest := by
  unfold allocate
  dsimp only
  cases hfind : ((List.range (taken.length + 1)).map (after (max (ofName name) 1))).find?
      (fun id => !taken.contains id) with
  | some id =>
    obtain ⟨steps, -, rfl⟩ := List.mem_map.1 (List.mem_of_find?_eq_some hfind)
    exact after_le_largest _ _
  | none =>
    obtain ⟨n, hn, hfree⟩ := exists_after_not_mem (max (ofName name) 1) h
    have htaken := List.find?_eq_none.1 hfind n hn
    simp [hfree] at htaken

/-- A name gets the number that it asks for, if that is free. -/
theorem allocate_eq_wanted {name : String} {taken : List Nat} (h : wanted name ∉ taken) :
    allocate name taken = wanted name := by
  have hfirst : after (max (ofName name) 1) 0 = wanted name :=
    after_zero (one_le_wanted name) (wanted_le_largest name)
  unfold allocate
  simp [List.range_succ_eq_map, hfirst, h]

/-- It makes no difference in which order numbers have been taken. -/
theorem allocate_perm (name : String) {taken others : List Nat} (h : taken.Perm others) :
    allocate name taken = allocate name others := by
  have hcontains (id : Nat) : taken.contains id = others.contains id := by
    rw [Bool.eq_iff_iff, List.contains_iff_mem, List.contains_iff_mem]
    exact h.mem_iff
  have hgreatest : taken.foldl max largest = others.foldl max largest := h.foldl_eq _
  unfold allocate
  simp only [h.length_eq, hcontains, hgreatest]

/-! ### Numbers given one after another -/

/-- Names with the numbers that were given to them, the first one first. -/
structure IsNumbering (given : List (String × Nat)) : Prop where
  /-- No number is given twice. -/
  nodup : (given.map (·.2)).Nodup
  pos : ∀ entry ∈ given, 1 ≤ entry.2
  /-- There are as many numbers as the largest says. For one name more, the search for a free
      number would not end. -/
  le_largest : given.length ≤ largest → ∀ entry ∈ given, entry.2 ≤ largest
  /-- A name has the number that it asks for, unless that was given to an earlier name. -/
  wanted : ∀ earlier name id later, given = earlier ++ (name, id) :: later →
    wanted name ∉ earlier.map (·.2) → id = wanted name

theorem isNumbering_nil : IsNumbering [] where
  nodup := List.nodup_nil
  pos := by simp
  le_largest := by simp
  wanted := by simp

/-- One more name is given a number. -/
theorem IsNumbering.snoc {given : List (String × Nat)} (h : IsNumbering given) (name : String) :
    IsNumbering (given ++ [(name, allocate name (given.map (·.2)))]) := by
  constructor
  case nodup =>
    rw [List.map_append, List.nodup_append]
    refine ⟨h.nodup, List.nodup_singleton _, ?_⟩
    intro a ha b hb heq
    rw [heq, List.mem_singleton.1 hb] at ha
    exact allocate_not_mem name _ ha
  case pos =>
    intro entry hentry
    rcases List.mem_append.1 hentry with hold | hnew
    · exact h.pos entry hold
    · rw [List.mem_singleton.1 hnew]
      exact one_le_allocate name _
  case le_largest =>
    intro hlength entry hentry
    rw [List.length_append, List.length_singleton] at hlength
    rcases List.mem_append.1 hentry with hold | hnew
    · exact h.le_largest (by omega) entry hold
    · rw [List.mem_singleton.1 hnew]
      apply allocate_le_largest
      rw [List.length_map]
      omega
  case wanted =>
    intro earlier other id later hsplit hfree
    -- The entry is the new one, or it is one of the old ones with the new one behind it.
    rcases List.eq_nil_or_concat later with rfl | ⟨later, last, rfl⟩
    · obtain ⟨rfl, hlast⟩ := List.append_inj' hsplit rfl
      obtain ⟨rfl, rfl⟩ := Prod.mk.inj (List.singleton_inj.1 hlast)
      exact allocate_eq_wanted hfree
    · rw [List.concat_eq_append, ← List.cons_append, ← List.append_assoc] at hsplit
      obtain ⟨hold, -⟩ := List.append_inj' hsplit rfl
      exact h.wanted earlier other id later hold hfree

end SerpentCsg.Identifier
