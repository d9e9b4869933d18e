import SerpentCsg.Proofs.Identifier

/-! # The Search for a Free Number

  A name whose number is taken gets the first free one behind it. The search goes from one 32-bit
  number to the next, goes on at one after the largest, and has no other end than a free number.

  What brings it to an end is the distance from the number that is looked at to a free one, counted
  the way that the search goes: every step that finds a number taken makes it one less. So the
  search ends as long as a number is free. No addition overflows on the way, and the number that is
  found is the one that `allocate` gives.
-/

namespace SerpentCsg.Identifier

/-! ### The way around -/

/-- A number that names can have. -/
def Allowed (id : Nat) : Prop := 1 ≤ id ∧ id ≤ largest

/-- How many steps upwards it takes from one number to another, going on at one after the
    largest. -/
def distance (start id : Nat) : Nat := if start ≤ id then id - start else id + largest - start

section Distances

variable {start id other : Nat} (hstart : Allowed start)

theorem distance_self (id : Nat) : distance id id = 0 := by simp [distance]

include hstart

/-- A step upwards comes nearer to everything but the number that it leaves. -/
theorem distance_next (hid : Allowed id) (hne : start ≠ id) :
    distance (start % largest + 1) id + 1 = distance start id := by
  obtain ⟨-, hle⟩ := hstart
  obtain ⟨hpos, hid⟩ := hid
  rcases Nat.lt_or_eq_of_le hle with hlt | rfl
  · rw [Nat.mod_eq_of_lt hlt]
    unfold distance
    split <;> split <;> omega
  · -- From the largest number the step goes to one.
    rw [Nat.mod_self]
    unfold distance
    split <;> split <;> omega

theorem distance_lt_largest (hid : Allowed id) : distance start id < largest := by
  simp only [distance, Allowed, largest] at *
  split <;> omega

theorem after_distance (hid : Allowed id) : after start (distance start id) = id := by
  simp only [after, distance, Allowed, largest] at *
  split <;> omega

theorem distance_after {steps : Nat} (h : steps < largest) :
    distance start (after start steps) = steps := by
  by_cases hround : start + steps ≤ largest
  · have hafter : after start steps = start + steps := by
      simp only [after, Allowed, largest] at *
      omega
    rw [hafter, distance, if_pos (Nat.le_add_right _ _), Nat.add_sub_cancel_left]
  · have hafter : after start steps = start + steps - largest := by
      simp only [after, Allowed, largest] at *
      omega
    rw [hafter, distance, if_neg (by omega)]
    omega

theorem eq_of_distance_eq (hid : Allowed id) (hother : Allowed other)
    (h : distance start id = distance start other) : id = other := by
  rw [← after_distance hstart hid, h, after_distance hstart hother]

end Distances

/-- The number is free, and all numbers that are met before it are taken. -/
structure IsFirstFree (taken : List Nat) (start id : Nat) : Prop where
  allowed : Allowed id
  free : id ∉ taken
  before : ∀ other, Allowed other → distance start other < distance start id → other ∈ taken

namespace IsFirstFree

variable {taken : List Nat} {start id other : Nat}

theorem unique (hstart : Allowed start) (h : IsFirstFree taken start id)
    (h' : IsFirstFree taken start other) : id = other := by
  rcases Nat.lt_trichotomy (distance start id) (distance start other) with hlt | heq | hlt
  · exact absurd (h'.before id h.allowed hlt) h.free
  · exact eq_of_distance_eq hstart h.allowed h'.allowed heq
  · exact absurd (h.before other h'.allowed hlt) h'.free

theorem of_free (hstart : Allowed start) (h : start ∉ taken) : IsFirstFree taken start start where
  allowed := hstart
  free := h
  before other _ hlt := by
    rw [distance_self] at hlt
    omega

/-- What is first behind a number that is taken is first from that number on. -/
theorem of_next (hstart : Allowed start) (htaken : start ∈ taken)
    (h : IsFirstFree taken (start % largest + 1) id) : IsFirstFree taken start id where
  allowed := h.allowed
  free := h.free
  before other hother hlt := by
    by_cases heq : start = other
    · rwa [← heq]
    · have hne : start ≠ id := fun heq => h.free (heq ▸ htaken)
      have hstep := distance_next hstart hother heq
      have hstep' := distance_next hstart h.allowed hne
      exact h.before other hother (by omega)

/-- As long as a number is free, it does not take a whole round until one is met. -/
theorem of_steps {free steps : Nat} (hstart : Allowed start) (hout : after start steps ∉ taken)
    (hbefore : ∀ i < steps, after start i ∈ taken) (hallowed : Allowed free)
    (hfree : free ∉ taken) : IsFirstFree taken start (after start steps) := by
  have hmet {other : Nat} (hother : Allowed other) (hlt : distance start other < steps) :
      other ∈ taken := by
    have hmem := hbefore _ hlt
    rwa [after_distance hstart hother] at hmem
  have hsteps : steps < largest := by
    by_contra hmany
    have hlt := distance_lt_largest hstart hallowed
    exact hfree (hmet hallowed (by omega))
  refine ⟨⟨one_le_after _ _, after_le_largest _ _⟩, hout, fun other hother hlt => ?_⟩
  rw [distance_after hstart hsteps] at hlt
  exact hmet hother hlt

end IsFirstFree

/-! ### The search on 32-bit numbers -/

/-- Largest identifier as a 32-bit number. -/
def largestWord : UInt32 := 0x7fffffff

/-- The number that is looked at after another one, and nothing if the addition overflows. -/
def next? (id : UInt32) : Option UInt32 :=
  let below := id % largestWord
  if below.toNat + 1 < UInt32.size then some (below + 1) else none

/-- The search from a number on ends at a number that it finds. It has no end if it goes on for
    ever, and none if an addition overflows. -/
inductive Finds (taken : List Nat) : UInt32 → UInt32 → Prop
  | stop {id : UInt32} : id.toNat ∉ taken → Finds taken id id
  | goOn {id next found : UInt32} : id.toNat ∈ taken → next? id = some next →
      Finds taken next found → Finds taken id found

/-- No addition overflows. -/
theorem next?_eq (id : UInt32) :
    ∃ next, next? id = some next ∧ next.toNat = id.toNat % largest + 1 := by
  have hbelow : (id % largestWord).toNat = id.toNat % largest := UInt32.toNat_mod _ _
  have hlt : id.toNat % largest + 1 < UInt32.size := by
    simp only [largest, UInt32.size]
    omega
  refine ⟨id % largestWord + 1, ?_, ?_⟩
  · rw [next?, if_pos (by rwa [hbelow])]
  · rw [UInt32.toNat_add, hbelow]
    exact Nat.mod_eq_of_lt hlt

theorem allowed_next {id next : UInt32} (h : next? id = some next) : Allowed next.toNat := by
  obtain ⟨next', hnext', hvalue⟩ := next?_eq id
  obtain rfl := Option.some.inj (h.symm.trans hnext')
  simp only [hvalue, Allowed, largest]
  omega

section Search

variable {taken : List Nat} {start id other : UInt32}

theorem Finds.unique (h : Finds taken start id) (h' : Finds taken start other) : id = other := by
  induction h with
  | stop hfree =>
    cases h' with
    | stop => rfl
    | goOn htaken => exact absurd htaken hfree
  | goOn htaken hnext _ ih =>
    cases h' with
    | stop hfree => exact absurd htaken hfree
    | goOn _ hnext' hrest =>
      obtain rfl := Option.some.inj (hnext.symm.trans hnext')
      exact ih hrest

/-- As long as a number is free, the search ends at the first one. -/
theorem exists_finds {free : Nat} (hallowed : Allowed free) (hfree : free ∉ taken)
    (hstart : Allowed start.toNat) :
    ∃ id, Finds taken start id ∧ IsFirstFree taken start.toNat id.toNat := by
  -- By induction on the distance from the free number, which need not be the first one.
  induction hsteps : distance start.toNat free using Nat.strongRecOn generalizing start with
  | _ steps ih =>
    by_cases htaken : start.toNat ∈ taken
    · obtain ⟨next, hnext, hvalue⟩ := next?_eq start
      have hne : start.toNat ≠ free := fun heq => hfree (heq ▸ htaken)
      have hstep := distance_next hstart hallowed hne
      rw [← hvalue] at hstep
      obtain ⟨id, hfinds, hfirst⟩ :=
        ih (distance next.toNat free) (by omega) (allowed_next hnext) rfl
      rw [hvalue] at hfirst
      exact ⟨id, .goOn htaken hnext hfinds, hfirst.of_next hstart htaken⟩
    · exact ⟨start, .stop htaken, .of_free hstart htaken⟩

end Search

/-! ### The number that is allocated -/

theorem allowed_wanted (name : String) : Allowed (wanted name) :=
  ⟨one_le_wanted name, wanted_le_largest name⟩

/-- One of the numbers that `allocate` looks at is free, if any is. -/
theorem exists_candidate {taken : List Nat} {start free : Nat} (hstart : Allowed start)
    (hallowed : Allowed free) (hfree : free ∉ taken) :
    ∃ steps ∈ List.range (taken.length + 1), after start steps ∉ taken := by
  have hlt := distance_lt_largest hstart hallowed
  by_cases hnear : distance start free < taken.length + 1
  · refine ⟨distance start free, List.mem_range.2 hnear, ?_⟩
    rwa [after_distance hstart hallowed]
  · have hroom : taken.length < largest := by omega
    obtain ⟨id, hid, hfree'⟩ := exists_after_not_mem start hroom
    obtain ⟨steps, hsteps, rfl⟩ := List.mem_map.1 hid
    exact ⟨steps, hsteps, hfree'⟩

theorem allocate_eq_after (name : String) {taken : List Nat} {free : Nat} (hallowed : Allowed free)
    (hfree : free ∉ taken) :
    ∃ steps, allocate name taken = after (wanted name) steps ∧
      after (wanted name) steps ∉ taken ∧ ∀ i < steps, after (wanted name) i ∈ taken := by
  obtain ⟨candidate, hcandidate, hout⟩ := exists_candidate (allowed_wanted name) hallowed hfree
  have hallocate : allocate name taken =
      (((List.range (taken.length + 1)).find? fun i => !taken.contains (after (wanted name) i)).map
        (after (wanted name))).getD (taken.foldl max largest + 1) := by
    rw [allocate, List.find?_map]
    rfl
  cases hfind : (List.range (taken.length + 1)).find?
      fun i => !taken.contains (after (wanted name) i) with
  | none =>
    have hnone := List.find?_eq_none.1 hfind candidate hcandidate
    exact absurd hout (by simpa using hnone)
  | some steps =>
    obtain ⟨hsteps, -, hbefore⟩ := List.find?_range_eq_some.1 hfind
    refine ⟨steps, ?_, by simpa using hsteps, fun i hi => by simpa using hbefore i hi⟩
    rw [hallocate, hfind]
    rfl

/-- As long as a number is free, a name is given the first free one, counting upwards from the
    number that it asks for and going on at one after the largest. The search for it on 32-bit
    numbers ends there, and nowhere else, without an overflow. -/
theorem allocate_isFirstFree (name : String) {taken : List Nat}
    (h : ∃ free, Allowed free ∧ free ∉ taken) :
    IsFirstFree taken (wanted name) (allocate name taken) ∧
    ∃ start id : UInt32, start.toNat = wanted name ∧ id.toNat = allocate name taken ∧
      ∀ found, Finds taken start found ↔ found = id := by
  obtain ⟨free, hallowed, hfree⟩ := h
  have hwanted := allowed_wanted name
  obtain ⟨steps, hallocate, hout, hbefore⟩ := allocate_eq_after name hallowed hfree
  have hfirst : IsFirstFree taken (wanted name) (allocate name taken) :=
    hallocate ▸ .of_steps hwanted hout hbefore hallowed hfree
  have hstart : (UInt32.ofNat (wanted name)).toNat = wanted name :=
    UInt32.toNat_ofNat_of_lt' (Nat.lt_of_le_of_lt hwanted.2 (by decide))
  obtain ⟨id, hfinds, hfound⟩ := exists_finds hallowed hfree (hstart.symm ▸ hwanted)
  rw [hstart] at hfound
  refine ⟨hfirst, _, id, hstart, hfound.unique hwanted hfirst, fun found => ?_⟩
  exact ⟨fun hfinds' => hfinds'.unique hfinds, fun heq => heq ▸ hfinds⟩

/-- A name that asks for the largest number is given the third one, if the largest number and the
    first two are taken. -/
theorem allocate_isFirstFree_around :
    allocate "2147483647" [2147483647, 2, 1] = 3 ∧
    IsFirstFree [2147483647, 2, 1] 2147483647 3 ∧
    ∃ start id : UInt32, start.toNat = 2147483647 ∧ id.toNat = 3 ∧
      ∀ found, Finds [2147483647, 2, 1] start found ↔ found = id := by
  have hallocate : allocate "2147483647" [2147483647, 2, 1] = 3 := by decide +kernel
  have hwanted : wanted "2147483647" = 2147483647 := by decide +kernel
  have hfree : ∃ free, Allowed free ∧ free ∉ [2147483647, 2, 1] :=
    ⟨3, ⟨by decide, by decide⟩, by decide⟩
  have hfirst := allocate_isFirstFree "2147483647" hfree
  rw [hallocate, hwanted] at hfirst
  exact ⟨hallocate, hfirst⟩

end SerpentCsg.Identifier
