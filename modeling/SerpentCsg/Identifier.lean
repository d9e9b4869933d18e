import SerpentCsg.Text.Natural

/-! # Identifiers

  Cards name things by words, and the output numbers them. A name that is a number keeps it;
  any other name is hashed, so that it always gets the same number. Where the number is taken, the
  next free one is used.
-/

namespace SerpentCsg.Identifier

/-- Largest identifier, the largest signed 32-bit number. -/
def largest : Nat := 0x7fffffff

/-! ### The number of a name -/

/-- Start value of the hash. -/
def hashStart : UInt32 := 0x811c9dc5

/-- Multiplier of the hash. -/
def hashPrime : UInt32 := 0x01000193

/-- Hash of some bytes: each is mixed in by exclusive or and followed by a multiplication modulo
    `2 ^ 32`. -/
def hash (bytes : List UInt8) : UInt32 :=
  bytes.foldl (fun h byte => (h ^^^ byte.toUInt32) * hashPrime) hashStart

/-- The number that stands for a name: its own value where it is a number of the allowed range,
    otherwise its hash without the top bit, and one in place of zero. -/
def ofName (name : String) : Nat :=
  let hashed :=
    let h := (hash name.toUTF8.data.toList).toNat % (largest + 1)
    if h == 0 then 1 else h
  match Text.natural? Text.max32 name.toList with
  | some n => if n ≤ largest then n else hashed
  | none => hashed

/-! ### Free numbers -/

/-- The number `steps` places after `start`, counting upwards and going on at one after the
    largest. -/
def after (start steps : Nat) : Nat := (start - 1 + steps) % largest + 1

/-- The first number from that of the name on that is not taken. Among one more candidates than
    there are taken numbers one is free, as long as any number is. Were all numbers taken, the
    search would not end; a number past all of them stands for that. -/
def allocate (name : String) (taken : List Nat) : Nat :=
  let start := max (ofName name) 1
  let candidates := (List.range (taken.length + 1)).map (after start)
  (candidates.find? fun id => !taken.contains id).getD (taken.foldl max largest + 1)

/-- The greatest of some numbers is not below any of them. -/
theorem le_foldl_max {start n : Nat} {numbers : List Nat} (h : n ≤ start ∨ n ∈ numbers) :
    n ≤ numbers.foldl max start := by
  induction numbers generalizing start with
  | nil => simpa using h
  | cons m numbers ih =>
    simp only [List.mem_cons] at h
    apply ih
    rcases h with h | rfl | h
    · exact .inl (by omega)
    · exact .inl (by omega)
    · exact .inr h

/-- What is allocated was free. -/
theorem allocate_not_mem (name : String) (taken : List Nat) : allocate name taken ∉ taken := by
  intro hmem
  unfold allocate at hmem
  cases hfind : ((List.range (taken.length + 1)).map (after (max (ofName name) 1))).find?
      (fun id => !taken.contains id) with
  | some id =>
    simp only [hfind, Option.getD_some] at hmem
    have hfree := List.find?_some hfind
    simp [hmem] at hfree
  | none =>
    simp only [hfind, Option.getD_none] at hmem
    have hle : taken.foldl max largest + 1 ≤ taken.foldl max largest := le_foldl_max (.inr hmem)
    omega

end SerpentCsg.Identifier
