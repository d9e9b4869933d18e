import SerpentCsg.Text.Natural

/-! # Laws of Reading

  What the small readers do, said without the limits that make them total:

  - `Repeats` is a repetition that goes on for as long as its reader succeeds. `many` computes it
    for every reader that takes something whenever it succeeds.
  - a run of characters of a class is taken whole, if no further character of the class follows,
    and with it a gap and a keyword in front of a gap;
  - the words of a text are its parts between white space, and trimming takes the white space off
    its ends;
  - the digits of a number have its value.
-/

namespace SerpentCsg.Text

/-! ### Repetition -/

section Repetition

variable {σ α : Type} {item : List σ → Option (α × List σ)}

/-- Values read one after another, and what is left where the reader fails. -/
inductive Repeats (item : List σ → Option (α × List σ)) : List σ → List α → List σ → Prop where
  /-- The reader fails at once. -/
  | stop {s : List σ} : item s = none → Repeats item s [] s
  /-- The reader succeeds, and goes on with what it leaves. -/
  | next {s rest left : List σ} {a : α} {as : List α} :
      item s = some (a, rest) → Repeats item rest as left → Repeats item s (a :: as) left

/-- The reader takes something whenever it succeeds. -/
def Takes (item : List σ → Option (α × List σ)) : Prop :=
  ∀ s a rest, item s = some (a, rest) → rest.length < s.length

/-- A repetition gives one result. -/
theorem Repeats.unique {s left left' : List σ} {as bs : List α}
    (h : Repeats item s as left) (h' : Repeats item s bs left') : as = bs ∧ left = left' := by
  induction h generalizing bs left' with
  | stop hnone =>
    cases h' with
    | stop _ => exact ⟨rfl, rfl⟩
    | next hsome _ => rw [hnone] at hsome; simp at hsome
  | next hsome _ ih =>
    cases h' with
    | stop hnone => rw [hsome] at hnone; simp at hnone
    | next hsome' hrest =>
      rw [hsome, Option.some.injEq, Prod.mk.injEq] at hsome'
      obtain ⟨rfl, rfl⟩ := hsome'
      obtain ⟨rfl, rfl⟩ := ih hrest
      exact ⟨rfl, rfl⟩

/-- A limit of as many values as there is input is never reached. -/
theorem repeats_manyAtMost (h : Takes item) :
    ∀ (limit : Nat) (s : List σ), s.length ≤ limit →
      Repeats item s (manyAtMost item limit s).1 (manyAtMost item limit s).2 := by
  intro limit
  induction limit with
  | zero =>
    intro s hs
    cases hitem : item s with
    | none => exact .stop hitem
    | some read =>
      have := h s read.1 read.2 hitem
      omega
  | succ limit ih =>
    intro s hs
    cases hitem : item s with
    | none => simpa [manyAtMost, hitem] using Repeats.stop hitem
    | some read =>
      obtain ⟨a, rest⟩ := read
      have hlt := h s a rest hitem
      simpa [manyAtMost, hitem] using Repeats.next hitem (ih rest (by omega))

theorem repeats_many (h : Takes item) (s : List σ) :
    Repeats item s (many item s).1 (many item s).2 :=
  repeats_manyAtMost h s.length s (Nat.le_refl _)

/-- Repetition is what `manyAtMost` computes, if the limit is no less than the input. -/
theorem manyAtMost_eq_iff (h : Takes item) {limit : Nat} {s left : List σ} {as : List α}
    (hs : s.length ≤ limit) : manyAtMost item limit s = (as, left) ↔ Repeats item s as left := by
  have hcomputed := repeats_manyAtMost h limit s hs
  constructor
  · intro he
    rwa [he] at hcomputed
  · intro hr
    obtain ⟨h₁, h₂⟩ := hcomputed.unique hr
    exact Prod.ext h₁ h₂

/-- Repetition is what `many` computes. -/
theorem many_eq_iff (h : Takes item) {s left : List σ} {as : List α} :
    many item s = (as, left) ↔ Repeats item s as left :=
  manyAtMost_eq_iff h (Nat.le_refl _)

end Repetition

/-! ### Runs -/

/-- The text does not go on with a character of the class. -/
def Ends (p : Char → Bool) (s : List Char) : Prop := ∀ c ∈ s.head?, p c = false

@[simp] theorem ends_nil (p : Char → Bool) : Ends p [] := by simp [Ends]

@[simp] theorem ends_cons (p : Char → Bool) (c : Char) (s : List Char) :
    Ends p (c :: s) ↔ p c = false := by simp [Ends]

instance decidableEnds (p : Char → Bool) : ∀ s, Decidable (Ends p s)
  | [] => .isTrue (ends_nil p)
  | c :: s => decidable_of_iff (p c = false) (ends_cons p c s).symm

theorem Ends.mono {p q : Char → Bool} {s : List Char} (h : Ends p s)
    (hpq : ∀ c, p c = false → q c = false) : Ends q s := fun c hc => hpq c (h c hc)

/-- A text ends a class like its front does, and like its back if the front is empty. -/
theorem Ends.append {p : Char → Bool} {s t : List Char} (hs : Ends p s) (ht : s = [] → Ends p t) :
    Ends p (s ++ t) := by
  cases s with
  | nil => exact ht rfl
  | cons c s => exact hs

theorem Ends.of_append {p : Char → Bool} {s t : List Char} (h : Ends p (s ++ t)) : Ends p s := by
  cases s with
  | nil => exact ends_nil p
  | cons c s => exact h

theorem takeWhile_of_ends {p : Char → Bool} {s : List Char} (h : Ends p s) :
    s.takeWhile p = [] := by
  cases s with
  | nil => rfl
  | cons c s => simp_all

theorem dropWhile_of_ends {p : Char → Bool} {s : List Char} (h : Ends p s) :
    s.dropWhile p = s := by
  cases s with
  | nil => rfl
  | cons c s => simp_all

theorem ends_dropWhile (p : Char → Bool) (s : List Char) : Ends p (s.dropWhile p) := by
  intro c hc
  have := List.head?_dropWhile_not p s
  rw [hc] at this
  simpa using this

/-- A run is all of the characters of the class that the text starts with. -/
theorem run_eq_some_iff {p : Char → Bool} {s chosen rest : List Char} :
    run p s = some (chosen, rest) ↔
      s = chosen ++ rest ∧ chosen ≠ [] ∧ (∀ c ∈ chosen, p c = true) ∧ Ends p rest := by
  unfold run
  constructor
  · intro h
    split at h
    · simp at h
    · next c others htake =>
      simp only [Option.some.injEq, Prod.mk.injEq] at h
      obtain ⟨rfl, rfl⟩ := h
      refine ⟨?_, by simp, ?_, ends_dropWhile p s⟩
      · rw [← htake, List.takeWhile_append_dropWhile]
      · intro d hd
        rw [← htake] at hd
        exact List.all_eq_true.1 List.all_takeWhile d hd
  · rintro ⟨rfl, hne, hall, hrest⟩
    rw [List.takeWhile_append_of_pos hall, takeWhile_of_ends hrest, List.append_nil,
      List.dropWhile_append_of_pos hall, dropWhile_of_ends hrest]
    cases chosen with
    | nil => exact absurd rfl hne
    | cons c chosen => rfl

theorem run_of_ends {p : Char → Bool} {s : List Char} (h : Ends p s) : run p s = none := by
  rw [run, takeWhile_of_ends h]

/-- Two lists that are the same are split at the same place by what is in neither first part. -/
theorem append_cons_inj {α : Type} {a : α} {l l' rest rest' : List α} (hl : a ∉ l)
    (hl' : a ∉ l') (h : l ++ a :: rest = l' ++ a :: rest') : l = l' ∧ rest = rest' := by
  induction l generalizing l' with
  | nil =>
    cases l' with
    | nil => exact ⟨rfl, (List.cons.inj h).2⟩
    | cons b l' =>
      rw [(List.cons.inj h).1] at hl'
      exact absurd List.mem_cons_self hl'
  | cons b l ih =>
    rw [List.mem_cons, not_or] at hl
    cases l' with
    | nil => exact absurd (List.cons.inj h).1.symm hl.1
    | cons c l' =>
      obtain ⟨rfl, htail⟩ := List.cons.inj h
      rw [List.mem_cons, not_or] at hl'
      obtain ⟨rfl, hrest⟩ := ih hl.2 hl'.2 htail
      exact ⟨rfl, hrest⟩

/-! ### Gaps and keywords -/

theorem not_isGap_of_not_isWhite {c : Char} (h : isWhite c = false) : isGap c = false := by
  cases hgap : isGap c with
  | false => rfl
  | true =>
    have hwhite := isWhite_of_isGap hgap
    rw [h] at hwhite
    simp at hwhite

/-- Spaces and tabs, at least one. -/
def Gap (s : List Char) : Prop := s ≠ [] ∧ ∀ c ∈ s, isGap c = true

instance decidableGap (s : List Char) : Decidable (Gap s) :=
  decidable_of_iff ((!s.isEmpty && s.all isGap) = true) (by simp [Gap])

theorem gap_space : Gap [' '] := by decide

theorem Gap.ends {gap : List Char} (h : Gap gap) {p : Char → Bool}
    (hp : ∀ c, isGap c = true → p c = false) (s : List Char) : Ends p (gap ++ s) := by
  cases gap with
  | nil => exact absurd rfl h.1
  | cons c gap => exact (ends_cons p c _).2 (hp c (h.2 c List.mem_cons_self))

theorem afterText_eq_some_iff {expected s rest : List Char} :
    afterText expected s = some rest ↔ s = expected ++ rest := by
  induction expected generalizing s with
  | nil => simp [afterText]
  | cons e expected ih =>
    cases s with
    | nil => simp [afterText]
    | cons c s =>
      by_cases he : e = c
      · simp [afterText, he, ih]
      · have hne : ¬ c = e := fun hc => he hc.symm
        simp [afterText, he, hne]

theorem afterText_append (expected s : List Char) : afterText expected (expected ++ s) = some s :=
  afterText_eq_some_iff.2 rfl

theorem afterGap_eq_some_iff {s rest : List Char} :
    afterGap s = some rest ↔ ∃ gap, Gap gap ∧ s = gap ++ rest ∧ Ends isGap rest := by
  unfold afterGap
  rw [Option.map_eq_some_iff]
  constructor
  · rintro ⟨⟨gap, left⟩, hrun, rfl⟩
    obtain ⟨hs, hne, hgap, hends⟩ := run_eq_some_iff.1 hrun
    exact ⟨gap, ⟨hne, hgap⟩, hs, hends⟩
  · rintro ⟨gap, hgap, hs, hends⟩
    exact ⟨(gap, rest), run_eq_some_iff.2 ⟨hs, hgap.1, hgap.2, hends⟩, rfl⟩

theorem afterGap_append {gap s : List Char} (hgap : Gap gap) (hs : Ends isGap s) :
    afterGap (gap ++ s) = some s :=
  afterGap_eq_some_iff.2 ⟨gap, hgap, rfl, hs⟩

theorem afterKeyword_eq_some_iff {word : String} {s rest : List Char} :
    afterKeyword word s = some rest ↔
      ∃ gap, Gap gap ∧ s = word.toList ++ (gap ++ rest) ∧ Ends isGap rest := by
  unfold afterKeyword
  rw [Option.bind_eq_some_iff]
  constructor
  · rintro ⟨left, hword, hleft⟩
    obtain ⟨gap, hgap, rfl, hends⟩ := afterGap_eq_some_iff.1 hleft
    exact ⟨gap, hgap, afterText_eq_some_iff.1 hword, hends⟩
  · rintro ⟨gap, hgap, hs, hends⟩
    exact ⟨gap ++ rest, afterText_eq_some_iff.2 hs, afterGap_eq_some_iff.2 ⟨gap, hgap, rfl, hends⟩⟩

theorem afterKeyword_append (word : String) {gap s : List Char} (hgap : Gap gap)
    (hs : Ends isGap s) : afterKeyword word (word.toList ++ (gap ++ s)) = some s :=
  afterKeyword_eq_some_iff.2 ⟨gap, hgap, rfl, hs⟩

/-! ### Words -/

/-- Something other than white space, at least one character of it. -/
def Solid (word : List Char) : Prop := word ≠ [] ∧ ∀ c ∈ word, isWhite c = false

instance decidableSolid (word : List Char) : Decidable (Solid word) :=
  decidable_of_iff ((!word.isEmpty && word.all (!isWhite ·)) = true) (by simp [Solid])

theorem Solid.ends {word : List Char} (h : Solid word) (s : List Char) :
    Ends isWhite (word ++ s) := by
  cases word with
  | nil => exact absurd rfl h.1
  | cons c word => exact (ends_cons _ c _).2 (h.2 c List.mem_cons_self)

theorem Solid.ends_isGap {word : List Char} (h : Solid word) (s : List Char) :
    Ends isGap (word ++ s) := (h.ends s).mono fun _ => not_isGap_of_not_isWhite

theorem Solid.reverse {word : List Char} (h : Solid word) : Solid word.reverse :=
  ⟨by simpa using h.1, fun c hc => h.2 c (List.mem_reverse.1 hc)⟩

/-- White space in front of a text makes no word. -/
theorem words_append_of_white {gap : List Char} (h : ∀ c ∈ gap, isWhite c = true) (s : List Char) :
    words (gap ++ s) = words s := by
  induction gap with
  | nil => rfl
  | cons c gap ih =>
    obtain ⟨hc, hgap⟩ := List.forall_mem_cons.1 h
    rw [List.cons_append, words, pieces, if_pos hc, List.filter_cons_of_neg (by simp)]
    exact ih hgap

/-- What stands in front of the first piece joins it. -/
private theorem pieces_append {word s piece : List Char} {others : List (List Char)}
    (hword : ∀ c ∈ word, isWhite c = false) (hs : pieces s = piece :: others) :
    pieces (word ++ s) = (word ++ piece) :: others := by
  induction word with
  | nil => exact hs
  | cons c word ih =>
    obtain ⟨hc, hrest⟩ := List.forall_mem_cons.1 hword
    rw [List.cons_append, pieces, ih hrest]
    simp [hc]

/-- A word ends where white space follows it, or nothing. -/
theorem words_append_of_solid {word s : List Char} (hword : Solid word)
    (hs : Ends (!isWhite ·) s) : words (word ++ s) = word :: words s := by
  -- The piece that `s` starts with is empty, so the first piece is the word.
  obtain ⟨others, hpieces⟩ : ∃ others, pieces s = [] :: others := by
    cases s with
    | nil => exact ⟨[], rfl⟩
    | cons c s =>
      have hc : isWhite c = true := by simpa using hs
      exact ⟨pieces s, by rw [pieces, if_pos hc]⟩
  have hne : word.isEmpty = false := by simpa using hword.1
  unfold words
  rw [pieces_append hword.2 hpieces, hpieces, List.append_nil]
  simp [hne]

/-! ### Trimming -/

/-- Trimming takes off the white space around a text that has none at its own ends. -/
theorem trim_append {before s after : List Char} (hbefore : ∀ c ∈ before, isWhite c = true)
    (hafter : ∀ c ∈ after, isWhite c = true) (hfirst : Ends isWhite s)
    (hlast : Ends isWhite s.reverse) : trim (before ++ s ++ after) = s := by
  rw [trim, trimStart, List.append_assoc, List.dropWhile_append_of_pos hbefore]
  cases s with
  | nil =>
    rw [List.nil_append, ← List.append_nil after, List.dropWhile_append_of_pos hafter]
    rfl
  | cons c s =>
    have hends : Ends isWhite ((c :: s) ++ after) := hfirst
    have hreverse : ∀ d ∈ after.reverse, isWhite d = true := fun d hd =>
      hafter d (List.mem_reverse.1 hd)
    rw [dropWhile_of_ends hends, trimEnd, List.reverse_append,
      List.dropWhile_append_of_pos hreverse, dropWhile_of_ends hlast, List.reverse_reverse]

/-- What trimming takes off the end, behind what it leaves. -/
theorem trim_append_whiteEnd (s : List Char) :
    trim s ++ ((trimStart s).reverse.takeWhile isWhite).reverse = trimStart s := by
  -- What stands at the end of a text stands at the start of the reversed text.
  rw [trim, trimEnd, ← List.reverse_append, List.takeWhile_append_dropWhile, List.reverse_reverse]

/-- Every text is its trimmed text with white space around it. -/
theorem exists_trim (s : List Char) : ∃ before after : List Char,
    s = before ++ trim s ++ after ∧ (∀ c ∈ before, isWhite c = true) ∧
      ∀ c ∈ after, isWhite c = true := by
  have hwhite : ∀ t : List Char, ∀ c ∈ t.takeWhile isWhite, isWhite c = true := fun _ c hc =>
    List.all_eq_true.1 List.all_takeWhile c hc
  refine ⟨s.takeWhile isWhite, ((trimStart s).reverse.takeWhile isWhite).reverse, ?_, hwhite s, ?_⟩
  · rw [List.append_assoc, trim_append_whiteEnd, trimStart, List.takeWhile_append_dropWhile]
  · exact fun c hc => hwhite _ c (List.mem_reverse.1 hc)

/-- A trimmed text has no white space at its ends. -/
theorem ends_trim (s : List Char) : Ends isWhite (trim s) ∧ Ends isWhite (trim s).reverse := by
  constructor
  · have hstart : Ends isWhite (trimStart s) := ends_dropWhile isWhite s
    rw [← trim_append_whiteEnd] at hstart
    exact hstart.of_append
  · rw [trim, trimEnd, List.reverse_reverse]
    exact ends_dropWhile isWhite _

/-! ### Numbers -/

/-- The digits of a number have its value. -/
theorem digitsValue_repr (n : Nat) : digitsValue n.repr.toList = n := by
  rw [Nat.toList_repr]
  exact Nat.ofDigitChars_eq_foldl.symm.trans Nat.ofDigitChars_ten_toDigits

theorem isDigit_of_mem_repr {n : Nat} {c : Char} (h : c ∈ n.repr.toList) : isDigit c = true := by
  rw [Nat.toList_repr] at h
  exact Nat.isDigit_of_mem_toDigits (by decide) (by decide) h

theorem repr_toList_ne_nil (n : Nat) : n.repr.toList ≠ [] := by
  rw [Nat.toList_repr]
  exact Nat.toDigits_ne_nil

theorem boundedDigits?_eq (bound : Nat) {digits : List Char} (hne : digits ≠ [])
    (hall : ∀ c ∈ digits, isDigit c = true) :
    boundedDigits? bound digits =
      if digitsValue digits ≤ bound then some (digitsValue digits) else none := by
  have hempty : digits.isEmpty = false := by simpa using hne
  have hdigits : digits.all isDigit = true := by simpa using hall
  simp [boundedDigits?, hempty, hdigits]

theorem boundedDigits?_eq_some_iff {bound : Nat} {digits : List Char} {n : Nat} :
    boundedDigits? bound digits = some n ↔
      digits ≠ [] ∧ (∀ c ∈ digits, isDigit c = true) ∧ digitsValue digits = n ∧ n ≤ bound := by
  constructor
  · intro h
    have hread : ¬ (digits.isEmpty || !digits.all isDigit) := fun hbad => by
      rw [boundedDigits?, if_pos hbad] at h
      exact absurd h (by simp)
    obtain ⟨hne, hall⟩ : digits ≠ [] ∧ ∀ c ∈ digits, isDigit c = true := by simpa using hread
    rw [boundedDigits?_eq bound hne hall, Option.ite_none_right_eq_some, Option.some.injEq] at h
    obtain ⟨hle, rfl⟩ := h
    exact ⟨hne, hall, rfl, hle⟩
  · rintro ⟨hne, hall, rfl, hle⟩
    rw [boundedDigits?_eq bound hne hall, if_pos hle]

/-- A natural number is written with digits, and may have a plus sign in front of them. -/
theorem natural?_eq_some_iff {bound : Nat} {word : List Char} {n : Nat} :
    natural? bound word = some n ↔
      ∃ sign digits, word = sign ++ digits ∧ (sign = [] ∨ sign = ['+']) ∧
        boundedDigits? bound digits = some n := by
  constructor
  · intro h
    unfold natural? at h
    split at h
    · exact ⟨['+'], _, rfl, .inr rfl, h⟩
    · exact ⟨[], _, rfl, .inl rfl, h⟩
  · rintro ⟨sign, digits, rfl, rfl | rfl, h⟩
    · -- No digit is a plus sign, so the digits are not taken for a signed number.
      obtain ⟨hne, hdigits, -, -⟩ := boundedDigits?_eq_some_iff.1 h
      unfold natural?
      split
      · next rest heq =>
        obtain rfl : digits = '+' :: rest := heq
        exact absurd (hdigits '+' List.mem_cons_self) (by decide)
      · exact h
    · exact h

theorem le_of_natural? {bound : Nat} {word : List Char} {n : Nat}
    (h : natural? bound word = some n) : n ≤ bound := by
  obtain ⟨sign, digits, -, -, hdigits⟩ := natural?_eq_some_iff.1 h
  exact (boundedDigits?_eq_some_iff.1 hdigits).2.2.2

end SerpentCsg.Text
