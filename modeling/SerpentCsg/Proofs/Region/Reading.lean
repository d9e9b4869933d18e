import SerpentCsg.Proofs.Region.Grammar
import SerpentCsg.Proofs.Text.Reading

/-! # Reading Follows the Grammar

  The reader of region expressions accepts exactly the token sequences of the grammar, and gives
  the region that they stand for.

  - *soundness*: what a reader takes from the front of the lexemes is derived by the grammar;
  - *completeness*: what the grammar derives is read, whatever follows an operand, and up to
    a closing parenthesis or the end for a union. The depth that bounds the reader is never reached,
    as nesting takes tokens.

  As operands are read whatever follows them, no operand is the beginning of another one.
-/

namespace SerpentCsg.Region

open Text

/-- The tokens of some lexemes, and nothing for a text that is no token. -/
def tokens (ls : List Lexeme) : List (Option Token) := ls.map (·.token)

@[simp] theorem tokens_nil : tokens [] = [] := rfl

@[simp] theorem tokens_cons (l : Lexeme) (ls : List Lexeme) :
    tokens (l :: ls) = l.token :: tokens ls := rfl

@[simp] theorem tokens_append (ls ms : List Lexeme) :
    tokens (ls ++ ms) = tokens ls ++ tokens ms := List.map_append

@[simp] theorem length_tokens (ls : List Lexeme) : (tokens ls).length = ls.length := by
  simp [tokens]

theorem skip?_cons {t : Token} {l : Lexeme} {ls : List Lexeme} (h : l.token = some t) :
    skip? t (l :: ls) = some ls := if_pos h

theorem tokens_of_skip? {t : Token} {ls rest : List Lexeme} (h : skip? t ls = some rest) :
    tokens ls = some t :: tokens rest := by
  cases ls with
  | nil => simp [skip?] at h
  | cons l ls =>
    simp only [skip?] at h
    split at h
    · next htoken =>
      obtain rfl := Option.some.inj h
      simp [htoken]
    · simp at h

section Equations

variable {operand : List Lexeme → Reading} {ls ls₁ rest : List Lexeme} {first r : Region}

theorem readIntersection_of_ok (h : operand ls = .ok (first, ls₁)) :
    readIntersection operand ls =
      .ok (combine .intersection (first :: (many (furtherOperand operand) ls₁).1),
        (many (furtherOperand operand) ls₁).2) := by
  unfold readIntersection
  rw [h]
  dsimp only
  rcases many (furtherOperand operand) ls₁ with ⟨_ | ⟨second, others⟩, left⟩ <;> rfl

/-- An intersection is read as a first operand and the operands after it. -/
theorem readIntersection_eq_ok_iff :
    readIntersection operand ls = .ok (r, rest) ↔
      ∃ first ls₁ others, operand ls = .ok (first, ls₁) ∧
        many (furtherOperand operand) ls₁ = (others, rest) ∧
        r = combine .intersection (first :: others) := by
  constructor
  · intro h
    cases hfirst : operand ls with
    | error e => unfold readIntersection at h; rw [hfirst] at h; simp at h
    | ok read =>
      rw [readIntersection_of_ok hfirst, Except.ok.injEq, Prod.mk.injEq] at h
      obtain ⟨rfl, rfl⟩ := h
      exact ⟨_, _, _, rfl, rfl, rfl⟩
  · rintro ⟨first, ls₁, others, hfirst, hmany, rfl⟩
    rw [readIntersection_of_ok hfirst, hmany]

theorem readUnion_of_ok (h : readIntersection operand ls = .ok (first, ls₁)) :
    readUnion operand ls =
      .ok (combine .union (first :: (many (furtherIntersection operand) ls₁).1),
        (many (furtherIntersection operand) ls₁).2) := by
  unfold readUnion
  rw [h]
  dsimp only
  rcases many (furtherIntersection operand) ls₁ with ⟨_ | ⟨second, others⟩, left⟩ <;> rfl

/-- A union is read as a first intersection and the intersections after it. -/
theorem readUnion_eq_ok_iff :
    readUnion operand ls = .ok (r, rest) ↔
      ∃ first ls₁ others, readIntersection operand ls = .ok (first, ls₁) ∧
        many (furtherIntersection operand) ls₁ = (others, rest) ∧
        r = combine .union (first :: others) := by
  constructor
  · intro h
    cases hfirst : readIntersection operand ls with
    | error e => unfold readUnion at h; rw [hfirst] at h; simp at h
    | ok read =>
      rw [readUnion_of_ok hfirst, Except.ok.injEq, Prod.mk.injEq] at h
      obtain ⟨rfl, rfl⟩ := h
      exact ⟨_, _, _, rfl, rfl, rfl⟩
  · rintro ⟨first, ls₁, others, hfirst, hmany, rfl⟩
    rw [readUnion_of_ok hfirst, hmany]

end Equations

/-! ### Soundness -/

/-- Whatever is read as an operand is one. -/
def ReadsOperands (operand : List Lexeme → Reading) : Prop :=
  ∀ ls r rest, operand ls = .ok (r, rest) →
    ∃ ts, tokens ls = ts.map some ++ tokens rest ∧ IsOperand ts r

section Soundness

variable {operand : List Lexeme → Reading}

/-- A further operand is an operand, possibly after an ampersand. -/
private theorem furtherOperand_sound (hop : ReadsOperands operand) {ls rest : List Lexeme}
    {r : Region} (h : furtherOperand operand ls = some (r, rest)) :
    ∃ ts, IsOperand ts r ∧ (tokens ls = ts.map some ++ tokens rest ∨
      tokens ls = some .ampersand :: (ts.map some ++ tokens rest)) := by
  unfold furtherOperand at h
  cases hread : operand ((skip? .ampersand ls).getD ls) with
  | error e => rw [hread] at h; simp [Except.toOption] at h
  | ok read =>
    rw [hread] at h
    obtain rfl : read = (r, rest) := Option.some.inj h
    obtain ⟨ts, hts, hr⟩ := hop _ _ _ hread
    refine ⟨ts, hr, ?_⟩
    cases hskip : skip? .ampersand ls with
    | none => rw [hskip] at hts; exact .inl hts
    | some ls' =>
      rw [hskip] at hts
      rw [tokens_of_skip? hskip]
      exact .inr (congrArg _ hts)

private theorem furtherOperand_takes (hop : ReadsOperands operand) :
    Takes (furtherOperand operand) := by
  intro ls r rest h
  obtain ⟨ts, hr, hts⟩ := furtherOperand_sound hop h
  obtain ⟨t, us, rfl, _⟩ := hr.head
  rcases hts with hts | hts <;>
    · have := congrArg List.length hts
      simp only [length_tokens, List.length_append, List.length_cons, List.length_map] at this
      omega

/-- An operand with the further operands after it is an intersection. -/
private theorem isIntersection_of_repeats (hop : ReadsOperands operand) {ls rest : List Lexeme}
    {others : List Region} (h : Repeats (furtherOperand operand) ls others rest) :
    ∀ {ts₀ : List Token} {first : Region}, IsOperand ts₀ first →
      ∃ ts, tokens ls = ts.map some ++ tokens rest ∧
        IsIntersection (ts₀ ++ ts) (first :: others) := by
  -- By induction on the repetition, for any operand in front: the next one takes its place.
  induction h with
  | stop _ =>
    intro ts₀ first hfirst
    exact ⟨[], by simp, by simpa using IsIntersection.single hfirst⟩
  | next hread _ ih =>
    intro ts₀ first hfirst
    obtain ⟨ts₁, hnext, htokens⟩ := furtherOperand_sound hop hread
    obtain ⟨ts₂, hrest, hothers⟩ := ih hnext
    rcases htokens with htokens | htokens
    · refine ⟨ts₁ ++ ts₂, ?_, .beside hfirst hothers⟩
      rw [htokens, hrest, List.map_append, List.append_assoc]
    · refine ⟨.ampersand :: (ts₁ ++ ts₂), ?_, .ampersand hfirst hothers⟩
      rw [htokens, hrest, List.map_cons, List.map_append, List.cons_append, List.append_assoc]

private theorem readIntersection_sound (hop : ReadsOperands operand) {ls rest : List Lexeme}
    {r : Region} (h : readIntersection operand ls = .ok (r, rest)) :
    ∃ ts parts, tokens ls = ts.map some ++ tokens rest ∧ IsIntersection ts parts ∧
      r = combine .intersection parts := by
  obtain ⟨first, ls₁, others, hfirst, hmany, rfl⟩ := readIntersection_eq_ok_iff.1 h
  obtain ⟨ts₀, htokens, hoperand⟩ := hop _ _ _ hfirst
  have hrepeats := (many_eq_iff (furtherOperand_takes hop)).1 hmany
  obtain ⟨ts, hrest, hparts⟩ := isIntersection_of_repeats hop hrepeats hoperand
  refine ⟨ts₀ ++ ts, _, ?_, hparts, rfl⟩
  rw [htokens, hrest, List.map_append, List.append_assoc]

/-- A further intersection comes after a bar. -/
private theorem furtherIntersection_sound (hop : ReadsOperands operand) {ls rest : List Lexeme}
    {r : Region} (h : furtherIntersection operand ls = some (r, rest)) :
    ∃ ts parts, tokens ls = some .bar :: (ts.map some ++ tokens rest) ∧ IsIntersection ts parts ∧
      r = combine .intersection parts := by
  unfold furtherIntersection at h
  obtain ⟨ls₁, hskip, hread⟩ := Option.bind_eq_some_iff.1 h
  cases hint : readIntersection operand ls₁ with
  | error e => rw [hint] at hread; simp [Except.toOption] at hread
  | ok read =>
    rw [hint] at hread
    obtain rfl : read = (r, rest) := Option.some.inj hread
    obtain ⟨ts, parts, htokens, hparts, hr⟩ := readIntersection_sound hop hint
    refine ⟨ts, parts, ?_, hparts, hr⟩
    rw [tokens_of_skip? hskip, htokens]

private theorem furtherIntersection_takes (hop : ReadsOperands operand) :
    Takes (furtherIntersection operand) := by
  intro ls r rest h
  obtain ⟨ts, parts, htokens, _⟩ := furtherIntersection_sound hop h
  have := congrArg List.length htokens
  simp only [length_tokens, List.length_append, List.length_cons, List.length_map] at this
  omega

/-- An intersection with the further intersections after it is a union. -/
private theorem isUnion_of_repeats (hop : ReadsOperands operand) {ls rest : List Lexeme}
    {others : List Region} (h : Repeats (furtherIntersection operand) ls others rest) :
    ∀ {ts₀ : List Token} {parts : List Region}, IsIntersection ts₀ parts →
      ∃ ts, tokens ls = ts.map some ++ tokens rest ∧
        IsUnion (ts₀ ++ ts) (combine .intersection parts :: others) := by
  induction h with
  | stop _ =>
    intro ts₀ parts hparts
    exact ⟨[], by simp, by simpa using IsUnion.single hparts⟩
  | next hread _ ih =>
    intro ts₀ parts hparts
    obtain ⟨ts₁, parts₁, htokens, hnext, rfl⟩ := furtherIntersection_sound hop hread
    obtain ⟨ts₂, hrest, hothers⟩ := ih hnext
    refine ⟨.bar :: (ts₁ ++ ts₂), ?_, .bar hparts hothers⟩
    rw [htokens, hrest, List.map_cons, List.map_append, List.cons_append, List.append_assoc]

private theorem readUnion_sound (hop : ReadsOperands operand) {ls rest : List Lexeme}
    {r : Region} (h : readUnion operand ls = .ok (r, rest)) :
    ∃ ts parts, tokens ls = ts.map some ++ tokens rest ∧ IsUnion ts parts ∧
      r = combine .union parts := by
  obtain ⟨first, ls₁, others, hfirst, hmany, rfl⟩ := readUnion_eq_ok_iff.1 h
  obtain ⟨ts₀, parts, htokens, hparts, rfl⟩ := readIntersection_sound hop hfirst
  have hrepeats := (many_eq_iff (furtherIntersection_takes hop)).1 hmany
  obtain ⟨ts, hrest, hunion⟩ := isUnion_of_repeats hop hrepeats hparts
  refine ⟨ts₀ ++ ts, _, ?_, hunion, rfl⟩
  rw [htokens, hrest, List.map_append, List.append_assoc]

end Soundness

/-- What is read as an operand is one, at any depth. -/
theorem readsOperands_readOperand (depth : Nat) : ReadsOperands (readOperand depth) := by
  -- The sequences inside an operand are read at a lower depth, where the hypothesis holds.
  induction depth with
  | zero =>
    intro ls r rest h
    simp [readOperand] at h
  | succ depth ih =>
    intro ls r rest h
    unfold readOperand at h
    split at h
    · next h' here ls' =>
      simp only [Except.ok.injEq, Prod.mk.injEq] at h
      obtain ⟨rfl, rfl⟩ := h
      exact ⟨[.number h'], rfl, .number h'⟩
    · next here ls' =>
      split at h
      · next part ls₁ hpart =>
        simp only [Except.ok.injEq, Prod.mk.injEq] at h
        obtain ⟨rfl, rfl⟩ := h
        obtain ⟨ts, htokens, hr⟩ := ih _ _ _ hpart
        exact ⟨.tilde :: ts, by simp [htokens], .complement hr⟩
      · simp at h
    · next here ls' =>
      split at h
      · simp at h
      · next region ls₁ hunion =>
        split at h
        · next ls₂ hskip =>
          simp only [Except.ok.injEq, Prod.mk.injEq] at h
          obtain ⟨rfl, rfl⟩ := h
          obtain ⟨ts, parts, htokens, hparts, rfl⟩ := readUnion_sound ih hunion
          refine ⟨.opening :: (ts ++ [.closing]), ?_, .group hparts⟩
          simp [htokens, tokens_of_skip? hskip]
        · simp at h
    · simp at h

/-! ### Completeness -/

/-- No operand starts here. -/
def StopsOperands (ls : List Lexeme) : Prop :=
  ∀ l ∈ ls.head?, l.token = some .closing ∨ l.token = some .bar

/-- No operand and no further intersection starts here. -/
def StopsUnion (ls : List Lexeme) : Prop := ∀ l ∈ ls.head?, l.token = some .closing

theorem StopsUnion.stopsOperands {ls : List Lexeme} (h : StopsUnion ls) : StopsOperands ls :=
  fun l hl => .inl (h l hl)

/-- Nothing is read from an ampersand, a bar or a closing parenthesis. -/
private theorem readOperand_eq_error {ls : List Lexeme} (depth : Nat)
    (h : ∀ l ∈ ls.head?, l.token = some .closing ∨ l.token = some .bar ∨
      l.token = some .ampersand) :
    readOperand depth ls = .error (place ls) := by
  cases depth with
  | zero => rfl
  | succ depth =>
    rcases ls with _ | ⟨⟨token, here⟩, ls⟩
    · rfl
    · obtain rfl | rfl | rfl : token = _ ∨ token = _ ∨ token = _ := by simpa using h
      all_goals rfl

private theorem furtherOperand_eq_none {ls : List Lexeme} (depth : Nat) (h : StopsOperands ls) :
    furtherOperand (readOperand depth) ls = none := by
  have hskip : skip? .ampersand ls = none := by
    rcases ls with _ | ⟨⟨token, here⟩, ls⟩
    · rfl
    · obtain rfl | rfl : token = _ ∨ token = _ := by simpa [StopsOperands] using h
      all_goals rfl
  have herror := readOperand_eq_error depth fun l hl => (h l hl).imp_right .inl
  unfold furtherOperand
  rw [hskip, Option.getD_none, herror]
  rfl

private theorem furtherIntersection_eq_none {ls : List Lexeme} (depth : Nat) (h : StopsUnion ls) :
    furtherIntersection (readOperand depth) ls = none := by
  rcases ls with _ | ⟨⟨token, here⟩, ls⟩
  · rfl
  · obtain rfl : token = _ := by simpa [StopsUnion] using h
    rfl

/-- An operand is a further one, with or without an ampersand before it. -/
private theorem furtherOperand_of_ok {depth : Nat} {ls rest : List Lexeme} {r : Region}
    (h : readOperand depth ls = .ok (r, rest)) :
    furtherOperand (readOperand depth) ls = some (r, rest) := by
  have hskip : skip? .ampersand ls = none := by
    cases hskip : skip? .ampersand ls with
    | none => rfl
    | some ls' =>
      -- An operand does not start with an ampersand.
      have hhead : ∀ l ∈ ls.head?, l.token = some .ampersand := by
        cases ls with
        | nil => simp
        | cons l ls => simpa using (List.cons.inj (tokens_of_skip? hskip)).1
      rw [readOperand_eq_error depth fun l hl => .inr (.inr (hhead l hl))] at h
      simp at h
  unfold furtherOperand
  rw [hskip, Option.getD_none, h]
  rfl

private theorem furtherOperand_ampersand {depth : Nat} {l : Lexeme} {ls rest : List Lexeme}
    {r : Region} (hl : l.token = some .ampersand) (h : readOperand depth ls = .ok (r, rest)) :
    furtherOperand (readOperand depth) (l :: ls) = some (r, rest) := by
  unfold furtherOperand
  rw [skip?_cons hl, Option.getD_some, h]
  rfl

private theorem furtherIntersection_bar {depth : Nat} {l : Lexeme} {ls rest : List Lexeme}
    {r : Region} (hl : l.token = some .bar)
    (h : readIntersection (readOperand depth) ls = .ok (r, rest)) :
    furtherIntersection (readOperand depth) (l :: ls) = some (r, rest) := by
  unfold furtherIntersection
  rw [skip?_cons hl, Option.bind_some, h]
  rfl

private theorem readIntersection_of_repeats {depth : Nat} {ls ls₁ rest : List Lexeme}
    {first : Region} {others : List Region} (hfirst : readOperand depth ls = .ok (first, ls₁))
    (hothers : Repeats (furtherOperand (readOperand depth)) ls₁ others rest) :
    readIntersection (readOperand depth) ls =
      .ok (combine .intersection (first :: others), rest) :=
  readIntersection_eq_ok_iff.2 ⟨first, ls₁, others, hfirst,
    (many_eq_iff (furtherOperand_takes (readsOperands_readOperand depth))).2 hothers, rfl⟩

private theorem readUnion_of_repeats {depth : Nat} {ls ls₁ rest : List Lexeme}
    {first : Region} {others : List Region}
    (hfirst : readIntersection (readOperand depth) ls = .ok (first, ls₁))
    (hothers : Repeats (furtherIntersection (readOperand depth)) ls₁ others rest) :
    readUnion (readOperand depth) ls = .ok (combine .union (first :: others), rest) :=
  readUnion_eq_ok_iff.2 ⟨first, ls₁, others, hfirst,
    (many_eq_iff (furtherIntersection_takes (readsOperands_readOperand depth))).2 hothers, rfl⟩

-- By recursion on the depth, and within a depth on the parts that are left. An operand leaves
-- `rest` alone whatever it is; each kind of sequence needs to know that nothing in `rest`
-- continues it.
mutual

theorem IsOperand.readOperand_eq {ts : List Token} {r : Region} (h : IsOperand ts r)
    (depth : Nat) (ls rest : List Lexeme) (hdepth : ts.length ≤ depth)
    (htokens : tokens ls = ts.map some) : readOperand depth (ls ++ rest) = .ok (r, rest) := by
  obtain ⟨depth, rfl⟩ : ∃ n, depth = n + 1 := by
    obtain ⟨t, us, rfl, _⟩ := h.head
    exact ⟨depth - 1, by simp at hdepth; omega⟩
  cases h with
  | number h =>
    obtain ⟨⟨token, here⟩, ls', rfl, htoken, htail⟩ := List.map_eq_cons_iff.1 htokens
    obtain rfl : ls' = [] := List.map_eq_nil_iff.1 htail
    obtain rfl : token = _ := htoken
    rfl
  | complement hpart =>
    obtain ⟨⟨token, here⟩, ls', rfl, htoken, htail⟩ := List.map_eq_cons_iff.1 htokens
    obtain rfl : token = _ := htoken
    have hread := hpart.readOperand_eq depth ls' rest (by simpa using hdepth) htail
    simp only [List.cons_append, readOperand, hread]
  | group hparts =>
    obtain ⟨⟨token, here⟩, ls', rfl, htoken, htail⟩ := List.map_eq_cons_iff.1 htokens
    obtain rfl : token = _ := htoken
    rw [List.map_append] at htail
    obtain ⟨inner, last, rfl, hinner, hlast⟩ := List.map_eq_append_iff.1 htail
    obtain ⟨closing, ls', rfl, hclosing, htail⟩ := List.map_eq_cons_iff.1 hlast
    obtain rfl : ls' = [] := List.map_eq_nil_iff.1 htail
    simp only [List.length_cons, List.length_append, List.length_nil] at hdepth
    have hstops : StopsUnion (closing :: rest) := by simpa [StopsUnion] using hclosing
    obtain ⟨first, ls₁, others, rfl, hfirst, hothers⟩ :=
      hparts.repeats depth inner (closing :: rest) (by omega) hinner hstops
    have hread := readUnion_of_repeats hfirst hothers
    simp only [List.cons_append, List.append_assoc, List.nil_append, readOperand, hread,
      skip?_cons hclosing]
termination_by (depth, 0, sizeOf r)

theorem IsIntersection.repeats {ts : List Token} {parts : List Region}
    (h : IsIntersection ts parts) (depth : Nat) (ls rest : List Lexeme)
    (hdepth : ts.length ≤ depth) (htokens : tokens ls = ts.map some)
    (hstops : StopsOperands rest) :
    ∃ first ls₁ others, parts = first :: others ∧
      readOperand depth (ls ++ rest) = .ok (first, ls₁) ∧
      Repeats (furtherOperand (readOperand depth)) ls₁ others rest := by
  cases h with
  | single hpart =>
    exact ⟨_, rest, [], rfl, hpart.readOperand_eq depth ls rest hdepth htokens,
      .stop (furtherOperand_eq_none depth hstops)⟩
  | beside hpart hparts =>
    rw [List.map_append] at htokens
    obtain ⟨front, back, rfl, hfront, hback⟩ := List.map_eq_append_iff.1 htokens
    simp only [List.length_append] at hdepth
    have hread := hpart.readOperand_eq depth front (back ++ rest) (by omega) hfront
    obtain ⟨second, ls₁, others, rfl, hsecond, hrepeats⟩ :=
      hparts.repeats depth back rest (by omega) hback hstops
    rw [List.append_assoc]
    exact ⟨_, _, _, rfl, hread, .next (furtherOperand_of_ok hsecond) hrepeats⟩
  | ampersand hpart hparts =>
    rw [List.map_append] at htokens
    obtain ⟨front, back, rfl, hfront, hback⟩ := List.map_eq_append_iff.1 htokens
    obtain ⟨l, back, rfl, hl, hback⟩ := List.map_eq_cons_iff.1 hback
    simp only [List.length_append, List.length_cons] at hdepth
    have hread := hpart.readOperand_eq depth front (l :: back ++ rest) (by omega) hfront
    obtain ⟨second, ls₁, others, rfl, hsecond, hrepeats⟩ :=
      hparts.repeats depth back rest (by omega) hback hstops
    rw [List.append_assoc]
    exact ⟨_, _, _, rfl, hread, .next (furtherOperand_ampersand hl hsecond) hrepeats⟩
termination_by (depth, 0, sizeOf parts)

theorem IsUnion.repeats {ts : List Token} {parts : List Region}
    (h : IsUnion ts parts) (depth : Nat) (ls rest : List Lexeme)
    (hdepth : ts.length ≤ depth) (htokens : tokens ls = ts.map some)
    (hstops : StopsUnion rest) :
    ∃ first ls₁ others, parts = first :: others ∧
      readIntersection (readOperand depth) (ls ++ rest) = .ok (first, ls₁) ∧
      Repeats (furtherIntersection (readOperand depth)) ls₁ others rest := by
  cases h with
  | single hparts =>
    obtain ⟨first, ls₁, others, rfl, hfirst, hothers⟩ :=
      hparts.repeats depth ls rest hdepth htokens hstops.stopsOperands
    exact ⟨_, rest, [], rfl, readIntersection_of_repeats hfirst hothers,
      .stop (furtherIntersection_eq_none depth hstops)⟩
  | bar hparts hunion =>
    rw [List.map_append] at htokens
    obtain ⟨front, back, rfl, hfront, hback⟩ := List.map_eq_append_iff.1 htokens
    obtain ⟨l, back, rfl, hl, hback⟩ := List.map_eq_cons_iff.1 hback
    simp only [List.length_append, List.length_cons] at hdepth
    have hbar : StopsOperands (l :: back ++ rest) := by simpa [StopsOperands] using .inr hl
    obtain ⟨first, ls₁, others, rfl, hfirst, hothers⟩ :=
      hparts.repeats depth front (l :: back ++ rest) (by omega) hfront hbar
    obtain ⟨second, ls₂, further, rfl, hsecond, hfurther⟩ :=
      hunion.repeats depth back rest (by omega) hback hstops
    rw [List.append_assoc]
    exact ⟨_, _, _, rfl, readIntersection_of_repeats hfirst hothers,
      .next (furtherIntersection_bar hl hsecond) hfurther⟩
termination_by (depth, 1, sizeOf parts)

end

/-! ### Whole expressions -/

/-- The reader of whole texts accepts the expressions of the grammar. -/
theorem read_eq_ok_iff {s : List Char} {r : Region} :
    read s = .ok r ↔ ∃ ts, tokens (lexemes s) = ts.map some ∧ IsExpression ts r := by
  constructor
  · intro h
    unfold read at h
    dsimp only at h
    split at h
    · simp at h
    · next region hread =>
      obtain rfl := Except.ok.inj h
      obtain ⟨ts, parts, htokens, hparts, rfl⟩ :=
        readUnion_sound (readsOperands_readOperand _) hread
      exact ⟨ts, by simpa using htokens, parts, hparts, rfl⟩
    · simp at h
  · rintro ⟨ts, htokens, parts, hparts, rfl⟩
    have hlength : ts.length = (lexemes s).length := by
      simpa using (congrArg List.length htokens).symm
    obtain ⟨first, ls₁, others, rfl, hfirst, hothers⟩ :=
      hparts.repeats (lexemes s).length (lexemes s) [] (by omega) htokens (by simp [StopsUnion])
    have hread := readUnion_of_repeats hfirst hothers
    rw [List.append_nil] at hread
    unfold read
    simp only [hread]

/-! ### One way to read -/

/-- Tokens as lexemes, without the text that they were read from. -/
def unplaced (ts : List Token) : List Lexeme := ts.map fun t => ⟨some t, []⟩

theorem tokens_unplaced (ts : List Token) : tokens (unplaced ts) = ts.map some := by
  simp [tokens, unplaced]

theorem unplaced_append (ts us : List Token) :
    unplaced (ts ++ us) = unplaced ts ++ unplaced us := List.map_append

theorem unplaced_inj {ts us : List Token} (h : unplaced ts = unplaced us) : ts = us := by
  have := congrArg tokens h
  rw [tokens_unplaced, tokens_unplaced] at this
  exact (List.map_inj_right fun _ _ => Option.some.inj).1 this

/-- Where an operand ends and what it stands for does not depend on what follows it. -/
theorem IsOperand.unique {ts us vs ws : List Token} {r q : Region} (h : IsOperand ts r)
    (h' : IsOperand us q) (he : ts ++ vs = us ++ ws) : ts = us ∧ vs = ws ∧ r = q := by
  -- The reader is a function, and it reads either of them from the same tokens.
  have hread := h.readOperand_eq (ts.length + us.length) (unplaced ts) (unplaced vs) (by omega)
    (tokens_unplaced ts)
  have hread' := h'.readOperand_eq (ts.length + us.length) (unplaced us) (unplaced ws) (by omega)
    (tokens_unplaced us)
  rw [← unplaced_append, he, unplaced_append, hread', Except.ok.injEq, Prod.mk.injEq] at hread
  obtain ⟨rfl, hrest⟩ := hread
  obtain rfl := unplaced_inj hrest
  exact ⟨List.append_cancel_right he, rfl, rfl⟩

/-- An expression stands for one region. -/
theorem IsExpression.unique {ts : List Token} {r q : Region} (h : IsExpression ts r)
    (h' : IsExpression ts q) : r = q := by
  obtain ⟨parts, hparts, rfl⟩ := h
  obtain ⟨others, hothers, rfl⟩ := h'
  -- In parentheses both are operands, and nothing follows them.
  have hgroups := IsOperand.unique (.group hparts) (.group hothers) (congrArg (· ++ []) rfl)
  exact hgroups.2.2

end SerpentCsg.Region
