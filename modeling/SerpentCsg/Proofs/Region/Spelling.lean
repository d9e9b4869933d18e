import Mathlib.Data.List.Forall2
import Mathlib.Data.List.TakeWhile
import SerpentCsg.Proofs.Region.Reading

/-! # Spelling of Region Expressions

  A text spells tokens if it consists of them, in order, with any layout between them. A number is
  an optional sign and a run of digits that no further digit follows.

  The lexemes of such a text are its tokens, up to the first number that exceeds 32 bits. So the
  reader accepts it exactly if all its numbers fit and the tokens are an expression. The other
  way round, a text all of whose lexemes are tokens spells them, and it spells no other tokens.
-/

namespace SerpentCsg.Region

open Text

/-- The character that an operator is written as. -/
def Token.symbol? : Token → Option Char
  | .opening => some '('
  | .closing => some ')'
  | .bar => some '|'
  | .ampersand => some '&'
  | .tilde => some '~'
  | .number _ => none

/-- What stands before a number on a side. -/
inductive Signs : List Char → Side → Prop where
  | minus : Signs ['-'] .negative
  | plus : Signs ['+'] .positive
  | unsigned : Signs [] .positive

/-- A text that consists of tokens and layout. -/
inductive Spelled : List Char → List Token → Prop where
  | nil : Spelled [] []
  | layout {c : Char} {s : List Char} {ts : List Token} :
      isLayout c = true → Spelled s ts → Spelled (c :: s) ts
  | operator {t : Token} {c : Char} {s : List Char} {ts : List Token} :
      t.symbol? = some c → Spelled s ts → Spelled (c :: s) (t :: ts)
  | number {sign digits s : List Char} {side : Side} {ts : List Token} :
      Signs sign side → digits ≠ [] → (∀ c ∈ digits, isDigit c = true) → Ends isDigit s →
      Spelled s ts → Spelled (sign ++ digits ++ s) (.number ⟨digitsValue digits, side⟩ :: ts)

/-- The number of a token is one of 32 bits. -/
def Token.fits : Token → Bool
  | .number h => h.surface ≤ max32
  | _ => true

/-- Tokens as they are read: nothing comes after the first that does not fit. -/
def legible : List Token → List (Option Token)
  | [] => []
  | t :: ts => if t.fits then some t :: legible ts else [none]

theorem legible_eq_map_some_iff {ts us : List Token} :
    legible ts = us.map some ↔ (∀ t ∈ ts, t.fits = true) ∧ us = ts := by
  induction ts generalizing us with
  | nil => simp [legible]
  | cons t ts ih =>
    by_cases ht : t.fits = true
    · cases us with
      | nil => simp [legible, ht]
      | cons u us =>
        simp only [legible, ht, if_true, List.map_cons, List.cons.injEq, Option.some.injEq, ih,
          List.forall_mem_cons, true_and]
        constructor
        · rintro ⟨rfl, hfits, rfl⟩
          exact ⟨hfits, rfl, rfl⟩
        · rintro ⟨hfits, rfl, rfl⟩
          exact ⟨rfl, hfits, rfl⟩
    · cases us <;> simp [legible, ht]

/-! ### One token -/

theorem numberToken_eq {digits s : List Char} (side : Side) (hne : digits ≠ [])
    (hdigits : ∀ c ∈ digits, isDigit c = true) (hs : Ends isDigit s) :
    numberToken side (digits ++ s) =
      if digitsValue digits ≤ max32 then some (.number ⟨digitsValue digits, side⟩, s)
      else none := by
  have hrun : run isDigit (digits ++ s) = some (digits, s) :=
    run_eq_some_iff.2 ⟨rfl, hne, hdigits, hs⟩
  unfold numberToken
  rw [hrun, Option.bind_some]
  dsimp only
  rw [boundedDigits?_eq max32 hne hdigits]
  split <;> rfl

/-- A digit is no layout and starts no other token. -/
private theorem token?_of_isDigit {c : Char} {s : List Char} (hc : isDigit c = true) :
    isLayout c = false ∧ token? (c :: s) = numberToken .positive (c :: s) := by
  constructor
  · cases hlayout : isLayout c with
    | false => rfl
    | true =>
      simp only [isLayout, Bool.or_eq_true, beq_iff_eq] at hlayout
      rcases hlayout with ((rfl | rfl) | rfl) | rfl <;> simp [isDigit] at hc
  · unfold token?
    split <;> simp_all [isDigit]

private theorem token?_symbol {t : Token} {c : Char} (h : t.symbol? = some c) (s : List Char) :
    isLayout c = false ∧ token? (c :: s) = some (t, s) := by
  cases t <;> simp only [Token.symbol?, Option.some.injEq, reduceCtorEq] at h
  all_goals subst h; exact ⟨by decide, rfl⟩

/-- A number is read with its sign, if it fits. -/
private theorem token?_number {sign digits s : List Char} {side : Side} (hsign : Signs sign side)
    (hne : digits ≠ []) (hdigits : ∀ c ∈ digits, isDigit c = true) (hs : Ends isDigit s) :
    token? (sign ++ digits ++ s) =
      if digitsValue digits ≤ max32 then some (.number ⟨digitsValue digits, side⟩, s)
      else none := by
  rw [← numberToken_eq side hne hdigits hs]
  cases hsign with
  | minus => rfl
  | plus => rfl
  | unsigned =>
    obtain ⟨c, digits, rfl⟩ := List.exists_cons_of_ne_nil hne
    exact (token?_of_isDigit (hdigits c (by simp))).2

private theorem length_of_numberToken {side : Side} {s rest : List Char} {t : Token}
    (h : numberToken side s = some (t, rest)) : rest.length < s.length := by
  unfold numberToken at h
  obtain ⟨⟨digits, left⟩, hrun, hread⟩ := Option.bind_eq_some_iff.1 h
  obtain ⟨rfl, hne, _⟩ := run_eq_some_iff.1 hrun
  obtain ⟨id, _, hid⟩ := Option.map_eq_some_iff.1 hread
  obtain ⟨rfl, rfl⟩ := Prod.mk.inj hid
  have := List.length_pos_iff.2 hne
  simp only [List.length_append]
  omega

private theorem length_of_token? {s rest : List Char} {t : Token}
    (h : token? s = some (t, rest)) : rest.length < s.length := by
  unfold token? at h
  split at h
  case h_6 | h_7 =>
    have := length_of_numberToken h
    simp only [List.length_cons]
    omega
  case h_8 => exact length_of_numberToken h
  all_goals
    simp only [Option.some.injEq, Prod.mk.injEq] at h
    obtain ⟨-, rfl⟩ := h
    simp

/-! ### Lexemes -/

theorem takes_lexeme : Takes lexeme := by
  intro s l rest h
  have hdrop : (s.dropWhile isLayout).length ≤ s.length := (List.dropWhile_suffix _).length_le
  unfold lexeme at h
  split at h
  · simp at h
  · next hne =>
    split at h
    · next t left ht =>
      have := length_of_token? ht
      simp only [Option.some.injEq, Prod.mk.injEq] at h
      obtain ⟨-, rfl⟩ := h
      omega
    · simp only [Option.some.injEq, Prod.mk.injEq] at h
      obtain ⟨-, rfl⟩ := h
      have := List.length_pos_iff.2 hne
      simp only [List.length_nil]
      omega

/-- A token in front of a text is its first lexeme. -/
private theorem lexeme_of_token? {c : Char} {s rest : List Char} {t : Token}
    (hc : isLayout c = false) (h : token? (c :: s) = some (t, rest)) :
    lexeme (c :: s) = some (⟨some t, c :: s⟩, rest) := by
  have hdrop : (c :: s).dropWhile isLayout = c :: s := dropWhile_of_ends (by simpa using hc)
  unfold lexeme
  rw [hdrop]
  simp only [h]

private theorem lexeme_of_token?_eq_none {c : Char} {s : List Char}
    (hc : isLayout c = false) (h : token? (c :: s) = none) :
    lexeme (c :: s) = some (⟨none, c :: s⟩, []) := by
  have hdrop : (c :: s).dropWhile isLayout = c :: s := dropWhile_of_ends (by simpa using hc)
  unfold lexeme
  rw [hdrop]
  simp only [h]

private theorem lexeme_layout {c : Char} (hc : isLayout c = true) (s : List Char) :
    lexeme (c :: s) = lexeme s := by
  unfold lexeme
  rw [List.dropWhile_cons_of_pos hc]

/-- A number starts with no layout. -/
private theorem number_front {sign digits : List Char} {side : Side} (hsign : Signs sign side)
    (hne : digits ≠ []) (hdigits : ∀ c ∈ digits, isDigit c = true) (s : List Char) :
    ∃ c rest, sign ++ digits ++ s = c :: rest ∧ isLayout c = false := by
  cases hsign with
  | minus => exact ⟨_, _, rfl, by decide⟩
  | plus => exact ⟨_, _, rfl, by decide⟩
  | unsigned =>
    obtain ⟨c, digits, rfl⟩ := List.exists_cons_of_ne_nil hne
    exact ⟨c, _, rfl, (token?_of_isDigit (s := []) (hdigits c (by simp))).1⟩

private theorem Spelled.repeats {s : List Char} {ts : List Token} (h : Spelled s ts) :
    ∃ ls left, Repeats lexeme s ls left ∧ tokens ls = legible ts := by
  induction h with
  | nil => exact ⟨[], [], .stop rfl, rfl⟩
  | @layout c s ts hc _ ih =>
    obtain ⟨ls, left, hrepeats, htokens⟩ := ih
    have hlexeme := lexeme_layout hc s
    -- Layout in front belongs to the first lexeme, if there is one.
    cases hrepeats with
    | stop hnone => exact ⟨[], c :: s, .stop (hlexeme.trans hnone), htokens⟩
    | next hnext hrest => exact ⟨_, left, .next (hlexeme.trans hnext) hrest, htokens⟩
  | @operator t c s ts hsymbol _ ih =>
    obtain ⟨ls, left, hrepeats, htokens⟩ := ih
    obtain ⟨hc, hread⟩ := token?_symbol hsymbol s
    refine ⟨_, left, .next (lexeme_of_token? hc hread) hrepeats, ?_⟩
    have hfits : t.fits = true := by cases t <;> simp_all [Token.symbol?, Token.fits]
    simpa [tokens, legible, hfits] using htokens
  | @number sign digits s side ts hsign hne hdigits hs _ ih =>
    obtain ⟨ls, left, hrepeats, htokens⟩ := ih
    have hread := token?_number hsign hne hdigits hs
    obtain ⟨c, front, hfront, hc⟩ := number_front hsign hne hdigits s
    rw [hfront] at hread ⊢
    -- A number that does not fit is no token, and ends the lexemes.
    by_cases hfits : digitsValue digits ≤ max32
    · rw [if_pos hfits] at hread
      refine ⟨_, left, .next (lexeme_of_token? hc hread) hrepeats, ?_⟩
      simpa [tokens, legible, Token.fits, hfits] using htokens
    · rw [if_neg hfits] at hread
      refine ⟨_, [], .next (lexeme_of_token?_eq_none hc hread) (.stop rfl), ?_⟩
      simp [tokens, legible, Token.fits, hfits]

/-- The lexemes of a spelling are its tokens, for as long as they fit. -/
theorem Spelled.tokens_lexemes {s : List Char} {ts : List Token} (h : Spelled s ts) :
    tokens (lexemes s) = legible ts := by
  obtain ⟨ls, left, hrepeats, htokens⟩ := h.repeats
  rw [lexemes, (many_eq_iff takes_lexeme).2 hrepeats]
  exact htokens

/-! ### What lexemes spell -/

theorem Spelled.append_layout {front s : List Char} {ts : List Token}
    (hfront : ∀ c ∈ front, isLayout c = true) (h : Spelled s ts) : Spelled (front ++ s) ts := by
  induction front with
  | nil => exact h
  | cons c front ih =>
    obtain ⟨hc, hfront⟩ := List.forall_mem_cons.1 hfront
    exact .layout hc (ih hfront)

/-- What is read as a number after a sign is the digits of a number that fits. -/
private theorem spelled_of_numberToken {sign s rest : List Char} {side : Side} {t : Token}
    {ts : List Token} (hsign : Signs sign side) (h : numberToken side s = some (t, rest))
    (hrest : Spelled rest ts) : t.fits = true ∧ Spelled (sign ++ s) (t :: ts) := by
  unfold numberToken at h
  obtain ⟨⟨digits, left⟩, hrun, hread⟩ := Option.bind_eq_some_iff.1 h
  obtain ⟨rfl, hne, hdigits, hends⟩ := run_eq_some_iff.1 hrun
  obtain ⟨id, hid, heq⟩ := Option.map_eq_some_iff.1 hread
  obtain ⟨rfl, rfl⟩ := Prod.mk.inj heq
  obtain ⟨-, -, rfl, hfits⟩ := boundedDigits?_eq_some_iff.1 hid
  refine ⟨decide_eq_true hfits, ?_⟩
  rw [← List.append_assoc]
  exact .number hsign hne hdigits hends hrest

/-- What is read as a token spells that token, which fits. -/
private theorem spelled_of_token? {s rest : List Char} {t : Token} {ts : List Token}
    (h : token? s = some (t, rest)) (hrest : Spelled rest ts) :
    t.fits = true ∧ Spelled s (t :: ts) := by
  unfold token? at h
  split at h
  case h_6 => exact spelled_of_numberToken .minus h hrest
  case h_7 => exact spelled_of_numberToken .plus h hrest
  case h_8 => exact spelled_of_numberToken .unsigned h hrest
  all_goals
    obtain ⟨rfl, rfl⟩ := Prod.mk.inj (Option.some.inj h)
    exact ⟨rfl, .operator rfl hrest⟩

private theorem spelled_of_repeats {s left : List Char} {ls : List Lexeme}
    (h : Repeats lexeme s ls left) : ∀ {ts : List Token}, tokens ls = ts.map some →
      (∀ t ∈ ts, t.fits = true) ∧ Spelled s ts := by
  induction h with
  | @stop s hnone =>
    intro ts htokens
    obtain rfl : ts = [] := List.map_eq_nil_iff.1 htokens.symm
    -- No lexeme is left, so all that is left is layout.
    have hlayout : s.dropWhile isLayout = [] := by
      unfold lexeme at hnone
      split at hnone
      · assumption
      · split at hnone <;> simp at hnone
    have hspelled := Spelled.nil.append_layout (List.dropWhile_eq_nil_iff.1 hlayout)
    exact ⟨by simp, by simpa using hspelled⟩
  | @next s rest left l ls hnext _ ih =>
    intro ts htokens
    obtain ⟨t, us, rfl, ht, hus⟩ := List.map_eq_cons_iff.1 htokens.symm
    obtain ⟨hfits, hspelled⟩ := ih hus.symm
    have htoken : token? (s.dropWhile isLayout) = some (t, rest) := by
      unfold lexeme at hnext
      split at hnext
      · simp at hnext
      · split at hnext
        · next hread =>
          obtain ⟨rfl, rfl⟩ := Prod.mk.inj (Option.some.inj hnext)
          rw [hread, Option.some.inj ht]
        · obtain ⟨rfl, -⟩ := Prod.mk.inj (Option.some.inj hnext)
          simp at ht
    obtain ⟨htfits, htspelled⟩ := spelled_of_token? htoken hspelled
    refine ⟨List.forall_mem_cons.2 ⟨htfits, hfits⟩, ?_⟩
    rw [← List.takeWhile_append_dropWhile (p := isLayout) (l := s)]
    exact htspelled.append_layout fun c hc => List.all_eq_true.1 List.all_takeWhile c hc

/-- All lexemes of a text are tokens exactly if the text spells them and their numbers fit. -/
theorem tokens_lexemes_eq_iff {s : List Char} {ts : List Token} :
    tokens (lexemes s) = ts.map some ↔ (∀ t ∈ ts, t.fits = true) ∧ Spelled s ts := by
  constructor
  · exact spelled_of_repeats (repeats_many takes_lexeme s)
  · rintro ⟨hfits, hspelled⟩
    rw [hspelled.tokens_lexemes]
    exact legible_eq_map_some_iff.2 ⟨hfits, rfl⟩

/-- A text spells its tokens in one way only. -/
theorem Spelled.unique {s : List Char} {ts us : List Token} (h : Spelled s ts) (h' : Spelled s us)
    (hfits : ∀ t ∈ ts, t.fits = true) (hfits' : ∀ t ∈ us, t.fits = true) : ts = us := by
  have hts := tokens_lexemes_eq_iff.2 ⟨hfits, h⟩
  have hus := tokens_lexemes_eq_iff.2 ⟨hfits', h'⟩
  exact (List.map_inj_right fun _ _ => Option.some.inj).1 (hts.symm.trans hus)

/-- A spelling is accepted exactly if its numbers fit and its tokens are an expression. -/
theorem Spelled.read_eq_ok_iff {s : List Char} {ts : List Token} (h : Spelled s ts) {r : Region} :
    read s = .ok r ↔ (∀ t ∈ ts, t.fits = true) ∧ IsExpression ts r := by
  rw [Region.read_eq_ok_iff, h.tokens_lexemes]
  constructor
  · rintro ⟨us, hus, hexpression⟩
    obtain ⟨hfits, rfl⟩ := legible_eq_map_some_iff.1 hus
    exact ⟨hfits, hexpression⟩
  · rintro ⟨hfits, hexpression⟩
    exact ⟨ts, legible_eq_map_some_iff.2 ⟨hfits, rfl⟩, hexpression⟩

/-! ### Putting spellings together -/

/-- The text writes tokens in front of any text that goes on with no digit. -/
def Writes (front : List Char) (ts : List Token) : Prop :=
  ∀ s us, Spelled s us → Ends isDigit s → Spelled (front ++ s) (ts ++ us)

theorem Writes.nil : Writes [] [] := fun _ _ h _ => h

theorem Writes.spelled {front : List Char} {ts : List Token} (h : Writes front ts) :
    Spelled front ts := by
  simpa using h [] [] .nil (ends_nil _)

/-- An operator in front. -/
theorem Writes.cons_symbol {t : Token} {c : Char} {front : List Char} {ts : List Token}
    (hsymbol : t.symbol? = some c) (h : Writes front ts) : Writes (c :: front) (t :: ts) :=
  fun s us hs hends => .operator hsymbol (h s us hs hends)

/-- An operator at the end. -/
theorem Writes.append_symbol {t : Token} {c : Char} {front : List Char} {ts : List Token}
    (h : Writes front ts) (hsymbol : t.symbol? = some c) : Writes (front ++ [c]) (ts ++ [t]) := by
  intro s us hs _
  have hc : isDigit c = false := by
    cases t <;> simp only [Token.symbol?, Option.some.injEq, reduceCtorEq] at hsymbol <;>
      subst hsymbol <;> decide
  simpa using h (c :: s) (t :: us) (.operator hsymbol hs) (by simpa using hc)

theorem Writes.symbol {t : Token} {c : Char} (h : t.symbol? = some c) : Writes [c] [t] :=
  .cons_symbol h .nil

/-- A number with its sign. -/
theorem Writes.number (n : Nat) (side : Side) :
    Writes (side.sign :: n.repr.toList) [.number ⟨n, side⟩] := by
  intro s us hs hends
  have hsign : Signs [side.sign] side := by cases side <;> constructor
  have := Spelled.number hsign (repr_toList_ne_nil n) (fun _ hc => isDigit_of_mem_repr hc) hends hs
  rwa [digitsValue_repr] at this

/-- The text writes tokens in front of any text, and a number before it ends with it. -/
def Separates (sep : List Char) (ts : List Token) : Prop :=
  ∀ s us, Spelled s us → Spelled (sep ++ s) (ts ++ us) ∧ Ends isDigit (sep ++ s)

theorem separates_space : Separates [' '] [] :=
  fun _ _ hs => ⟨.layout (by decide) hs, by simp [isDigit]⟩

theorem separates_bar : Separates [' ', '|', ' '] [.bar] :=
  fun _ _ hs => ⟨.layout (by decide) (.operator rfl (.layout (by decide) hs)), by simp [isDigit]⟩

/-- Texts with a separator between them. -/
theorem Writes.intercalate {sep : List Char} {between : List Token} {texts : List (List Char)}
    {tss : List (List Token)} (hsep : Separates sep between) (h : List.Forall₂ Writes texts tss) :
    Writes (sep.intercalate texts) (between.intercalate tss) := by
  induction h with
  | nil => exact .nil
  | cons hfirst hrest ih =>
    cases hrest with
    | nil => simpa using hfirst
    | cons hsecond hrest =>
      intro s us hs hends
      obtain ⟨hspelled, hdigit⟩ := hsep _ _ (ih s us hs hends)
      have := hfirst _ _ hspelled hdigit
      simpa only [List.intercalate_cons_cons, List.append_assoc] using this

theorem intercalate_nil_sep {α : Type} (l : List (List α)) : [].intercalate l = l.flatten := by
  induction l with
  | nil => rfl
  | cons first rest ih =>
    cases rest with
    | nil => simp
    | cons second rest =>
      rw [List.intercalate_cons_cons, ih, List.append_nil]
      rfl

/-- Texts with spaces between them. -/
theorem Writes.spaced {α : Type} {ts : α → List Token} {items : List α}
    {texts : List (List Char)} (h : List.Forall₂ (fun a text => Writes text (ts a)) items texts) :
    Writes ([' '].intercalate texts) (items.flatMap ts) := by
  have hparts : List.Forall₂ Writes texts (items.map ts) :=
    List.forall₂_map_right_iff.2 h.flip
  have := Writes.intercalate separates_space hparts
  rwa [intercalate_nil_sep, ← List.flatMap_def] at this

end SerpentCsg.Region
