import SerpentCsg.Card.Deck
import SerpentCsg.Proofs.Text.Reading

/-! # How a Deck Grows

  A line is a text with white space around it and perhaps a comment behind it. A line without text
  changes nothing. A line of names goes on with the last card while that is waiting for names, and
  any other line starts a card of its own. What a line does never depends on the cards before the
  last one, so a deck can be taken apart

  - in front of a line that starts a card whatever stands before it, and
  - behind lines that wait for no names.

  The second part then has the same cards as it has alone, only further down.
-/

namespace SerpentCsg.Card

open Text

/-! ### Lines -/

/-- Nothing, or a percent sign and whatever follows it. -/
def Comment (s : List Char) : Prop := Ends (· != '%') s

/-- A line with a text on it, with white space around the text and perhaps a comment behind it. -/
inductive LineOf (text : List Char) (raw : String) : Prop where
  | line {before after comment : List Char} :
      raw.toList = before ++ text ++ after ++ comment → (∀ c ∈ before, isWhite c = true) →
      '%' ∉ text → (∀ c ∈ after, isWhite c = true) → Comment comment → LineOf text raw

theorem ne_percent_of_isWhite {c : Char} (h : isWhite c = true) : c ≠ '%' := by
  rintro rfl
  exact absurd h (by decide)

/-- The text of a line is what is left without its comment and trimmed. -/
theorem LineOf.withoutComment_eq {text : List Char} {raw : String} (h : LineOf text raw)
    (hfirst : Ends isWhite text) (hlast : Ends isWhite text.reverse) :
    withoutComment raw.toList = text := by
  cases h with
  | @line before after comment hraw hbefore htext hafter hcomment =>
    have hplain : ∀ c ∈ before ++ text ++ after, (c != '%') = true := by
      intro c hc
      rw [List.append_assoc, List.mem_append, List.mem_append] at hc
      refine bne_iff_ne.2 ?_
      rcases hc with hc | hc | hc
      · exact ne_percent_of_isWhite (hbefore c hc)
      · exact fun hpercent => htext (hpercent ▸ hc)
      · exact ne_percent_of_isWhite (hafter c hc)
    rw [withoutComment, hraw, List.takeWhile_append_of_pos hplain, takeWhile_of_ends hcomment,
      List.append_nil, trim_append hbefore hafter hfirst hlast]

/-- Every line is a line with its text on it. -/
theorem lineOf_withoutComment (raw : String) : LineOf (withoutComment raw.toList) raw := by
  obtain ⟨before, after, htrim, hbefore, hafter⟩ :=
    exists_trim (raw.toList.takeWhile (· != '%'))
  have hplain : '%' ∉ withoutComment raw.toList := fun hpercent => by
    have hmem : '%' ∈ raw.toList.takeWhile (· != '%') := by
      rw [htrim, List.mem_append, List.mem_append]
      exact .inl (.inr hpercent)
    exact absurd (List.all_eq_true.1 List.all_takeWhile '%' hmem) (by decide)
  refine .line ?_ hbefore hplain hafter (ends_dropWhile (· != '%') raw.toList)
  rw [withoutComment, ← htrim, List.takeWhile_append_dropWhile]

/-! ### What a line does -/

/-- The card that a line of text starts. -/
def startedAt (line : Nat) (text : List Char) : Card := ⟨line, kindOf text, String.ofList text⟩

/-- Number of names that a card waits for when it starts. -/
def namesAsked (text : List Char) : Nat := if kindOf text = .lattice then missingNames text else 0

/-- The line starts a card, whatever stands before it. -/
def Starts (raw : List Char) : Prop :=
  withoutComment raw ≠ [] ∧ continuesLattice (withoutComment raw) = false

theorem add_blank {raw : List Char} (h : withoutComment raw = []) (stack : Stack) (line : Nat) :
    stack.add line raw = stack := by
  simp [Stack.add, h]

theorem add_started {stack : Stack} {raw : List Char} (line : Nat) (hne : withoutComment raw ≠ [])
    (h : ¬ (0 < stack.missing ∧ continuesLattice (withoutComment raw) = true)) :
    stack.add line raw =
      ⟨startedAt line (withoutComment raw) :: stack.cards, namesAsked (withoutComment raw)⟩ := by
  have hempty : (withoutComment raw).isEmpty = false := by simpa using hne
  have hgoesOn : (decide (0 < stack.missing) && continuesLattice (withoutComment raw)) = false := by
    simpa using h
  unfold Stack.add
  simp only [hempty, hgoesOn, Bool.false_eq_true, if_false]
  cases stack.cards <;> rfl

theorem add_continued {last : Card} {earlier : List Card} {missing : Nat} {raw : List Char}
    (line : Nat) (hmissing : 0 < missing) (h : continuesLattice (withoutComment raw) = true) :
    Stack.add ⟨last :: earlier, missing⟩ line raw =
      ⟨{ last with text := last.text ++ " " ++ String.ofList (withoutComment raw) } :: earlier,
        missing - (words (withoutComment raw)).length⟩ := by
  have hne : withoutComment raw ≠ [] := by
    intro hnil
    rw [hnil] at h
    exact absurd h (by decide)
  have hempty : (withoutComment raw).isEmpty = false := by simpa using hne
  simp [Stack.add, hempty, hmissing, h]

/-- A line that starts a card does so on every stack. -/
theorem Starts.add {raw : List Char} (h : Starts raw) (stack : Stack) (line : Nat) :
    stack.add line raw =
      ⟨startedAt line (withoutComment raw) :: stack.cards, namesAsked (withoutComment raw)⟩ :=
  add_started line h.1 fun hgoesOn => by simp [h.2] at hgoesOn

/-! ### Lines further down -/

/-- The card, so many lines further down. -/
def moved (lines : Nat) (card : Card) : Card := { card with line := card.line + lines }

theorem map_moved_map_moved (a b : Nat) (cards : List Card) :
    (cards.map (moved b)).map (moved a) = cards.map (moved (a + b)) := by
  rw [List.map_map]
  refine List.map_congr_left fun card _ => ?_
  rw [Function.comp_apply, moved, moved, moved, Nat.add_assoc, Nat.add_comm b]

/-- A stack on top of other cards, which has all of its lines so many lines further down. -/
def Stack.over (stack : Stack) (lines : Nat) (cards : List Card) : Stack :=
  ⟨stack.cards.map (moved lines) ++ cards, stack.missing⟩

/-- A stack that waits for names has the card that asks for them. -/
def Stack.Asks (stack : Stack) : Prop := 0 < stack.missing → stack.cards ≠ []

theorem asks_empty : Stack.Asks ⟨[], 0⟩ := fun h => absurd h (Nat.lt_irrefl 0)

theorem asks_add {stack : Stack} (h : stack.Asks) (line : Nat) (raw : List Char) :
    (stack.add line raw).Asks := by
  -- The three things that a line can do; only the first can leave a stack without cards.
  by_cases hblank : withoutComment raw = []
  · rwa [add_blank hblank]
  · by_cases hgoesOn : 0 < stack.missing ∧ continuesLattice (withoutComment raw) = true
    · obtain ⟨cards, missing⟩ := stack
      obtain ⟨last, earlier, rfl⟩ := List.exists_cons_of_ne_nil (h hgoesOn.1)
      rw [add_continued line hgoesOn.1 hgoesOn.2]
      exact fun _ => List.cons_ne_nil _ _
    · rw [add_started line hblank hgoesOn]
      exact fun _ => List.cons_ne_nil _ _

/-- A line does to a stack on top of other cards what it does to the stack. -/
theorem over_add {stack : Stack} (h : stack.Asks) (line lines : Nat) (cards : List Card)
    (raw : List Char) :
    (stack.over lines cards).add (line + lines) raw = (stack.add line raw).over lines cards := by
  by_cases hblank : withoutComment raw = []
  · rw [add_blank hblank, add_blank hblank]
  · by_cases hgoesOn : 0 < stack.missing ∧ continuesLattice (withoutComment raw) = true
    · obtain ⟨own, missing⟩ := stack
      -- The card that the names go to is one of the stack's own.
      obtain ⟨last, earlier, rfl⟩ := List.exists_cons_of_ne_nil (h hgoesOn.1)
      rw [add_continued line hgoesOn.1 hgoesOn.2]
      exact add_continued (line + lines) hgoesOn.1 hgoesOn.2
    · rw [add_started line hblank hgoesOn]
      exact add_started (line + lines) hblank hgoesOn

/-! ### Several lines -/

theorem addAll_append (stack : Stack) (line : Nat) (lines others : List String) :
    stack.addAll line (lines ++ others) =
      (stack.addAll line lines).addAll (line + lines.length) others := by
  induction lines generalizing stack line with
  | nil => rfl
  | cons raw rest ih =>
    rw [List.cons_append, Stack.addAll, ih, Stack.addAll, List.length_cons]
    congr 1
    omega

theorem over_addAll {stack : Stack} (h : stack.Asks) (line lines : Nat) (cards : List Card)
    (raws : List String) :
    (stack.over lines cards).addAll (line + lines) raws =
      (stack.addAll line raws).over lines cards := by
  -- What the stack has below does not matter to any line, and it goes on asking for its own names.
  induction raws generalizing stack line with
  | nil => rfl
  | cons raw rest ih =>
    rw [Stack.addAll, over_add h, Stack.addAll, ← ih (asks_add h line raw.toList) (line + 1)]
    congr 1
    omega

/-! ### Decks taken apart -/

theorem reverse_over (stack : Stack) (lines : Nat) (cards : List Card) :
    (stack.over lines cards).cards.reverse =
      cards.reverse ++ stack.cards.reverse.map (moved lines) := by
  rw [Stack.over, List.reverse_append, List.map_reverse]

/-- A line that starts a card parts a deck in front of it. -/
theorem deck_append_cons {raw : String} (h : Starts raw.toList) (before after : List String) :
    deck (before ++ raw :: after) =
      deck before ++ (deck (raw :: after)).map (moved before.length) := by
  have hstart : ((Stack.addAll ⟨[], 0⟩ 1 before).add (1 + before.length) raw.toList) =
      (Stack.add ⟨[], 0⟩ 1 raw.toList).over before.length (Stack.addAll ⟨[], 0⟩ 1 before).cards := by
    rw [h.add, h.add]
    rfl
  have hrest := over_addAll (asks_add asks_empty 1 raw.toList) 2 before.length
    (Stack.addAll ⟨[], 0⟩ 1 before).cards after
  rw [deck, addAll_append, Stack.addAll, hstart, show 1 + before.length + 1 = 2 + before.length by
    omega, hrest, reverse_over]
  rfl

/-- Lines that wait for no names part a deck behind them. -/
theorem deck_append_of_rested {before : List String}
    (h : (Stack.addAll ⟨[], 0⟩ 1 before).missing = 0) (after : List String) :
    deck (before ++ after) = deck before ++ (deck after).map (moved before.length) := by
  rw [deck, addAll_append, deck]
  generalize Stack.addAll ⟨[], 0⟩ 1 before = stack at h ⊢
  obtain ⟨cards, missing⟩ := stack
  obtain rfl : missing = 0 := h
  -- Cards that wait for nothing are what a new stack stands on.
  show (((Stack.over ⟨[], 0⟩ before.length cards).addAll (1 + before.length) after).cards).reverse = _
  rw [over_addAll asks_empty, reverse_over]
  rfl

end SerpentCsg.Card
