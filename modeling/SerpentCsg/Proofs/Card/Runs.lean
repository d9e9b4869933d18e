import Mathlib.Data.List.Forall2
import SerpentCsg.Proofs.Card.Deck

/-! # The Lines of the Cards

  A deck has all the text of its lines, in order and nothing twice. The lines with a text on them
  fall into runs, one run for each card: a card starts on the first line of its run, which alone
  says what the card is about, and takes the texts of the others behind its own. Only a
  lattice has others. Lines without a text belong to no run, so that they may stand anywhere.

  While lines are added to a stack, its cards stay made of the lines added so far (`Covers`).
-/

namespace SerpentCsg.Card

open Text

/-! ### Texts of lines -/

/-- The text on a line, empty where there is none. -/
def textOf (raw : String) : String := String.ofList (withoutComment raw.toList)

/-- The lines that have a text, each as its text and its number. The first of all lines has a given
    number. -/
def numberedTexts (first : Nat) (lines : List String) : List (String × Nat) :=
  ((lines.map textOf).zipIdx first).filter fun line => line.1 ≠ ""

theorem textOf_eq_empty_iff {raw : String} :
    textOf raw = "" ↔ withoutComment raw.toList = [] := by
  rw [textOf, ← String.toList_inj, String.toList_ofList]
  rfl

theorem numberedTexts_cons (first : Nat) (raw : String) (rest : List String) :
    numberedTexts first (raw :: rest) =
      numberedTexts first [raw] ++ numberedTexts (first + 1) rest := by
  unfold numberedTexts
  rw [List.map_cons, List.zipIdx_cons, ← List.singleton_append, List.filter_append]
  rfl

theorem numberedTexts_blank {raw : String} (h : textOf raw = "") (number : Nat) :
    numberedTexts number [raw] = [] := by
  simp [numberedTexts, h]

theorem numberedTexts_text {raw : String} (h : textOf raw ≠ "") (number : Nat) :
    numberedTexts number [raw] = [(textOf raw, number)] := by
  simp [numberedTexts, h]

theorem map_fst_numberedTexts (first : Nat) (lines : List String) :
    (numberedTexts first lines).map (·.1) = (lines.map textOf).filter (· ≠ "") := by
  induction lines generalizing first with
  | nil => rfl
  | cons raw rest ih =>
    rw [numberedTexts_cons, List.map_append, ih, List.map_cons]
    by_cases h : textOf raw = ""
    · rw [numberedTexts_blank h, List.filter_cons_of_neg (by simpa using h)]
      rfl
    · rw [numberedTexts_text h, List.filter_cons_of_pos (by simpa using h)]
      rfl

/-- Lines are numbered upwards. -/
theorem pairwise_numberedTexts (first : Nat) (lines : List String) :
    ((numberedTexts first lines).map (·.2)).Pairwise (· < ·) := by
  have hall : (((lines.map textOf).zipIdx first).map (·.2)).Pairwise (· < ·) := by
    rw [List.zipIdx_map_snd]
    exact List.pairwise_lt_range'
  exact hall.sublist (List.filter_sublist.map _)

/-! ### Cards of lines -/

/-- A card is made of a run of lines: the first of them is where it starts and says what it is
    about, and the texts of all of them are its text. A run of several lines is a lattice. -/
inductive MadeOf : Card → List (String × Nat) → Prop where
  | run {text : String} {number : Nat} {others : List (String × Nat)} :
      (others ≠ [] → kindOf text.toList = .lattice) →
      MadeOf ⟨number, kindOf text.toList, " ".intercalate (text :: others.map (·.1))⟩
        ((text, number) :: others)

theorem MadeOf.ne_nil {card : Card} {run : List (String × Nat)} (h : MadeOf card run) :
    run ≠ [] := by
  cases h
  exact List.cons_ne_nil _ _

theorem MadeOf.text_eq {card : Card} {run : List (String × Nat)} (h : MadeOf card run) :
    card.text = " ".intercalate (run.map (·.1)) := by
  cases h
  rfl

/-- A line is a run by itself. -/
theorem madeOf_started (raw : String) (number : Nat) :
    MadeOf (startedAt number (withoutComment raw.toList)) [(textOf raw, number)] := by
  have h := @MadeOf.run (textOf raw) number [] fun hne => absurd rfl hne
  rwa [List.map_nil, String.intercalate_singleton, textOf, String.toList_ofList] at h

/-- One more line goes on with a lattice. -/
theorem MadeOf.continued {card : Card} {run : List (String × Nat)} (h : MadeOf card run)
    (hkind : card.kind = .lattice) (text : String) (number : Nat) :
    MadeOf { card with text := card.text ++ " " ++ text } (run ++ [(text, number)]) := by
  obtain @⟨start, line, others, hothers⟩ := h
  have hjoined : " ".intercalate (start :: others.map (·.1)) ++ " " ++ text =
      " ".intercalate (start :: (others ++ [(text, number)]).map (·.1)) := by
    rw [List.map_append, List.map_singleton, ← List.cons_append,
      String.intercalate_append_of_ne_nil (List.cons_ne_nil _ _) (List.cons_ne_nil _ _),
      String.intercalate_singleton]
  show MadeOf ⟨line, _, " ".intercalate (start :: others.map (·.1)) ++ " " ++ text⟩ _
  rw [hjoined]
  exact .run fun _ => hkind

section Decks

variable {cards : List Card} {runs : List (List (String × Nat))}

/-- The texts of the cards are those of their lines, one after another. -/
theorem texts_eq (h : List.Forall₂ MadeOf cards runs) :
    " ".intercalate (cards.map (·.text)) = " ".intercalate (runs.flatten.map (·.1)) := by
  induction h with
  | nil => rfl
  | @cons card run cards runs hcard hrest ih =>
    rw [List.map_cons, List.flatten_cons, List.map_append, hcard.text_eq]
    -- The space after the first card is there only if another card follows.
    cases hrest with
    | nil => simp
    | cons hnext hothers =>
      rw [String.intercalate_cons_of_ne_nil (by simp), ih,
        String.intercalate_append_of_ne_nil (by simpa using hcard.ne_nil)
          (by simp [hnext.ne_nil])]

/-- The cards start on lines of their runs, in order. -/
theorem lines_sublist (h : List.Forall₂ MadeOf cards runs) :
    (cards.map (·.line)).Sublist (runs.flatten.map (·.2)) := by
  induction h with
  | nil => exact .slnil
  | cons hcard _ ih =>
    obtain @⟨text, number, others, -⟩ := hcard
    rw [List.map_cons, List.flatten_cons, List.map_append, List.map_cons, List.cons_append]
    exact .cons_cons _ (ih.trans (List.sublist_append_right _ _))

end Decks

/-! ### Stacks of cards -/

/-- The cards of a stack are made of runs of lines, both with the last one first. If the
    stack waits for names, a lattice is on top of it. -/
structure Stack.Covers (stack : Stack) (runs : List (List (String × Nat))) : Prop where
  cards : List.Forall₂ MadeOf stack.cards runs
  lattice : 0 < stack.missing → ∃ last earlier, stack.cards = last :: earlier ∧ last.kind = .lattice

theorem covers_empty : Stack.Covers ⟨[], 0⟩ [] := ⟨.nil, fun h => absurd h (Nat.lt_irrefl 0)⟩

/-- Only a lattice asks for names. -/
theorem kindOf_of_namesAsked {text : List Char} (h : 0 < namesAsked text) :
    kindOf text = .lattice := by
  by_contra hkind
  rw [namesAsked, if_neg hkind] at h
  exact Nat.lt_irrefl 0 h

/-- A line that starts a card is a new run. -/
theorem Stack.Covers.started {stack : Stack} {runs : List (List (String × Nat))}
    (h : stack.Covers runs) (raw : String) (number : Nat) :
    Stack.Covers
      ⟨startedAt number (withoutComment raw.toList) :: stack.cards,
        namesAsked (withoutComment raw.toList)⟩
      ([(textOf raw, number)] :: runs) :=
  ⟨.cons (madeOf_started raw number) h.cards, fun hasked =>
    ⟨_, _, rfl, kindOf_of_namesAsked hasked⟩⟩

/-- One line: it belongs to a run, if there is a text on it. -/
theorem Stack.Covers.add {stack : Stack} {runs : List (List (String × Nat))}
    (h : stack.Covers runs) (number : Nat) (raw : String) :
    ∃ runs', (stack.add number raw.toList).Covers runs' ∧
      runs'.reverse.flatten = runs.reverse.flatten ++ numberedTexts number [raw] := by
  by_cases hblank : withoutComment raw.toList = []
  · refine ⟨runs, by rwa [add_blank hblank], ?_⟩
    rw [numberedTexts_blank (textOf_eq_empty_iff.2 hblank), List.append_nil]
  have htext := numberedTexts_text (mt textOf_eq_empty_iff.1 hblank) number
  by_cases hgoesOn : 0 < stack.missing ∧ continuesLattice (withoutComment raw.toList) = true
  · -- The card on top is the lattice that waits, and its run is the one that the line joins.
    obtain ⟨hmissing, hnames⟩ := hgoesOn
    obtain ⟨last, earlier, hcards, hkind⟩ := h.lattice hmissing
    obtain ⟨own, missing⟩ := stack
    obtain rfl : own = last :: earlier := hcards
    cases h.cards with
    | @cons _ top _ below hlast hearlier =>
      refine ⟨(top ++ [(textOf raw, number)]) :: below, ?_, ?_⟩
      · rw [add_continued number hmissing hnames]
        exact ⟨.cons (hlast.continued hkind _ _) hearlier, fun _ => ⟨_, _, rfl, hkind⟩⟩
      · rw [htext, List.reverse_cons, List.reverse_cons, List.flatten_append, List.flatten_append,
          List.flatten_singleton, List.flatten_singleton, List.append_assoc]
  · refine ⟨[(textOf raw, number)] :: runs, ?_, ?_⟩
    · rw [add_started number hblank hgoesOn]
      exact h.started raw number
    · rw [htext, List.reverse_cons, List.flatten_append, List.flatten_singleton]

/-- Several lines: all of them with a text belong to runs, in order. -/
theorem Stack.Covers.addAll {stack : Stack} {runs : List (List (String × Nat))}
    (h : stack.Covers runs) (number : Nat) (lines : List String) :
    ∃ runs', (stack.addAll number lines).Covers runs' ∧
      runs'.reverse.flatten = runs.reverse.flatten ++ numberedTexts number lines := by
  induction lines generalizing stack runs number with
  | nil => exact ⟨runs, h, (List.append_nil _).symm⟩
  | cons raw rest ih =>
    obtain ⟨runs₁, hfirst, hlines⟩ := h.add number raw
    obtain ⟨runs₂, hrest, hlines'⟩ := ih hfirst (number + 1)
    refine ⟨runs₂, hrest, ?_⟩
    rw [hlines', hlines, numberedTexts_cons number raw rest, List.append_assoc]

/-! ### Whole decks -/

/-- The cards of a deck have the texts of its lines, in order and each once. They are numbered
    upwards, and each is made of a run of lines. -/
theorem deck_covers (lines : List String) :
    " ".intercalate ((deck lines).map (·.text)) =
        " ".intercalate ((lines.map textOf).filter (· ≠ "")) ∧
      ((deck lines).map (·.line)).Pairwise (· < ·) ∧
      ∃ runs, List.Forall₂ MadeOf (deck lines) runs ∧ runs.flatten = numberedTexts 1 lines := by
  obtain ⟨runs, hcovers, hlines⟩ := covers_empty.addAll 1 lines
  have hcards : List.Forall₂ MadeOf (deck lines) runs.reverse :=
    List.forall₂_reverse_iff.2 hcovers.cards
  have hall : runs.reverse.flatten = numberedTexts 1 lines := hlines
  refine ⟨?_, ?_, runs.reverse, hcards, hall⟩
  · rw [texts_eq hcards, hall, map_fst_numberedTexts]
  · have hstarts := lines_sublist hcards
    rw [hall] at hstarts
    exact (pairwise_numberedTexts 1 lines).sublist hstarts

example :
    (deck ["lat L 1 0 0 2 1 10", "A % left", "", "B C", "D"]).map (fun card =>
      (card.line, card.text)) = [(1, "lat L 1 0 0 2 1 10 A B C"), (5, "D")] := by
  decide +kernel

end SerpentCsg.Card
