import Mathlib.Data.List.Forall2
import SerpentCsg.Proofs.Card.Lattices

/-! # The Layout of Lattice Cards

  A lattice card may be spread over several lines. Its first line has the header and any number of
  names, the lines after it have further names or nothing, and every line may have white space
  around its text and a comment behind it.

  While such lines are added to a deck, one card takes all the names, and after every line it
  waits for exactly those that are still to come (`Waits`). When it has them all it waits for no
  more, so what comes after it is sorted into cards as it is after the same card on one line.
-/

namespace SerpentCsg.Card

open Text

/-! ### Lines of names -/

/-- A text that lists names, the first of which is no keyword. -/
inductive NameText : List Char → List String → Prop where
  | names {first : String} {others : List String} {rest : List Char} :
      IsName first → first ∉ keywords → (∀ other ∈ others, IsName other) → Lists rest others →
      NameText (first.toList ++ rest) (first :: others)

/-- A line behind the first one of a lattice card, with the names on it. -/
inductive NameLine : String → List String → Prop where
  | blank {raw : String} : LineOf [] raw → NameLine raw []
  | names {raw : String} {text : List Char} {names : List String} :
      LineOf text raw → NameText text names → NameLine raw names

namespace NameText

variable {text : List Char} {names : List String}

theorem ends (h : NameText text names) : Ends isWhite text ∧ Ends isWhite text.reverse := by
  cases h with
  | names hfirst hkeyword hothers hrest =>
    refine ⟨hfirst.solid.ends _, ?_⟩
    rw [List.reverse_append]
    exact hrest.ends_reverse.append fun _ => by simpa using hfirst.solid.reverse.ends []

theorem words_eq (h : NameText text names) : words text = names.map String.toList := by
  cases h with
  | names hfirst hkeyword hothers hrest =>
    rw [words_append_of_solid hfirst.solid hrest.ends_solid, hrest.words_eq, List.map_cons]

theorem lists (h : NameText text names) : Lists (' ' :: text) names := by
  cases h with
  | names hfirst hkeyword hothers hrest => exact .cons gap_space hfirst.solid hrest

/-- A card that waits for names goes on with the text. -/
theorem continuesLattice_eq (h : NameText text names) : continuesLattice text = true := by
  have hwords := h.words_eq
  cases h with
  | @names first others rest hfirst hkeyword hothers hrest =>
    rw [continuesLattice, hwords]
    simpa [hkeyword] using ⟨hfirst.2, fun other hother => (hothers other hother).2⟩

end NameText

/-! ### Cards that wait for names -/

/-- The stack has a lattice card, which waits for further names, and nothing else. -/
inductive Waits (card : LatticeCard) (missing : Nat) : Stack → Prop where
  | written {text : String} :
      Written card text.toList → Waits card missing ⟨[⟨1, .lattice, text⟩], missing⟩

/-- One line: the card takes the names on it, and waits for the others. -/
theorem Waits.add {card : LatticeCard} {missing : Nat} {stack : Stack} {raw : String}
    {names : List String} (h : Waits card missing stack) (hline : NameLine raw names)
    (hle : names.length ≤ missing) (line : Nat) :
    Waits { card with args := card.args ++ names } (missing - names.length)
      (stack.add line raw.toList) := by
  obtain ⟨hcard⟩ := h
  cases hline with
  | blank hraw =>
    rw [add_blank (hraw.withoutComment_eq (ends_nil _) (ends_nil _))]
    simpa using Waits.written hcard
  | names hraw hnames =>
    have htext := hraw.withoutComment_eq hnames.ends.1 hnames.ends.2
    have hpos : 0 < names.length := by
      cases hnames
      exact Nat.succ_pos _
    have hgoesOn := hnames.continuesLattice_eq
    rw [← htext] at hgoesOn
    -- There are names on the line and room for them, so the last card is still waiting.
    rw [add_continued line (by omega) hgoesOn, htext, hnames.words_eq, List.length_map]
    refine .written ?_
    simpa [String.toList_append] using hcard.append hnames.lists

/-- Several lines: the card takes the names of all of them. -/
theorem Waits.addAll {card : LatticeCard} {missing : Nat} {stack : Stack} {raws : List String}
    {runs : List (List String)} (h : Waits card missing stack)
    (hlines : List.Forall₂ NameLine raws runs) (hle : runs.flatten.length ≤ missing) (line : Nat) :
    Waits { card with args := card.args ++ runs.flatten } (missing - runs.flatten.length)
      (stack.addAll line raws) := by
  -- With every line the card has more names and waits for fewer, so both are generalized.
  induction hlines generalizing card missing stack line with
  | nil => simpa [Stack.addAll] using h
  | @cons raw names raws runs hline hlines ih =>
    rw [List.flatten_cons, List.length_append] at hle
    have hnext := h.add hline (by omega) line
    have hrest := ih hnext (by omega) (line + 1)
    rw [List.flatten_cons, List.length_append, ← List.append_assoc, ← Nat.sub_sub]
    exact hrest

theorem Waits.missing_eq {card : LatticeCard} {missing : Nat} {stack : Stack}
    (h : Waits card missing stack) : stack.missing = missing := by
  obtain ⟨-⟩ := h
  rfl

theorem Waits.deck_eq {card : LatticeCard} {missing : Nat} {lines : List String}
    (h : Waits card missing (Stack.addAll ⟨[], 0⟩ 1 lines)) :
    ∃ text : String, Written card text.toList ∧ deck lines = [⟨1, .lattice, text⟩] := by
  unfold deck
  generalize Stack.addAll ⟨[], 0⟩ 1 lines = stack at h
  obtain ⟨hcard⟩ := h
  exact ⟨_, hcard, rfl⟩

section Layout

variable {name : String} {type columns rows : Nat} {header shown : List String}
  {text : List Char} {first : String}

/-- The first line of a lattice card starts it, whatever stands before the line. -/
theorem starts_first {card : LatticeCard} (htext : Written card text) (hfirst : LineOf text first) :
    Starts first.toList := by
  have hline := hfirst.withoutComment_eq htext.ends.1 htext.ends.2
  rw [Starts, hline]
  refine ⟨?_, htext.continuesLattice_eq⟩
  cases htext
  exact List.cons_ne_nil _ _

variable (hheader : IsHeader type header columns rows)
  (hbound : header.length + columns * rows ≤ max64)
  (htext : Written ⟨name, type, header ++ shown⟩ text) (hfirst : LineOf text first)

include hheader hbound htext hfirst

/-- The first line: the card waits for the names that are not on it. -/
theorem waits_first :
    Waits ⟨name, type, header ++ shown⟩ (columns * rows - shown.length)
      (Stack.add ⟨[], 0⟩ 1 first.toList) := by
  have hline := hfirst.withoutComment_eq htext.ends.1 htext.ends.2
  have hasked : namesAsked text = columns * rows - shown.length := by
    rw [namesAsked, if_pos htext.kindOf_eq, missingNames_eq hheader hbound htext]
  rw [(starts_first htext hfirst).add, hline, startedAt, htext.kindOf_eq, hasked]
  exact .written (by simpa using htext)

/-- The first line and some lines behind it. -/
theorem waits_lines {lines : List String} {runs : List (List String)}
    (hlines : List.Forall₂ NameLine lines runs)
    (hle : (shown ++ runs.flatten).length ≤ columns * rows) :
    Waits ⟨name, type, header ++ (shown ++ runs.flatten)⟩
      (columns * rows - (shown ++ runs.flatten).length)
      (Stack.addAll ⟨[], 0⟩ 1 (first :: lines)) := by
  rw [List.length_append] at hle
  have hstart := waits_first hheader hbound htext hfirst
  have hall := hstart.addAll hlines (by omega) 2
  rw [List.length_append, ← List.append_assoc, ← Nat.sub_sub]
  exact hall

/-- As far as a card has been laid out, it is one card of the deck. -/
theorem deck_lines {lines : List String} {runs : List (List String)}
    (hlines : List.Forall₂ NameLine lines runs)
    (hle : (shown ++ runs.flatten).length ≤ columns * rows) (before : List String) :
    ∃ soFar : String, Written ⟨name, type, header ++ (shown ++ runs.flatten)⟩ soFar.toList ∧
      deck (before ++ first :: lines) =
        deck before ++ [⟨before.length + 1, .lattice, soFar⟩] := by
  obtain ⟨soFar, hwritten, hdeck⟩ :=
    (waits_lines hheader hbound htext hfirst hlines hle).deck_eq
  refine ⟨soFar, hwritten, ?_⟩
  rw [deck_append_cons (starts_first htext hfirst), hdeck, List.map_singleton, moved, Nat.add_comm]

/-- When a card has all its names, the lines behind it are sorted as they are alone. -/
theorem deck_lines_append {lines : List String} {runs : List (List String)}
    (hlines : List.Forall₂ NameLine lines runs)
    (hcount : (shown ++ runs.flatten).length = columns * rows) (before after : List String) :
    ∃ whole : String, Written ⟨name, type, header ++ (shown ++ runs.flatten)⟩ whole.toList ∧
      deck (before ++ first :: (lines ++ after)) =
        deck before ++ ⟨before.length + 1, .lattice, whole⟩ ::
          (deck after).map (moved (before.length + (lines.length + 1))) := by
  have hwaits := waits_lines hheader hbound htext hfirst hlines hcount.le
  have hrested : (Stack.addAll ⟨[], 0⟩ 1 (first :: lines)).missing = 0 := by
    rw [hwaits.missing_eq, hcount, Nat.sub_self]
  obtain ⟨whole, hwritten, hdeck⟩ := hwaits.deck_eq
  refine ⟨whole, hwritten, ?_⟩
  -- The deck is parted in front of the card, and the rest of it behind the card.
  calc deck (before ++ first :: (lines ++ after))
      = deck before ++ (deck ((first :: lines) ++ after)).map (moved before.length) :=
        deck_append_cons (starts_first htext hfirst) before (lines ++ after)
    _ = deck before ++ (⟨1, .lattice, whole⟩ ::
          (deck after).map (moved (lines.length + 1))).map (moved before.length) := by
        rw [deck_append_of_rested hrested, hdeck]
        rfl
    _ = deck before ++ ⟨before.length + 1, .lattice, whole⟩ ::
          (deck after).map (moved (before.length + (lines.length + 1))) := by
        rw [List.map_cons, map_moved_map_moved, moved, Nat.add_comm 1]

end Layout

/-- How a lattice card is laid out does not matter. The names may be spread in any way over the
    line of the header and lines behind it: the deck has one card for all of them, which reads as
    the card on a single line does, and the lines behind the card are sorted as they are behind the
    single line. After each line, the card waits for exactly the names that are still to come.

    The words of a card are counted in 64 bits, and a card in memory has no more of them. -/
theorem deck_lattice_layout {name : String} {type columns rows : Nat}
    {header shown : List String} {runs : List (List String)}
    (hheader : IsHeader type header columns rows)
    (hcount : (shown ++ runs.flatten).length = columns * rows)
    (hbound : (header ++ (shown ++ runs.flatten)).length ≤ max64)
    {text : List Char} {first : String} {lines : List String}
    (htext : Written ⟨name, type, header ++ shown⟩ text) (hfirst : LineOf text first)
    (hlines : List.Forall₂ NameLine lines runs)
    {textAlone : List Char} {alone : String}
    (htextAlone : Written ⟨name, type, header ++ (shown ++ runs.flatten)⟩ textAlone)
    (halone : LineOf textAlone alone) (before after : List String) :
    (∃ spread single : String,
      readLattice spread.toList = some ⟨name, type, header ++ (shown ++ runs.flatten)⟩ ∧
      readLattice single.toList = some ⟨name, type, header ++ (shown ++ runs.flatten)⟩ ∧
      deck (before ++ first :: (lines ++ after)) =
        deck before ++ ⟨before.length + 1, .lattice, spread⟩ ::
          (deck after).map (moved (before.length + (lines.length + 1))) ∧
      deck (before ++ alone :: after) =
        deck before ++ ⟨before.length + 1, .lattice, single⟩ ::
          (deck after).map (moved (before.length + 1))) ∧
    ∀ sofar : Nat, ∃ part : String,
      deck (before ++ first :: lines.take sofar) =
        deck before ++ [⟨before.length + 1, .lattice, part⟩] ∧
      missingNames part.toList = (runs.drop sofar).flatten.length := by
  have hbound' : header.length + columns * rows ≤ max64 := by
    rwa [List.length_append, hcount] at hbound
  constructor
  · obtain ⟨spread, hspread, hdeck⟩ :=
      deck_lines_append hheader hbound' htext hfirst hlines hcount before after
    -- The single line is a layout too, with nothing behind its first line.
    obtain ⟨single, hsingle, hdeckAlone⟩ :=
      deck_lines_append hheader hbound' htextAlone halone .nil (by simpa using hcount) before after
    rw [List.flatten_nil, List.append_nil] at hsingle
    exact ⟨spread, single, hspread.readLattice_eq, hsingle.readLattice_eq, hdeck, hdeckAlone⟩
  · intro sofar
    -- The names divide into those of the lines so far and those of the lines to come.
    have hdivided : (runs.take sofar).flatten ++ (runs.drop sofar).flatten = runs.flatten := by
      rw [← List.flatten_append, List.take_append_drop]
    have hsum : (shown ++ (runs.take sofar).flatten).length + (runs.drop sofar).flatten.length =
        columns * rows := by
      rw [← List.length_append, List.append_assoc, hdivided, hcount]
    obtain ⟨part, hpart, hdeck⟩ := deck_lines hheader hbound' htext hfirst
      (List.forall₂_take sofar hlines) (by omega) before
    refine ⟨part, hdeck, ?_⟩
    rw [missingNames_eq hheader hbound' hpart]
    omega

/-- Two names, one on the line of the header and one behind a line without text. -/
theorem deck_lattice_layout_pair :
    (∃ spread single : String,
      readLattice spread.toList = some ⟨"L", 1, ["0", "0", "2", "1", "10", "A", "B"]⟩ ∧
      readLattice single.toList = some ⟨"L", 1, ["0", "0", "2", "1", "10", "A", "B"]⟩ ∧
      deck ["lat L 1 0 0 2 1 10 A % left", "% right", " B", "set root L"] =
        [⟨1, .lattice, spread⟩, ⟨4, .root, "set root L"⟩] ∧
      deck ["lat L 1 0 0 2 1 10 A B", "set root L"] =
        [⟨1, .lattice, single⟩, ⟨2, .root, "set root L"⟩]) ∧
    ∀ sofar : Nat, ∃ part : String,
      deck ("lat L 1 0 0 2 1 10 A % left" :: ["% right", " B"].take sofar) =
        [⟨1, .lattice, part⟩] ∧
      missingNames part.toList = ([[], ["B"]].drop sofar).flatten.length := by
  have hheader : IsHeader 1 ["0", "0", "2", "1", "10"] 2 1 :=
    .square (.inl rfl) (by decide) (by decide)
  have hname : IsName "L" := by decide
  have htype : boundedDigits? max8 ['1'] = some 1 := by decide
  have hshown : Written ⟨"L", 1, ["0", "0", "2", "1", "10", "A"]⟩ "lat L 1 0 0 2 1 10 A".toList :=
    .lattice gap_space hname gap_space htype (lists_spaced (by decide) (by decide))
  have hall : Written ⟨"L", 1, ["0", "0", "2", "1", "10", "A", "B"]⟩
      "lat L 1 0 0 2 1 10 A B".toList :=
    .lattice gap_space hname gap_space htype (lists_spaced (by decide) (by decide))
  have hnames : NameText ("B".toList ++ []) ["B"] :=
    .names (by decide) (by decide) (by simp) .nil
  have hlines : List.Forall₂ NameLine ["% right", " B"] [[], ["B"]] :=
    .cons (.blank (lineOf_withoutComment "% right"))
      (.cons (.names (lineOf_withoutComment " B") hnames) .nil)
  have hroot : deck ["set root L"] = [⟨1, .root, "set root L"⟩] := by decide
  have h := deck_lattice_layout hheader rfl (by decide) hshown
    (lineOf_withoutComment "lat L 1 0 0 2 1 10 A % left") hlines hall
    (lineOf_withoutComment "lat L 1 0 0 2 1 10 A B") [] ["set root L"]
  rw [hroot] at h
  exact h

end SerpentCsg.Card
