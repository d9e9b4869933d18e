import Mathlib.Data.List.TakeWhile
import SerpentCsg.Proofs.Card.Deck
import SerpentCsg.Proofs.Text.Reading

/-! # Names on Cards

  The names that the readers of cards take are not empty and consist of letters, digits,
  underscores and points. Any such name can be written on a card that names the root universe, and
  a line with that card always makes a card of its own, whatever lines come before it.
-/

namespace SerpentCsg.Card

open Text

/-- The name is written in letters, digits, underscores and points. -/
def IsName (name : String) : Prop := name.toList ≠ [] ∧ ∀ c ∈ name.toList, isNameChar c = true

instance decidableIsName (name : String) : Decidable (IsName name) :=
  decidable_of_iff ((!name.toList.isEmpty && name.toList.all isNameChar) = true) (by simp [IsName])

/-! ### Names that are read -/

/-- A name ends where the text does not go on with one of its characters. -/
theorem name_eq_some_iff {s rest : List Char} {n : String} :
    name s = some (n, rest) ↔ IsName n ∧ s = n.toList ++ rest ∧ Ends isNameChar rest := by
  unfold name
  rw [Option.map_eq_some_iff]
  constructor
  · rintro ⟨⟨chosen, left⟩, hrun, heq⟩
    obtain ⟨rfl, rfl⟩ := Prod.mk.inj heq
    obtain ⟨hs, hne, hall, hends⟩ := run_eq_some_iff.1 hrun
    exact ⟨⟨by simpa using hne, by simpa using hall⟩, by simpa using hs, hends⟩
  · rintro ⟨⟨hne, hall⟩, hs, hends⟩
    exact ⟨(n.toList, rest), run_eq_some_iff.2 ⟨hs, hne, hall, hends⟩, by simp⟩

theorem isName_parent {s : List Char} {card : CellCard} (h : readCell s = some card) :
    IsName card.parent := by
  simp only [readCell, Option.bind_eq_bind, Option.bind_eq_some_iff, Option.pure_def,
    Option.some.injEq] at h
  obtain ⟨_, -, ⟨_, _⟩, -, _, -, ⟨parent, _⟩, hparent, _, -, ⟨_, _⟩, -, rfl⟩ := h
  exact (name_eq_some_iff.1 hparent).1

theorem isName_lattice {s : List Char} {card : LatticeCard} (h : readLattice s = some card) :
    IsName card.name := by
  simp only [readLattice, Option.bind_eq_bind, Option.bind_eq_some_iff, Option.pure_def,
    Option.some.injEq] at h
  obtain ⟨_, -, ⟨n, _⟩, hname, h⟩ := h
  obtain ⟨_, -, ⟨_, _⟩, -, _, -, _, -, rfl⟩ := h
  exact (name_eq_some_iff.1 hname).1

/-! ### Characters of names -/

/-- Characters of names are neither white space nor percent signs. -/
theorem plain_of_isNameChar {c : Char} (h : isNameChar c = true) :
    isWhite c = false ∧ c ≠ '%' := by
  -- The codes of the four kinds of characters; no white space is among them.
  have hcode : (48 ≤ c.toNat ∧ c.toNat ≤ 57) ∨ (65 ≤ c.toNat ∧ c.toNat ≤ 90) ∨
      (97 ≤ c.toNat ∧ c.toNat ≤ 122) ∨ c.toNat = 95 ∨ c.toNat = 46 := by
    simp only [isNameChar, isLetter, isDigit, Bool.or_eq_true, Bool.and_eq_true, decide_eq_true_eq,
      beq_iff_eq, Char.le_def, UInt32.le_iff_toNat_le] at h
    rcases h with ((h | h) | rfl) | rfl
    · rcases h with ⟨h₁, h₂⟩ | ⟨h₁, h₂⟩
      · exact .inr (.inr (.inl ⟨h₁, h₂⟩))
      · exact .inr (.inl ⟨h₁, h₂⟩)
    · exact .inl h
    · decide
    · decide
  constructor
  · simp only [isWhite, whiteSpaceRanges, List.any_cons, List.any_nil, Bool.or_false,
      Bool.or_eq_false_iff, Bool.and_eq_false_iff, decide_eq_false_iff_not]
    omega
  · rintro rfl
    revert hcode
    decide

theorem not_isGap_of_isNameChar {c : Char} (h : isNameChar c = true) : isGap c = false :=
  not_isGap_of_not_isWhite (plain_of_isNameChar h).1

theorem not_isNameChar_of_isGap {c : Char} (h : isGap c = true) : isNameChar c = false := by
  simp only [isGap, Bool.or_eq_true, beq_iff_eq] at h
  rcases h with rfl | rfl <;> decide

theorem not_isDigit_of_isGap {c : Char} (h : isGap c = true) : isDigit c = false := by
  have hname := not_isNameChar_of_isGap h
  simp only [isNameChar, Bool.or_eq_false_iff] at hname
  exact hname.1.1.2

/-- Names are words. -/
theorem solid_of_isNameChar {word : List Char} (hne : word ≠ [])
    (h : ∀ c ∈ word, isNameChar c = true) : Solid word :=
  ⟨hne, fun c hc => (plain_of_isNameChar (h c hc)).1⟩

theorem IsName.solid {name : String} (h : IsName name) : Solid name.toList :=
  solid_of_isNameChar h.1 h.2

theorem solid_of_isDigit {digits : List Char} (hne : digits ≠ [])
    (h : ∀ c ∈ digits, isDigit c = true) : Solid digits :=
  solid_of_isNameChar hne fun c hc => by simp [isNameChar, h c hc]

/-! ### A root card at the end of a deck -/

/-- A line that names the root universe. -/
def rootText (root : String) : List Char := "set root ".toList ++ root.toList

theorem toList_root (root : String) : ("set root " ++ root).toList = rootText root :=
  String.toList_append

theorem startsWith_rootText (root : String) :
    startsSurface (rootText root) = false ∧ startsCell (rootText root) = false ∧
      startsLattice (rootText root) = false ∧ startsMotion (rootText root) = false ∧
      startsBoundaries (rootText root) = false :=
  ⟨rfl, rfl, rfl, rfl, rfl⟩

/-- The line is no list of universe names, as it starts with a keyword. -/
theorem continuesLattice_rootText (root : String) : continuesLattice (rootText root) = false := by
  have hpieces : pieces (rootText root) =
      "set".toList :: pieces ("root ".toList ++ root.toList) := rfl
  unfold continuesLattice words
  rw [hpieces]
  rfl

section Root

variable {root : String} (h : IsName root)

include h

theorem afterGap_root : afterGap (' ' :: root.toList) = some root.toList :=
  afterGap_append gap_space fun c hc =>
    not_isGap_of_isNameChar (h.2 c (List.mem_of_mem_head? hc))

theorem afterKeyword_root :
    afterKeyword "root" ("root ".toList ++ root.toList) = some root.toList :=
  afterGap_root h

theorem withoutComment_root : withoutComment ("set root " ++ root).toList = rootText root := by
  have hplain : '%' ∉ rootText root := by
    intro hpercent
    rcases List.mem_append.1 hpercent with hset | hname
    · exact absurd hset (by decide)
    · exact (plain_of_isNameChar (h.2 '%' hname)).2 rfl
  have hline : LineOf (rootText root) ("set root " ++ root) := by
    refine @LineOf.line _ _ [] [] [] ?_ (by simp) hplain (by simp) (ends_nil _)
    rw [List.nil_append, List.append_nil, List.append_nil]
    exact toList_root root
  refine hline.withoutComment_eq ?_ ?_
  · intro c hc
    obtain rfl := Option.some.inj hc
    decide
  -- The text ends with the name, so there is nothing to trim from it.
  · unfold rootText
    rw [List.reverse_append]
    exact h.solid.reverse.ends _

theorem kindOf_rootText : kindOf (rootText root) = .root := by
  have hroot : startsRoot (rootText root) = true := by
    show (afterKeyword "root" ("root ".toList ++ root.toList)).isSome = true
    rw [afterKeyword_root h]
    rfl
  obtain ⟨h₁, h₂, h₃, h₄, h₅⟩ := startsWith_rootText root
  simp [kindOf, h₁, h₂, h₃, h₄, h₅, hroot]

theorem readRoot_rootText : readRoot (rootText root) = some root := by
  have hname : name root.toList = some (root, []) := by
    rw [name, run_eq_some_iff.2 ⟨(List.append_nil _).symm, h.1, h.2, ends_nil _⟩]
    simp
  have hset : afterKeyword "set" (rootText root) = some ("root ".toList ++ root.toList) := rfl
  rw [readRoot, hset, Option.bind_eq_bind, Option.bind_some, afterKeyword_root h]
  show (name root.toList).bind _ = some root
  rw [hname]
  rfl

/-- A root card after some lines is a card of its own. -/
theorem deck_append_root (lines : List String) :
    deck (lines ++ ["set root " ++ root]) =
      deck lines ++ [⟨lines.length + 1, .root, "set root " ++ root⟩] := by
  have hofList : String.ofList (rootText root) = "set root " ++ root := by
    rw [← toList_root, String.ofList_toList]
  -- Even if a lattice is waiting for names, the line is none of them.
  have hstarts : Starts ("set root " ++ root).toList := by
    rw [Starts, withoutComment_root h]
    exact ⟨List.cons_ne_nil _ _, continuesLattice_rootText root⟩
  have halone : deck ["set root " ++ root] = [⟨1, .root, "set root " ++ root⟩] := by
    rw [deck, Stack.addAll, Stack.addAll, hstarts.add, withoutComment_root h, startedAt,
      kindOf_rootText h, hofList]
    rfl
  rw [deck_append_cons hstarts, halone, List.map_singleton, moved, Nat.add_comm]

end Root

end SerpentCsg.Card
