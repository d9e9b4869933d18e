import SerpentCsg.Proofs.Card.Names

/-! # Cell Cards as They Are Written

  A cell card is the keyword, the name of the cell, its universe, what is in it and a surface
  expression, with gaps between them. The expression may be missing. What is in the cell is a
  universe behind the word `fill`, the word `outside`, or a material, which may be any name but
  these two words.

  A card that is written so is read back with all of its parts, whatever the names are: they may be
  keywords, begin with one, or be numbers. In a deck it is a card of its own, of the kind that goes
  with what is in the cell.
-/

namespace SerpentCsg.Card

open Text

/-! ### Ways to write a cell -/

/-- What is in a cell, as it is written, and the kind of card that it makes. -/
inductive FillText : FillWord → Kind → List Char → Prop where
  | filled {gap : List Char} {name : String} :
      Gap gap → IsName name →
      FillText (.universe name) .cellFill ("fill".toList ++ (gap ++ name.toList))
  | outside : FillText .outside .cellOutside "outside".toList
  | material {name : String} :
      IsName name → name ≠ "fill" → name ≠ "outside" →
      FillText (.material name) .cellMaterial name.toList

/-- The end of a cell card: a trimmed expression behind a gap. If there is no expression, there
    may be no gap. -/
inductive EndText (expression : List Char) : List Char → Prop where
  | ending {gap : List Char} :
      (∀ c ∈ gap, isGap c = true) → (expression ≠ [] → gap ≠ []) → trim expression = expression →
      EndText expression (gap ++ expression)

/-- How a cell card is written, and the kind of card that it is. -/
inductive CellText : CellCard → Kind → List Char → Prop where
  | cell {name parent : String} {fill : FillWord} {kind : Kind}
      {gap gap' gap'' filling expression rest : List Char} :
      Gap gap → IsName name → Gap gap' → IsName parent → Gap gap'' → FillText fill kind filling →
      EndText expression rest →
      CellText ⟨name, parent, fill, String.ofList expression⟩ kind
        ("cell".toList ++ (gap ++ (name.toList ++ (gap' ++ (parent.toList ++ (gap'' ++
          (filling ++ rest)))))))

/-! ### The end of a card -/

namespace EndText

variable {expression s : List Char}

/-- A gap stands in front of the expression, or nothing at all does. -/
theorem atBreak (h : EndText expression s) : Text.atBreak s = true := by
  cases h with
  | @ending gap hgap hparted _ =>
    cases gap with
    | nil =>
      have hnone : expression = [] := by
        by_contra hne
        exact hparted hne rfl
      rw [hnone]
      rfl
    | cons c gap => exact hgap c List.mem_cons_self

theorem trim_eq (h : EndText expression s) : trim s = expression := by
  cases h with
  | @ending gap hgap _ htrim =>
    have hends := ends_trim expression
    rw [htrim] at hends
    have hwhite : ∀ c ∈ gap, isWhite c = true := fun c hc => isWhite_of_isGap (hgap c hc)
    simpa using @trim_append gap expression [] hwhite (by simp) hends.1 hends.2

end EndText

theorem ends_isNameChar_of_atBreak {s : List Char} (h : atBreak s = true) : Ends isNameChar s := by
  cases s with
  | nil => exact ends_nil _
  | cons c s => exact (ends_cons _ c s).2 (not_isNameChar_of_isGap h)

/-! ### What is in a cell -/

/-- A text starts with one name only, if the name ends there. -/
theorem eq_of_name_append {n m : String} (hn : IsName n) (hm : IsName m) {s t : List Char}
    (h : n.toList ++ s = m.toList ++ t) (hs : Ends isNameChar s) (ht : Ends isNameChar t) :
    n = m := by
  have hfirst : name (n.toList ++ s) = some (n, s) := name_eq_some_iff.2 ⟨hn, rfl, hs⟩
  have hsecond : name (n.toList ++ s) = some (m, t) := name_eq_some_iff.2 ⟨hm, h, ht⟩
  exact (Prod.mk.inj (Option.some.inj (hfirst.symm.trans hsecond))).1

/-- Another word than `fill` is not taken for it, even if it begins like it. -/
theorem fillUniverse_of_ne {n : String} (hn : IsName n) (hne : n ≠ "fill") {s : List Char}
    (hs : Ends isNameChar s) : fillUniverse (n.toList ++ s) = none := by
  have hkeyword : afterKeyword "fill" (n.toList ++ s) = none := by
    refine Option.eq_none_iff_forall_ne_some.2 fun rest hrest => ?_
    obtain ⟨gap, hgap, htext, -⟩ := afterKeyword_eq_some_iff.1 hrest
    have hends : Ends isNameChar (gap ++ rest) := hgap.ends (fun _ => not_isNameChar_of_isGap) _
    exact hne (eq_of_name_append hn (by decide) htext hs hends)
  rw [fillUniverse, hkeyword]
  rfl

/-- Nor is another word than `outside` taken for that. -/
theorem fillOutside_of_ne {n : String} (hn : IsName n) (hne : n ≠ "outside") {s : List Char}
    (hs : Ends isNameChar s) : fillOutside (n.toList ++ s) = none := by
  unfold fillOutside
  cases hafter : afterText "outside".toList (n.toList ++ s) with
  | none => rfl
  | some rest =>
    have htext := afterText_eq_some_iff.1 hafter
    -- What follows the word is no break, since then the name would be the word.
    have hbreak : atBreak rest = false := by
      refine Bool.eq_false_iff.2 fun hbreak => hne ?_
      exact eq_of_name_append hn (by decide) htext hs (ends_isNameChar_of_atBreak hbreak)
    rw [Option.bind_some, whole, hbreak]
    rfl

namespace FillText

variable {fill : FillWord} {kind : Kind} {filling : List Char}

/-- The kind of a card is told by what is in the cell. -/
theorem kind_eq (h : FillText fill kind filling) : kind = .ofFill fill := by
  cases h <;> rfl

theorem fillWord_append (h : FillText fill kind filling) {rest : List Char}
    (hrest : atBreak rest = true) : fillWord (filling ++ rest) = some (fill, rest) := by
  have hends := ends_isNameChar_of_atBreak hrest
  cases h with
  | @filled gap n hgap hname =>
    have hkeyword := afterKeyword_append "fill" hgap (hname.solid.ends_isGap rest)
    have hnamed : name (n.toList ++ rest) = some (n, rest) :=
      name_eq_some_iff.2 ⟨hname, rfl, hends⟩
    have huniverse : fillUniverse ("fill".toList ++ (gap ++ (n.toList ++ rest))) =
        some (.universe n, rest) := by
      rw [fillUniverse, hkeyword, Option.bind_some, hnamed]
      rfl
    rw [fillWord, List.append_assoc, List.append_assoc, huniverse, Option.some_or]
  | outside =>
    have huniverse : fillUniverse ("outside".toList ++ rest) = none := rfl
    rw [fillWord, huniverse, Option.none_or, fillOutside, afterText_append, Option.bind_some, whole,
      hrest]
    rfl
  | @material n hname hfill houtside =>
    have hnamed : name (n.toList ++ rest) = some (n, rest) :=
      name_eq_some_iff.2 ⟨hname, rfl, hends⟩
    rw [fillWord, fillUniverse_of_ne hname hfill hends, fillOutside_of_ne hname houtside hends,
      Option.none_or, Option.none_or, fillMaterial, hnamed, Option.bind_some, whole, hrest]
    rfl

/-- The text ends with a word. -/
theorem ends_reverse (h : FillText fill kind filling) (s : List Char) :
    Ends isWhite (filling.reverse ++ s) := by
  cases h with
  | @filled gap n _ hname =>
    simp only [List.reverse_append, List.append_assoc]
    exact hname.solid.reverse.ends _
  | outside => exact Solid.ends (by decide) s
  | material hname => exact hname.solid.reverse.ends s

theorem ends_isGap (h : FillText fill kind filling) (s : List Char) :
    Ends isGap (filling ++ s) := by
  cases h with
  | filled _ _ => exact (ends_cons _ _ _).2 (by decide)
  | outside => exact (ends_cons _ _ _).2 (by decide)
  | material hname => exact hname.solid.ends_isGap s

end FillText

/-! ### Whole cards -/

namespace CellText

variable {card : CellCard} {kind : Kind} {text : List Char}

theorem readCell_eq (h : CellText card kind text) : readCell text = some card := by
  cases h with
  | @cell n parent fill kind gap gap' gap'' filling expression rest hgap hname hgap' hparent hgap''
      hfill hrest =>
    -- Each part ends where the next gap starts, and each gap where the next part does.
    have hkeyword := afterKeyword_append "cell" hgap
      (hname.solid.ends_isGap (gap' ++ (parent.toList ++ (gap'' ++ (filling ++ rest)))))
    have hnamed : name (n.toList ++ (gap' ++ (parent.toList ++ (gap'' ++ (filling ++ rest))))) =
        some (n, gap' ++ (parent.toList ++ (gap'' ++ (filling ++ rest)))) :=
      name_eq_some_iff.2 ⟨hname, rfl, hgap'.ends (fun _ => not_isNameChar_of_isGap) _⟩
    have hgapped := afterGap_append hgap' (hparent.solid.ends_isGap (gap'' ++ (filling ++ rest)))
    have hplaced : name (parent.toList ++ (gap'' ++ (filling ++ rest))) =
        some (parent, gap'' ++ (filling ++ rest)) :=
      name_eq_some_iff.2 ⟨hparent, rfl, hgap''.ends (fun _ => not_isNameChar_of_isGap) _⟩
    have hgapped' := afterGap_append hgap'' (hfill.ends_isGap rest)
    have hfilled := hfill.fillWord_append hrest.atBreak
    rw [readCell, hkeyword]
    simp [hnamed, hgapped, hplaced, hgapped', hfilled, hrest.trim_eq]

theorem kindOf_eq (h : CellText card kind text) : kindOf text = kind := by
  have hread := h.readCell_eq
  cases h with
  | @cell n parent fill kind gap gap' gap'' filling expression rest hgap hname hgap' hparent hgap''
      hfill hrest =>
    have hcell := congrArg Option.isSome (afterKeyword_append "cell" hgap
      (hname.solid.ends_isGap (gap' ++ (parent.toList ++ (gap'' ++ (filling ++ rest))))))
    have hsurface : ∀ s, startsSurface ("cell".toList ++ s) = false := fun _ => rfl
    rw [kindOf, hsurface, startsCell, hcell, hread, hfill.kind_eq]
    rfl

theorem kind_ne_lattice (h : CellText card kind text) : kind ≠ .lattice := by
  cases h with
  | cell _ _ _ _ _ hfill _ => cases hfill <;> decide

theorem continuesLattice_eq (h : CellText card kind text) : continuesLattice text = false := by
  cases h with
  | @cell n parent fill kind gap gap' gap'' filling expression rest hgap hname hgap' hparent hgap''
      hfill hrest =>
    have hsolid : Solid "cell".toList := by decide
    have hwords := words_append_of_solid hsolid (hgap.ends
      (fun c hc => by simp [isWhite_of_isGap hc])
      (n.toList ++ (gap' ++ (parent.toList ++ (gap'' ++ (filling ++ rest))))))
    rw [continuesLattice, hwords]
    rfl

/-- A card without an expression may have a gap at its end, which the card is written without as
    well. -/
theorem exists_core (h : CellText card kind text) :
    ∃ core gap, text = core ++ gap ∧ (∀ c ∈ gap, isGap c = true) ∧ CellText card kind core ∧
      Ends isWhite core.reverse := by
  cases h with
  | @cell n parent fill kind gap gap' gap'' filling expression rest hgap hname hgap' hparent hgap''
      hfill hrest =>
    obtain @⟨last, hlast, hparted, htrim⟩ := hrest
    by_cases hnone : expression = []
    · subst hnone
      have hend : EndText [] ([] ++ []) := .ending (by simp) (by simp) rfl
      refine ⟨_, last, ?_, hlast, .cell hgap hname hgap' hparent hgap'' hfill hend, ?_⟩
      · simp
      · simp only [List.append_nil, List.reverse_append, List.append_assoc]
        exact hfill.ends_reverse _
    · have hend : EndText expression (last ++ expression) := .ending hlast hparted htrim
      refine ⟨_, [], (List.append_nil _).symm, by simp,
        .cell hgap hname hgap' hparent hgap'' hfill hend, ?_⟩
      have hends := (ends_trim expression).2
      rw [htrim] at hends
      simp only [List.reverse_append, List.append_assoc]
      exact hends.append fun hempty => absurd (List.reverse_eq_nil_iff.1 hempty) hnone

end CellText

/-- A line with a cell card on it starts a card, whose text is written like that on the line. -/
theorem starts_cell {card : CellCard} {kind : Kind} {text : List Char} {raw : String}
    (h : CellText card kind text) (hraw : LineOf text raw) :
    CellText card kind (withoutComment raw.toList) ∧ Starts raw.toList := by
  obtain ⟨core, gap, rfl, hgap, hcore, hends⟩ := h.exists_core
  -- The gap at the end is white space around the text.
  have hline : LineOf core raw := by
    obtain @⟨before, after, comment, htext, hbefore, hpercent, hafter, hcomment⟩ := hraw
    refine @LineOf.line _ _ before (gap ++ after) comment (by simpa using htext) hbefore ?_ ?_
      hcomment
    · exact fun hmem => hpercent (List.mem_append_left _ hmem)
    · intro c hc
      rcases List.mem_append.1 hc with hc | hc
      · exact isWhite_of_isGap (hgap c hc)
      · exact hafter c hc
  have hfirst : Ends isWhite core ∧ core ≠ [] := by
    obtain ⟨⟩ := hcore
    exact ⟨(ends_cons _ _ _).2 (by decide), List.cons_ne_nil _ _⟩
  rw [Starts, hline.withoutComment_eq hfirst.1 hends]
  exact ⟨hcore, hfirst.2, hcore.continuesLattice_eq⟩

/-- A cell card is read as it is written. On whatever line of a deck it stands, it is a card of its
    own, of the kind that goes with what is in the cell, and it reads as it is written there too. -/
theorem deck_cell_head {card : CellCard} {kind : Kind} {text : List Char}
    (h : CellText card kind text) :
    readCell text = some card ∧
    ∀ raw, LineOf text raw → ∀ before after : List String, ∃ line : String,
      readCell line.toList = some card ∧
      deck (before ++ raw :: after) =
        deck before ++ ⟨before.length + 1, kind, line⟩ ::
          (deck after).map (moved (before.length + 1)) := by
  refine ⟨h.readCell_eq, fun raw hraw before after => ?_⟩
  obtain ⟨hcore, hstarts⟩ := starts_cell h hraw
  generalize hline : withoutComment raw.toList = core at hcore
  have hadd := hstarts.add ⟨[], 0⟩ 1
  rw [hline, startedAt, hcore.kindOf_eq, namesAsked, hcore.kindOf_eq,
    if_neg hcore.kind_ne_lattice] at hadd
  have halone : deck [raw] = [⟨1, kind, String.ofList core⟩] := by
    rw [deck, Stack.addAll, Stack.addAll, hadd]
    rfl
  have hrested : (Stack.addAll ⟨[], 0⟩ 1 [raw]).missing = 0 := by
    rw [Stack.addAll, Stack.addAll, hadd]
  refine ⟨String.ofList core, by rw [String.toList_ofList, hcore.readCell_eq], ?_⟩
  have hrest := deck_append_of_rested hrested after
  rw [halone, List.singleton_append] at hrest
  rw [deck_append_cons hstarts, hrest, List.singleton_append, List.map_cons, map_moved_map_moved,
    moved, Nat.add_comm 1]
  rfl

/-- The keywords of cells as names, while a lattice waits for one; and a material whose name begins
    with a keyword, in a cell without an expression. -/
theorem deck_cell_head_keywords :
    (readCell "cell fill outside\tfill cell -s:#7".toList =
        some ⟨"fill", "outside", .universe "cell", "-s:#7"⟩ ∧
      ∃ line : String,
        readCell line.toList = some ⟨"fill", "outside", .universe "cell", "-s:#7"⟩ ∧
        deck ["lat L 1 0 0 1 1 10", " cell fill outside\tfill cell -s:#7 % left", "A"] =
          deck ["lat L 1 0 0 1 1 10"] ++ ⟨2, .cellFill, line⟩ :: (deck ["A"]).map (moved 2)) ∧
    readCell "cell 1 fill  filler\t".toList = some ⟨"1", "fill", .material "filler", ""⟩ := by
  have hfill : FillText (.universe "cell") .cellFill "fill cell".toList :=
    .filled gap_space (by decide)
  have hend : EndText "-s:#7".toList " -s:#7".toList :=
    @EndText.ending _ [' '] (by simp [isGap]) (by simp) (by decide)
  have hfilled : CellText ⟨"fill", "outside", .universe "cell", "-s:#7"⟩ .cellFill
      "cell fill outside\tfill cell -s:#7".toList :=
    @CellText.cell "fill" "outside" _ _ _ _ ['\t'] _ _ _ gap_space (by decide) gap_space
      (by decide) (by decide) hfill hend
  have hmaterial : FillText (.material "filler") .cellMaterial "filler".toList :=
    .material (by decide) (by decide) (by decide)
  have hnone : EndText [] "\t".toList := @EndText.ending _ ['\t'] (by simp [isGap]) (by simp) rfl
  have hempty : CellText ⟨"1", "fill", .material "filler", ""⟩ .cellMaterial
      "cell 1 fill  filler\t".toList :=
    @CellText.cell "1" "fill" _ _ _ _ [' ', ' '] _ _ _ gap_space (by decide) gap_space
      (by decide) (by decide) hmaterial hnone
  obtain ⟨hread, hdeck⟩ := deck_cell_head hfilled
  have hline := lineOf_withoutComment " cell fill outside\tfill cell -s:#7 % left"
  exact ⟨⟨hread, hdeck _ hline ["lat L 1 0 0 1 1 10"] ["A"]⟩, (deck_cell_head hempty).1⟩

end SerpentCsg.Card
