import SerpentCsg.Card.Expression
import SerpentCsg.Proofs.Card.Names

/-! # How Surface Expressions Are Written

  The tokens of a surface expression are written one after another, with any number of spaces and
  tabs in front of each and behind the last. Nothing needs to stand between two of them, except
  between a surface and a surface without a sign, whose names would run together.

  - `TokenText` says how a token is written, and `ExpressionText` how several are;
  - `cellToken_eq_some_iff` says what the reader of one token takes;
  - `readExpression_eq_some_iff` says that reading is the inverse of writing: a text is read as a
    list of tokens if and only if it is one of the ways to write that list.
-/

namespace SerpentCsg.Card

open Text

/-! ### Ways to write tokens -/

namespace CellToken

/-- The character that an operator is written as. -/
def symbol? : CellToken → Option Char
  | opening => some '('
  | closing => some ')'
  | union => some ':'
  | complement => some '#'
  | surface .. => none

/-- The token is a surface. -/
def isSurface : CellToken → Bool
  | surface .. => true
  | _ => false

end CellToken

/-- A token as it is written. The positive side of a surface needs no sign. -/
inductive TokenText : CellToken → List Char → Prop where
  | operator {t : CellToken} {c : Char} : t.symbol? = some c → TokenText t [c]
  | negative {name : String} : IsName name → TokenText (.surface true name) ('-' :: name.toList)
  | positive {name : String} : IsName name → TokenText (.surface false name) ('+' :: name.toList)
  | unsigned {name : String} : IsName name → TokenText (.surface false name) name.toList

/-- Tokens as they are written, where a surface may stand right in front of them. If one does,
    there has to be a gap before a name without a sign. -/
inductive ExpressionText : Bool → List CellToken → List Char → Prop where
  | nil {afterSurface : Bool} {gap : List Char} :
      (∀ c ∈ gap, isGap c = true) → ExpressionText afterSurface [] gap
  | cons {afterSurface : Bool} {t : CellToken} {ts : List CellToken} {gap text s : List Char} :
      (∀ c ∈ gap, isGap c = true) → TokenText t text →
      (afterSurface = true → ¬ Ends isNameChar text → gap ≠ []) →
      ExpressionText t.isSurface ts s → ExpressionText afterSurface (t :: ts) (gap ++ (text ++ s))

/-! ### One token -/

theorem TokenText.ne_nil {t : CellToken} {text : List Char} (h : TokenText t text) :
    text ≠ [] := by
  cases h with
  | operator _ | negative _ | positive _ => exact List.cons_ne_nil _ _
  | unsigned hname => exact hname.1

/-- No token starts with a gap. -/
theorem TokenText.ends_isGap {t : CellToken} {text : List Char} (h : TokenText t text)
    (s : List Char) : Ends isGap (text ++ s) := by
  cases h with
  | operator hsymbol =>
    cases t <;> simp only [CellToken.symbol?, Option.some.injEq, reduceCtorEq] at hsymbol
    all_goals subst hsymbol; exact (ends_cons _ _ _).2 (by decide)
  | negative _ | positive _ => exact (ends_cons _ _ _).2 (by decide)
  | unsigned hname => exact hname.solid.ends_isGap s

theorem surfaceToken_eq_some_iff {negative : Bool} {s rest : List Char} {t : CellToken} :
    surfaceToken negative s = some (t, rest) ↔
      ∃ surface, t = .surface negative surface ∧ IsName surface ∧ s = surface.toList ++ rest ∧
        Ends isNameChar rest := by
  unfold surfaceToken
  rw [Option.map_eq_some_iff]
  constructor
  · rintro ⟨⟨surface, left⟩, hname, heq⟩
    obtain ⟨rfl, rfl⟩ := Prod.mk.inj heq
    exact ⟨surface, rfl, name_eq_some_iff.1 hname⟩
  · rintro ⟨surface, rfl, hname⟩
    exact ⟨(surface, rest), name_eq_some_iff.2 hname, rfl⟩

/-- A character of names starts no token but a surface without a sign. -/
private theorem cellToken_of_isNameChar {c : Char} {s : List Char} (hc : isNameChar c = true) :
    cellToken (c :: s) = surfaceToken false (c :: s) := by
  unfold cellToken
  rw [dropWhile_of_ends ((ends_cons _ _ _).2 (not_isGap_of_isNameChar hc))]
  split <;> simp_all [isNameChar, isLetter, isDigit]

/-- A token that is written is read, if the name of a surface does not go on behind it. -/
theorem TokenText.cellToken_append {t : CellToken} {text rest : List Char} (h : TokenText t text)
    (hends : t.isSurface = true → Ends isNameChar rest) :
    cellToken (text ++ rest) = some (t, rest) := by
  cases h with
  | operator hsymbol =>
    cases t <;> simp only [CellToken.symbol?, Option.some.injEq, reduceCtorEq] at hsymbol
    all_goals subst hsymbol; rfl
  | negative hname | positive hname =>
    exact surfaceToken_eq_some_iff.2 ⟨_, rfl, hname, rfl, hends rfl⟩
  | @unsigned surface hname =>
    have hread : surfaceToken false (surface.toList ++ rest) =
        some (.surface false surface, rest) :=
      surfaceToken_eq_some_iff.2 ⟨surface, rfl, hname, rfl, hends rfl⟩
    obtain ⟨c, others, hcons⟩ := List.exists_cons_of_ne_nil hname.1
    have hc : isNameChar c = true := hname.2 c (by rw [hcons]; exact List.mem_cons_self)
    rw [hcons, List.cons_append] at hread ⊢
    rw [cellToken_of_isNameChar hc, hread]

/-- A token that is read is written behind the gap. -/
theorem exists_tokenText {s rest : List Char} {t : CellToken} (h : cellToken s = some (t, rest)) :
    ∃ text, TokenText t text ∧ s.dropWhile isGap = text ++ rest ∧
      (t.isSurface = true → Ends isNameChar rest) := by
  unfold cellToken at h
  generalize s.dropWhile isGap = front at h
  -- Signs, and everything that is no operator, may start a surface.
  split at h
  case h_5 =>
    obtain ⟨surface, rfl, hname, rfl, hends⟩ := surfaceToken_eq_some_iff.1 h
    exact ⟨_, .negative hname, rfl, fun _ => hends⟩
  case h_6 =>
    obtain ⟨surface, rfl, hname, rfl, hends⟩ := surfaceToken_eq_some_iff.1 h
    exact ⟨_, .positive hname, rfl, fun _ => hends⟩
  case h_7 =>
    obtain ⟨surface, rfl, hname, rfl, hends⟩ := surfaceToken_eq_some_iff.1 h
    exact ⟨_, .unsigned hname, rfl, fun _ => hends⟩
  all_goals
    obtain ⟨rfl, rfl⟩ := Prod.mk.inj (Option.some.inj h)
    exact ⟨_, .operator rfl, rfl, fun hsurface => by cases hsurface⟩

/-- A token is read as it is written, and the name of a surface to its end. -/
theorem cellToken_eq_some_iff {s rest : List Char} {t : CellToken} :
    cellToken s = some (t, rest) ↔
      ∃ gap text, (∀ c ∈ gap, isGap c = true) ∧ TokenText t text ∧ s = gap ++ (text ++ rest) ∧
        (t.isSurface = true → Ends isNameChar rest) := by
  constructor
  · intro h
    obtain ⟨text, htext, hdrop, hends⟩ := exists_tokenText h
    refine ⟨s.takeWhile isGap, text, List.all_eq_true.1 List.all_takeWhile, htext, ?_, hends⟩
    rw [← hdrop, List.takeWhile_append_dropWhile]
  · rintro ⟨gap, text, hgap, htext, rfl, hends⟩
    have hskip : cellToken (gap ++ (text ++ rest)) = cellToken (text ++ rest) := by
      unfold cellToken
      rw [List.dropWhile_append_of_pos hgap]
    rw [hskip, htext.cellToken_append hends]

theorem takes_cellToken : Takes cellToken := by
  intro s t rest h
  obtain ⟨gap, text, -, htext, rfl, -⟩ := cellToken_eq_some_iff.1 h
  have hpos := List.length_pos_iff.2 htext.ne_nil
  simp only [List.length_append]
  omega

/-! ### Whole expressions -/

/-- What is written behind a surface does not go on with its name. -/
theorem ExpressionText.ends {ts : List CellToken} {s : List Char} (h : ExpressionText true ts s) :
    Ends isNameChar s := by
  have hfront {gap : List Char} (hgap : ∀ c ∈ gap, isGap c = true) : Ends isNameChar gap :=
    fun c hc => not_isNameChar_of_isGap (hgap c (List.mem_of_mem_head? hc))
  cases h with
  | nil hgap => exact hfront hgap
  | @cons _ t ts gap text s hgap htext hparted _ =>
    -- Without a gap the token does not start like a name.
    refine (hfront hgap).append fun hempty => ?_
    have htoken : Ends isNameChar text := by
      by_contra hname
      exact hparted rfl hname hempty
    exact htoken.append fun hnil => absurd hnil htext.ne_nil

/-- The tokens that are written are read one after another, and nothing but a gap is left. -/
theorem ExpressionText.repeats {afterSurface : Bool} {ts : List CellToken} {s : List Char}
    (h : ExpressionText afterSurface ts s) :
    ∃ left, Repeats cellToken s ts left ∧ onlyGap left = true := by
  -- By induction on the tokens: that each ends where the next starts is `ExpressionText.ends`.
  induction h with
  | @nil _ gap hgap =>
    refine ⟨gap, .stop ?_, List.all_eq_true.2 hgap⟩
    unfold cellToken
    rw [List.dropWhile_eq_nil_iff.2 hgap]
    rfl
  | @cons _ t ts gap text s hgap htext _ hrest ih =>
    obtain ⟨left, hrepeats, hleft⟩ := ih
    have hends : t.isSurface = true → Ends isNameChar s := by
      intro hsurface
      rw [hsurface] at hrest
      exact hrest.ends
    have hread := cellToken_eq_some_iff.2 ⟨gap, text, hgap, htext, rfl, hends⟩
    exact ⟨left, .next hread hrepeats, hleft⟩

/-- Tokens that are read to the end of a text are written in it. -/
theorem expressionText_of_repeats {s left : List Char} {ts : List CellToken}
    (h : Repeats cellToken s ts left) (hleft : onlyGap left = true) {afterSurface : Bool}
    (hends : afterSurface = true → Ends isNameChar s) : ExpressionText afterSurface ts s := by
  induction h generalizing afterSurface with
  | stop _ => exact .nil (List.all_eq_true.1 hleft)
  | @next s rest left t ts hread _ ih =>
    obtain ⟨gap, text, hgap, htext, rfl, hrest⟩ := cellToken_eq_some_iff.1 hread
    refine .cons hgap htext ?_ (ih hleft hrest)
    -- A name right behind another one would have been read with it.
    rintro hafter hname rfl
    cases text with
    | nil => exact htext.ne_nil rfl
    | cons c text => exact hname (hends hafter)

/-- A text is read as some tokens if and only if it is a way to write them. -/
theorem readExpression_eq_some_iff {s : List Char} {ts : List CellToken} :
    readExpression s = some ts ↔ ExpressionText false ts s := by
  have hread : readExpression s =
      if onlyGap (many cellToken s).2 then some (many cellToken s).1 else none := rfl
  rw [hread, Option.ite_none_right_eq_some, Option.some.injEq]
  constructor
  · rintro ⟨hleft, rfl⟩
    exact expressionText_of_repeats (repeats_many takes_cellToken s) hleft (by simp)
  · intro h
    obtain ⟨left, hrepeats, hleft⟩ := h.repeats
    rw [(many_eq_iff takes_cellToken).2 hrepeats]
    exact ⟨hleft, rfl⟩

example : readExpression "s#(1:+2)-x.1\t y ".toList =
    some [.surface false "s", .complement, .opening, .surface false "1", .union,
      .surface false "2", .closing, .surface true "x.1", .surface false "y"] := by
  decide +kernel

end SerpentCsg.Card
