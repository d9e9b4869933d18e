import SerpentCsg.Input.Materials
import SerpentCsg.Proofs.Text.Reading

/-! # The Start Tags of a Document

  How a document with start tags of an element is written, said without a reader: `AttributeText`
  for one attribute, `TagText` for a tag, and `DocumentText` for tags with other text around them.
  Other text may hold the beginning of a tag, if the name of the element goes on behind it.

  - `attribute?` reads the texts of attributes and nothing else;
  - a tag is read to its end, whatever its values contain;
  - no tag is found in other text, not even one that begins there and goes on behind it;
  - so `startTags` finds exactly the tags that were written.
-/

namespace SerpentCsg

open Text

/-- A text between quotes is read up to the second of them. -/
theorem Card.between_eq_some_iff {quote : Char} {s value rest : List Char} :
    between quote s = some (value, rest) ↔
      s = quote :: (value ++ quote :: rest) ∧ quote ∉ value := by
  constructor
  · intro h
    unfold between at h
    split at h
    · simp at h
    next c s =>
    obtain ⟨hquote, h⟩ := Option.ite_none_left_eq_some.1 h
    obtain rfl : c = quote := by simpa using hquote
    split at h
    · simp at h
    · next d rest' hdrop =>
      obtain ⟨rfl, rfl⟩ := Prod.mk.inj (Option.some.inj h)
      have hhead : Ends (· != c) (s.dropWhile (· != c)) := ends_dropWhile _ s
      obtain rfl : d = c := by simpa [hdrop] using hhead
      refine ⟨by rw [← hdrop, List.takeWhile_append_dropWhile], fun hmem => ?_⟩
      simpa using List.all_eq_true.1 List.all_takeWhile _ hmem
  · rintro ⟨rfl, hvalue⟩
    have hinside : ∀ c ∈ value, (c != quote) = true := fun c hc => by
      have : c ≠ quote := fun heq => hvalue (heq ▸ hc)
      simpa using this
    simp [between, List.takeWhile_append_of_pos hinside, List.dropWhile_append_of_pos hinside]

namespace Tag

/-! ### How tags are written -/

/-- Layout only, possibly none. -/
def Layout (s : List Char) : Prop := ∀ c ∈ s, isLayout c = true

instance decidableLayout (s : List Char) : Decidable (Layout s) :=
  decidable_of_iff (s.all isLayout = true) List.all_eq_true

/-- The name of an attribute. -/
def IsKey (key : List Char) : Prop := key ≠ [] ∧ ∀ c ∈ key, isKeyChar c = true

/-- A value in quotes of one kind, which do not occur in it. -/
inductive QuotedText (value : List Char) : List Char → Prop where
  | quoted {quote : Char} :
      quote = '"' ∨ quote = '\'' → quote ∉ value → QuotedText value (quote :: (value ++ [quote]))

/-- An attribute: a name, an equals sign and a value, with any layout in front of each. -/
inductive AttributeText : String × String → List Char → Prop where
  | attribute {key value gap beforeSign beforeValue quoted : List Char} :
      Layout gap → IsKey key → Layout beforeSign → Layout beforeValue → QuotedText value quoted →
      AttributeText (String.ofList key, String.ofList value)
        (gap ++ (key ++ (beforeSign ++ ('=' :: (beforeValue ++ quoted)))))

/-- Attributes one after another. -/
inductive AttributesText : Attributes → List Char → Prop where
  | nil : AttributesText [] []
  | cons {entry : String × String} {entries : Attributes} {text others : List Char} :
      AttributeText entry text → AttributesText entries others →
      AttributesText (entry :: entries) (text ++ others)

/-- The end of a tag, of either kind, with any layout in front. -/
inductive TagEnd : List Char → Prop where
  | tagEnd {gap mark : List Char} :
      Layout gap → mark = ['>'] ∨ mark = ['/', '>'] → TagEnd (gap ++ mark)

/-- The first characters of a tag. -/
def opening (element : String) : List Char := '<' :: element.toList

/-- A start tag. Its first attribute has layout in front. -/
inductive TagText (element : String) (attributes : Attributes) : List Char → Prop where
  | tag {text ending : List Char} :
      AttributesText attributes text → Ends (!isLayout ·) text → TagEnd ending →
      TagText element attributes (opening element ++ (text ++ ending))

/-- The name of an element goes on here, for example with a letter. -/
def GoesOn (s : List Char) : Prop := ∃ c ∈ s.head?, isWhite c = false ∧ c ≠ '>' ∧ c ≠ '/'

instance decidableGoesOn : ∀ s, Decidable (GoesOn s)
  | [] => .isFalse (by simp [GoesOn])
  | c :: _ => decidable_of_iff (isWhite c = false ∧ c ≠ '>' ∧ c ≠ '/') (by simp [GoesOn])

/-- Text without tags: wherever one seems to begin, the name of the element goes on. -/
def Plain (element : String) (s : List Char) : Prop :=
  ∀ before after, s = before ++ (opening element ++ after) → GoesOn after

/-- A document: tags with other text around them. -/
inductive DocumentText (element : String) : List Attributes → List Char → Prop where
  | text {s : List Char} : Plain element s → DocumentText element [] s
  | tag {attributes : Attributes} {tags : List Attributes} {s tag rest : List Char} :
      Plain element s → TagText element attributes tag → DocumentText element tags rest →
      DocumentText element (attributes :: tags) (s ++ (tag ++ rest))

/-! ### Layout -/

theorem isWhite_of_isLayout {c : Char} (h : isLayout c = true) : isWhite c = true := by
  simp only [isLayout, Bool.or_eq_true, beq_iff_eq] at h
  rcases h with ((rfl | rfl) | rfl) | rfl <;> decide

theorem isLayout_of_isKeyChar {c : Char} (h : isKeyChar c = true) : isLayout c = false := by
  refine Bool.eq_false_iff.2 fun hlayout => ?_
  simp only [isLayout, Bool.or_eq_true, beq_iff_eq] at hlayout
  rcases hlayout with ((rfl | rfl) | rfl) | rfl <;> exact absurd h (by decide)

/-- Layout is skipped up to something else. -/
theorem skipLayout_append {gap s : List Char} (hgap : Layout gap) (hs : Ends isLayout s) :
    skipLayout (gap ++ s) = s := by
  rw [skipLayout, List.dropWhile_append_of_pos hgap, dropWhile_of_ends hs]

/-- What is skipped is layout. -/
theorem exists_layout (s : List Char) : ∃ gap, Layout gap ∧ s = gap ++ skipLayout s :=
  ⟨s.takeWhile isLayout, List.all_eq_true.1 List.all_takeWhile,
    List.takeWhile_append_dropWhile.symm⟩

/-! ### Attributes -/

theorem quoted_eq_some_iff {s value rest : List Char} :
    (Card.between '"' s).or (Card.between '\'' s) = some (value, rest) ↔
      ∃ text, QuotedText value text ∧ s = text ++ rest := by
  constructor
  · intro h
    have hquoted : ∃ quote, (quote = '"' ∨ quote = '\'') ∧
        Card.between quote s = some (value, rest) := by
      rcases Option.or_eq_some_iff.1 h with h | ⟨-, h⟩
      · exact ⟨_, .inl rfl, h⟩
      · exact ⟨_, .inr rfl, h⟩
    obtain ⟨quote, hquote, h⟩ := hquoted
    obtain ⟨rfl, hvalue⟩ := Card.between_eq_some_iff.1 h
    exact ⟨_, .quoted hquote hvalue, by simp⟩
  · rintro ⟨_, @⟨quote, hquote, hvalue⟩, rfl⟩
    have hbetween : Card.between quote (quote :: (value ++ [quote]) ++ rest) = some (value, rest) :=
      Card.between_eq_some_iff.2 ⟨by simp, hvalue⟩
    rcases hquote with rfl | rfl
    · rw [hbetween, Option.some_or]
    · -- A value in single quotes does not start with a double quote.
      rw [hbetween]
      rfl

theorem QuotedText.ends {value text : List Char} (h : QuotedText value text) (s : List Char) :
    Ends isLayout (text ++ s) := by
  obtain ⟨rfl | rfl, -⟩ := h
  · exact (ends_cons _ _ _).2 (by decide)
  · exact (ends_cons _ _ _).2 (by decide)

theorem IsKey.ends {key : List Char} (h : IsKey key) (s : List Char) :
    Ends isLayout (key ++ s) := by
  cases key with
  | nil => exact absurd rfl h.1
  | cons c key => exact (ends_cons _ _ _).2 (isLayout_of_isKeyChar (h.2 c List.mem_cons_self))

/-- After a name there is layout or an equals sign. -/
theorem ends_isKeyChar {gap : List Char} (hgap : Layout gap) (s : List Char) :
    Ends isKeyChar (gap ++ ('=' :: s)) := by
  cases gap with
  | nil => exact (ends_cons _ _ _).2 (by decide)
  | cons c gap =>
    refine (ends_cons _ _ _).2 (Bool.eq_false_iff.2 fun hkey => ?_)
    have hlayout := hgap c List.mem_cons_self
    rw [isLayout_of_isKeyChar hkey] at hlayout
    simp at hlayout

/-- Attributes are read as they are written. -/
theorem attribute?_eq_some_iff {s rest : List Char} {entry : String × String} :
    attribute? s = some (entry, rest) ↔ ∃ text, AttributeText entry text ∧ s = text ++ rest := by
  constructor
  · intro h
    simp only [attribute?, Option.bind_eq_bind, Option.bind_eq_some_iff, Option.pure_def,
      Option.some.injEq, Prod.mk.injEq] at h
    obtain ⟨⟨key, s₁⟩, hkey, s₂, hsign, ⟨value, _⟩, hvalue, rfl, rfl⟩ := h
    -- What was skipped in front of each part is its layout.
    obtain ⟨gap, hgap, hs⟩ := exists_layout s
    obtain ⟨beforeSign, hbeforeSign, hs₁⟩ := exists_layout s₁
    obtain ⟨beforeValue, hbeforeValue, hs₂⟩ := exists_layout s₂
    obtain ⟨hkeyAt, hne, hall, -⟩ := run_eq_some_iff.1 hkey
    obtain ⟨quoted, hquoted, hvalueAt⟩ := quoted_eq_some_iff.1 hvalue
    refine ⟨_, .attribute hgap ⟨hne, hall⟩ hbeforeSign hbeforeValue hquoted, ?_⟩
    rw [hs, hkeyAt, hs₁, afterText_eq_some_iff.1 hsign, hs₂, hvalueAt]
    simp
  · rintro ⟨_, @⟨key, value, gap, beforeSign, beforeValue, quoted, hgap, hkey, hbeforeSign,
      hbeforeValue, hquoted⟩, rfl⟩
    have hvalue := quoted_eq_some_iff.2 ⟨quoted, hquoted, rfl (a := quoted ++ rest)⟩
    have hsign : Ends isLayout ('=' :: (beforeValue ++ (quoted ++ rest))) :=
      (ends_cons _ _ _).2 (by decide)
    -- Each part ends where the next one begins, since their first characters differ.
    simp only [attribute?, List.append_assoc, List.cons_append]
    rw [skipLayout_append hgap (hkey.ends _),
      run_eq_some_iff.2 ⟨rfl, hkey.1, hkey.2, ends_isKeyChar hbeforeSign _⟩]
    simp only [Option.bind_eq_bind, Option.bind_some]
    rw [skipLayout_append hbeforeSign hsign]
    simp only [afterText, beq_self_eq_true, if_true, Option.bind_some]
    rw [skipLayout_append hbeforeValue (hquoted.ends rest), hvalue]
    rfl

theorem AttributeText.length_pos {entry : String × String} {text : List Char}
    (h : AttributeText entry text) : 0 < text.length := by
  obtain ⟨⟩ := h
  simp only [List.length_append, List.length_cons]
  omega

theorem takes_attribute? : Takes attribute? := by
  intro s entry rest h
  obtain ⟨text, htext, rfl⟩ := attribute?_eq_some_iff.1 h
  have hpos := htext.length_pos
  rw [List.length_append]
  omega

/-- Attributes are read one after another, up to where there is none. -/
theorem AttributesText.repeats {entries : Attributes} {text rest : List Char}
    (h : AttributesText entries text) (hrest : attribute? rest = none) :
    Repeats attribute? (text ++ rest) entries rest := by
  induction h with
  | nil => exact .stop hrest
  | cons hentry _ ih =>
    rw [List.append_assoc]
    exact .next (attribute?_eq_some_iff.2 ⟨_, hentry, rfl⟩) ih

/-- Attributes one after another are what is read, if nothing is left. -/
theorem attributesText_iff {entries : Attributes} {s : List Char} :
    AttributesText entries s ↔ many attribute? s = (entries, []) := by
  rw [many_eq_iff takes_attribute?]
  constructor
  · intro h
    have hend : attribute? [] = none := rfl
    simpa using h.repeats hend
  · intro h
    generalize hleft : ([] : List Char) = left at h
    induction h with
    | @stop s _ =>
      subst hleft
      exact .nil
    | @next s rest left entry entries hread _ ih =>
      obtain ⟨text, htext, rfl⟩ := attribute?_eq_some_iff.1 hread
      exact .cons htext (ih hleft)

instance decidableAttributesText (entries : Attributes) (s : List Char) :
    Decidable (AttributesText entries s) :=
  decidable_of_iff _ attributesText_iff.symm

/-! ### Whole tags -/

theorem ends_mark {p : Char → Bool} {mark : List Char} (h : mark = ['>'] ∨ mark = ['/', '>'])
    (hgreater : p '>' = false) (hslash : p '/' = false) (rest : List Char) :
    Ends p (mark ++ rest) := by
  rcases h with rfl | rfl
  · exact (ends_cons _ _ _).2 hgreater
  · exact (ends_cons _ _ _).2 hslash

/-- Layout ends the name of an element. -/
theorem atTagBreak_of_isLayout {c : Char} (h : isLayout c = true) (s : List Char) :
    atTagBreak (c :: s) = true := by
  simp [atTagBreak, isWhite_of_isLayout h]

namespace TagEnd

variable {ending : List Char}

theorem attribute? (h : TagEnd ending) (rest : List Char) :
    Tag.attribute? (ending ++ rest) = none := by
  obtain ⟨hgap, hmark⟩ := h
  rw [Tag.attribute?, List.append_assoc,
    skipLayout_append hgap (ends_mark hmark (by decide) (by decide) rest),
    run_of_ends (ends_mark hmark (by decide) (by decide) rest)]
  rfl

theorem afterTagEnd (h : TagEnd ending) (rest : List Char) :
    Tag.afterTagEnd (ending ++ rest) = some rest := by
  obtain ⟨hgap, hmark⟩ := h
  rw [Tag.afterTagEnd, List.append_assoc,
    skipLayout_append hgap (ends_mark hmark (by decide) (by decide) rest)]
  rcases hmark with rfl | rfl
  · rfl
  · rfl

theorem atTagBreak (h : TagEnd ending) (rest : List Char) :
    Tag.atTagBreak (ending ++ rest) = true := by
  obtain @⟨gap, mark, hgap, hmark⟩ := h
  cases gap with
  | nil => rcases hmark with rfl | rfl <;> rfl
  | cons c gap => exact atTagBreak_of_isLayout (hgap c List.mem_cons_self) _

end TagEnd

/-- A tag is read to its end. -/
theorem TagText.startTag? {element : String} {attributes : Attributes} {tag : List Char}
    (h : TagText element attributes tag) {rest : List Char} {limit : Nat}
    (hlimit : (tag ++ rest).length ≤ limit) :
    Tag.startTag? limit element (tag ++ rest) = some (attributes, rest) := by
  obtain @⟨text, ending, htext, hfront, hending⟩ := h
  have hbreak : atTagBreak (text ++ (ending ++ rest)) = true := by
    cases text with
    | nil => exact hending.atTagBreak rest
    | cons c text => exact atTagBreak_of_isLayout (by simpa using hfront) _
  have hattributes : manyAtMost attribute? limit (text ++ (ending ++ rest)) =
      (attributes, ending ++ rest) := by
    rw [manyAtMost_eq_iff takes_attribute? (by simp at hlimit ⊢; omega)]
    exact htext.repeats (hending.attribute? rest)
  rw [Tag.startTag?, List.append_assoc, List.append_assoc, opening, afterText_append]
  simp only [Option.bind_eq_bind, Option.bind_some, hbreak, if_true, hattributes,
    hending.afterTagEnd rest]
  rfl

/-! ### Text without tags -/

section Documents

variable {element : String}

theorem plain_nil (element : String) : Plain element [] := by
  intro before after h
  simp [opening] at h

/-- Text is without tags if it does not start with one, and none comes later. -/
theorem plain_cons {c : Char} {s : List Char} :
    Plain element (c :: s) ↔
      (∀ after ∈ afterText (opening element) (c :: s), GoesOn after) ∧ Plain element s := by
  constructor
  · intro h
    constructor
    · intro after hafter
      have hsplit : c :: s = opening element ++ after := afterText_eq_some_iff.1 hafter
      exact h [] after hsplit
    · rintro before after rfl
      exact h (c :: before) after rfl
  · rintro ⟨hfirst, hrest⟩ before after hsplit
    cases before with
    | nil => exact hfirst after (afterText_eq_some_iff.2 hsplit)
    | cons d before => exact hrest before after (List.cons.inj hsplit).2

instance decidablePlain (element : String) : ∀ s, Decidable (Plain element s)
  | [] => .isTrue (plain_nil element)
  | _ :: s =>
    have := decidablePlain element s
    decidable_of_iff _ plain_cons.symm

theorem GoesOn.atTagBreak {s : List Char} (h : GoesOn s) (rest : List Char) :
    Tag.atTagBreak (s ++ rest) = false := by
  obtain ⟨c, hc, hwhite, hgreater, hslash⟩ := h
  obtain ⟨s, rfl⟩ := List.head?_eq_some_iff.1 hc
  simp [Tag.atTagBreak, hwhite, hgreater, hslash]

/-- The beginning of a tag lies in one text and not across two, since no part of it but the first
    character is an opening bracket. -/
theorem opening_within {c : Char} {s rest after : List Char} (hname : '<' ∉ element.toList)
    (hrest : Ends (· != '<') rest) (h : c :: s ++ rest = opening element ++ after) :
    ∃ after', c :: s = opening element ++ after' ∧ after = after' ++ rest := by
  rcases List.append_eq_append_iff.1 h with ⟨part, hopening, hpart⟩ | hwithin
  · cases part with
    | nil => exact ⟨[], by simpa using hopening.symm, by simpa using hpart.symm⟩
    | cons d part =>
      obtain rfl : d = '<' := by simpa [hpart] using hrest
      obtain ⟨-, hin⟩ := List.cons.inj hopening
      exact absurd (hin ▸ by simp) hname
  · exact hwithin

/-- No tag is read where there is text without tags, whatever comes next. -/
theorem Plain.startTag? {c : Char} {s rest : List Char} (h : Plain element (c :: s))
    (hname : '<' ∉ element.toList) (hrest : Ends (· != '<') rest) (limit : Nat) :
    Tag.startTag? limit element (c :: s ++ rest) = none := by
  rw [Tag.startTag?, ← opening]
  cases hafter : afterText (opening element) (c :: s ++ rest) with
  | none => rfl
  | some after =>
    obtain ⟨after', hwithin, rfl⟩ := opening_within hname hrest (afterText_eq_some_iff.1 hafter)
    have hgoes := (plain_cons.1 h).1 after' (afterText_eq_some_iff.2 hwithin)
    have hbreak := hgoes.atTagBreak rest
    simp [hbreak]

/-- Text without tags is passed over. -/
theorem Plain.startTags {s rest : List Char} (h : Plain element s) (hname : '<' ∉ element.toList)
    (hrest : Ends (· != '<') rest) {limit : Nat} (hlimit : (s ++ rest).length ≤ limit) :
    Tag.startTags element limit (s ++ rest) =
      Tag.startTags element (limit - s.length) rest := by
  induction s generalizing limit with
  | nil => simp
  | cons c s ih =>
    simp only [List.cons_append, List.length_cons] at hlimit
    obtain ⟨left, rfl⟩ : ∃ left, limit = left + 1 := Nat.exists_eq_add_one.2 (by omega)
    rw [List.cons_append, Tag.startTags, ← List.cons_append, h.startTag? hname hrest,
      List.length_cons, Nat.add_sub_add_right]
    exact ih (plain_cons.1 h).2 (by omega)

theorem TagText.ends {attributes : Attributes} {tag : List Char}
    (h : TagText element attributes tag) (rest : List Char) : Ends (· != '<') (tag ++ rest) := by
  obtain ⟨⟩ := h
  exact (ends_cons _ _ _).2 (by decide)

theorem TagText.length_pos {attributes : Attributes} {tag : List Char}
    (h : TagText element attributes tag) : 0 < tag.length := by
  obtain ⟨⟩ := h
  exact Nat.succ_pos _

/-- A tag is found where it stands, and the search goes on behind it. -/
theorem TagText.startTags {attributes : Attributes} {tag rest : List Char}
    (h : TagText element attributes tag) {limit : Nat} (hlimit : (tag ++ rest).length ≤ limit + 1) :
    Tag.startTags element (limit + 1) (tag ++ rest) =
      attributes :: Tag.startTags element limit rest := by
  have hread := h.startTag? hlimit
  obtain ⟨⟩ := h
  rw [opening, List.cons_append, List.cons_append] at hread ⊢
  rw [Tag.startTags, hread]

/-- The tags of a document are found, and nothing else is. -/
theorem DocumentText.startTags {tags : List Attributes} {s : List Char}
    (h : DocumentText element tags s) (hname : '<' ∉ element.toList) {limit : Nat}
    (hlimit : s.length ≤ limit) : Tag.startTags element limit s = tags := by
  induction h generalizing limit with
  | @text s hplain =>
    have hpassed : Tag.startTags element limit (s ++ []) =
        Tag.startTags element (limit - s.length) [] :=
      hplain.startTags hname (ends_nil _) (by simpa using hlimit)
    rw [List.append_nil] at hpassed
    rw [hpassed]
    cases limit - s.length with
    | zero => rfl
    | succ left => rfl
  | @tag attributes tags s tag rest hplain htag _ ih =>
    -- The search takes a step for every character of the text, and one for the whole tag.
    rw [hplain.startTags hname (htag.ends rest) hlimit]
    have hpos := htag.length_pos
    simp only [List.length_append] at hlimit
    obtain ⟨left, hleft⟩ : ∃ left, limit - s.length = left + 1 :=
      Nat.exists_eq_add_one.2 (by omega)
    rw [hleft, htag.startTags (by rw [List.length_append]; omega), ih (by omega)]

end Documents

end Tag

end SerpentCsg
