import SerpentCsg.Proofs.Region.RoundTrip

/-! # Derivations of Region Expressions

  The derivations of the grammar of region expressions, as trees:

      union        = intersection ('|' intersection)*
      intersection = operand ('&'? operand)*
      operand      = '~' operand | number | '(' union ')'

  A derivation has the tokens that it derives and the region that it stands for. No two derivations
  derive the same tokens, and a text spells its tokens in one way, so a text that can be read
  has exactly one derivation, and what is read is the region of that derivation.
-/

namespace SerpentCsg.Region

mutual

/-- A derivation of an operand. -/
inductive OperandTree where
  | number (h : Halfspace)
  | complement (part : OperandTree)
  | group (inner : UnionTree)

/-- A derivation of operands side by side. -/
inductive IntersectionTree where
  | single (part : OperandTree)
  | beside (part : OperandTree) (others : IntersectionTree)
  | ampersand (part : OperandTree) (others : IntersectionTree)

/-- A derivation of intersections between bars. -/
inductive UnionTree where
  | single (part : IntersectionTree)
  | bar (part : IntersectionTree) (others : UnionTree)

end

/-! ### What a derivation derives -/

mutual

/-- The tokens of an operand. -/
def OperandTree.tokens : OperandTree → List Token
  | .number h => [.number h]
  | .complement part => .tilde :: part.tokens
  | .group inner => .opening :: (inner.tokens ++ [.closing])

/-- The tokens of an intersection. -/
def IntersectionTree.tokens : IntersectionTree → List Token
  | .single part => part.tokens
  | .beside part others => part.tokens ++ others.tokens
  | .ampersand part others => part.tokens ++ .ampersand :: others.tokens

/-- The tokens of a union. -/
def UnionTree.tokens : UnionTree → List Token
  | .single part => part.tokens
  | .bar part others => part.tokens ++ .bar :: others.tokens

end

mutual

/-- The region of an operand. A group is the region within it. -/
def OperandTree.region : OperandTree → Region
  | .number h => .halfspace h
  | .complement part => .complement part.region
  | .group inner => combine .union inner.parts

/-- The regions of the operands of an intersection. -/
def IntersectionTree.parts : IntersectionTree → List Region
  | .single part => [part.region]
  | .beside part others | .ampersand part others => part.region :: others.parts

/-- The regions of the intersections of a union, which are combined where there are two operands
    or more. -/
def UnionTree.parts : UnionTree → List Region
  | .single part => [combine .intersection part.parts]
  | .bar part others => combine .intersection part.parts :: others.parts

end

/-- The region of a union, which is a combination where there are two intersections or more. -/
def UnionTree.region (u : UnionTree) : Region := combine .union u.parts

/-! ### Derivations and the grammar -/

mutual

theorem OperandTree.isOperand (d : OperandTree) : IsOperand d.tokens d.region := by
  match d with
  | .number h => exact .number h
  | .complement part => exact .complement part.isOperand
  | .group inner => exact .group inner.isUnion

theorem IntersectionTree.isIntersection (d : IntersectionTree) :
    IsIntersection d.tokens d.parts := by
  match d with
  | .single part => exact .single part.isOperand
  | .beside part others => exact .beside part.isOperand others.isIntersection
  | .ampersand part others => exact .ampersand part.isOperand others.isIntersection

theorem UnionTree.isUnion (d : UnionTree) : IsUnion d.tokens d.parts := by
  match d with
  | .single part => exact .single part.isIntersection
  | .bar part others => exact .bar part.isIntersection others.isUnion

end

mutual

theorem IsOperand.exists_tree {ts : List Token} {r : Region} (h : IsOperand ts r) :
    ∃ d : OperandTree, d.tokens = ts ∧ d.region = r := by
  match h with
  | .number h => exact ⟨.number h, rfl, rfl⟩
  | .complement hpart =>
    obtain ⟨part, rfl, rfl⟩ := hpart.exists_tree
    exact ⟨.complement part, rfl, rfl⟩
  | .group hparts =>
    obtain ⟨inner, rfl, rfl⟩ := hparts.exists_tree
    exact ⟨.group inner, rfl, rfl⟩
termination_by structural h

theorem IsIntersection.exists_tree {ts : List Token} {parts : List Region}
    (h : IsIntersection ts parts) : ∃ d : IntersectionTree, d.tokens = ts ∧ d.parts = parts := by
  match h with
  | .single hpart =>
    obtain ⟨part, rfl, rfl⟩ := hpart.exists_tree
    exact ⟨.single part, rfl, rfl⟩
  | .beside hpart hparts =>
    obtain ⟨part, rfl, rfl⟩ := hpart.exists_tree
    obtain ⟨others, rfl, rfl⟩ := hparts.exists_tree
    exact ⟨.beside part others, rfl, rfl⟩
  | .ampersand hpart hparts =>
    obtain ⟨part, rfl, rfl⟩ := hpart.exists_tree
    obtain ⟨others, rfl, rfl⟩ := hparts.exists_tree
    exact ⟨.ampersand part others, rfl, rfl⟩
termination_by structural h

theorem IsUnion.exists_tree {ts : List Token} {parts : List Region} (h : IsUnion ts parts) :
    ∃ d : UnionTree, d.tokens = ts ∧ d.parts = parts := by
  match h with
  | .single hparts =>
    obtain ⟨part, rfl, rfl⟩ := hparts.exists_tree
    exact ⟨.single part, rfl, rfl⟩
  | .bar hparts hunion =>
    obtain ⟨part, rfl, rfl⟩ := hparts.exists_tree
    obtain ⟨others, rfl, rfl⟩ := hunion.exists_tree
    exact ⟨.bar part others, rfl, rfl⟩
termination_by structural h

end

/-- An expression is what a derivation derives. -/
theorem isExpression_iff {ts : List Token} {r : Region} :
    IsExpression ts r ↔ ∃ d : UnionTree, d.tokens = ts ∧ d.region = r := by
  constructor
  · rintro ⟨parts, hparts, rfl⟩
    obtain ⟨d, rfl, rfl⟩ := hparts.exists_tree
    exact ⟨d, rfl, rfl⟩
  · rintro ⟨d, rfl, rfl⟩
    exact ⟨d.parts, d.isUnion, rfl⟩

/-! ### One derivation -/

/-- No operand starts here. -/
def EndsOperands (ts : List Token) : Prop := ∀ t ∈ ts.head?, t = .closing ∨ t = .bar

/-- No operand and no further intersection starts here. -/
def EndsUnion (ts : List Token) : Prop := ∀ t ∈ ts.head?, t = .closing

theorem EndsUnion.endsOperands {ts : List Token} (h : EndsUnion ts) : EndsOperands ts :=
  fun t ht => .inl (h t ht)

theorem endsUnion_nil : EndsUnion [] := by simp [EndsUnion]

theorem endsOperands_bar (ts : List Token) : EndsOperands (.bar :: ts) := by simp [EndsOperands]

/-- An intersection starts as its first operand does. -/
theorem IntersectionTree.head (d : IntersectionTree) :
    ∃ t us, d.tokens = t :: us ∧ t ≠ .closing ∧ t ≠ .bar ∧ t ≠ .ampersand := by
  cases d with
  | single part => exact part.isOperand.head
  | beside part others | ampersand part others =>
    obtain ⟨t, us, hts, ht⟩ := part.isOperand.head
    simp only [IntersectionTree.tokens, hts, List.cons_append]
    exact ⟨_, _, rfl, ht⟩

/-- No intersection starts where operands end. -/
theorem IntersectionTree.not_endsOperands (d : IntersectionTree) (ts : List Token) :
    ¬ EndsOperands (d.tokens ++ ts) := by
  obtain ⟨t, us, hts, hclosing, hbar, -⟩ := d.head
  rw [hts]
  intro h
  exact (h t rfl).elim hclosing hbar

theorem IntersectionTree.ne_ampersand (d : IntersectionTree) (ts us : List Token) :
    d.tokens ++ ts ≠ .ampersand :: us := by
  obtain ⟨t, vs, hts, -, -, hampersand⟩ := d.head
  rw [hts]
  intro h
  exact hampersand (List.cons.inj h).1

-- By recursion on the first derivation. An operand shows its own end; a sequence goes on for as
-- long as the tokens allow, so each kind needs to know that nothing after it continues it.
mutual

theorem OperandTree.unique (d e : OperandTree) {ts us : List Token}
    (he : d.tokens ++ ts = e.tokens ++ us) : d = e ∧ ts = us := by
  match d, e with
  | .number h, .number h' =>
    obtain ⟨hh, rfl⟩ := List.cons.inj he
    exact ⟨congrArg _ (Token.number.inj hh), rfl⟩
  | .complement part, .complement part' =>
    obtain ⟨rfl, hrest⟩ := part.unique part' (List.cons.inj he).2
    exact ⟨rfl, hrest⟩
  | .group inner, .group inner' =>
    simp only [OperandTree.tokens, List.cons_append, List.append_assoc, List.nil_append,
      List.cons.injEq, true_and] at he
    obtain ⟨rfl, hrest⟩ := inner.unique inner' (by simp [EndsUnion]) (by simp [EndsUnion]) he
    exact ⟨rfl, (List.cons.inj hrest).2⟩
  | .number _, .complement _ | .number _, .group _ | .complement _, .number _
  | .complement _, .group _ | .group _, .number _ | .group _, .complement _ =>
    simp [OperandTree.tokens] at he

theorem IntersectionTree.unique (d e : IntersectionTree) {ts us : List Token}
    (hts : EndsOperands ts) (hus : EndsOperands us)
    (he : d.tokens ++ ts = e.tokens ++ us) : d = e ∧ ts = us := by
  match d, e with
  | .single part, .single part' =>
    obtain ⟨rfl, hrest⟩ := part.unique part' he
    exact ⟨rfl, hrest⟩
  | .beside part others, .beside part' others' =>
    simp only [IntersectionTree.tokens, List.append_assoc] at he
    obtain ⟨rfl, hrest⟩ := part.unique part' he
    obtain ⟨rfl, hend⟩ := others.unique others' hts hus hrest
    exact ⟨rfl, hend⟩
  | .ampersand part others, .ampersand part' others' =>
    simp only [IntersectionTree.tokens, List.append_assoc, List.cons_append] at he
    obtain ⟨rfl, hrest⟩ := part.unique part' he
    obtain ⟨rfl, hend⟩ := others.unique others' hts hus (List.cons.inj hrest).2
    exact ⟨rfl, hend⟩
  | .single part, .beside part' others' =>
    simp only [IntersectionTree.tokens, List.append_assoc] at he
    obtain ⟨-, rfl⟩ := part.unique part' he
    exact absurd hts (others'.not_endsOperands us)
  | .beside part others, .single part' =>
    simp only [IntersectionTree.tokens, List.append_assoc] at he
    obtain ⟨-, rfl⟩ := part.unique part' he
    exact absurd hus (others.not_endsOperands ts)
  | .single part, .ampersand part' others' =>
    simp only [IntersectionTree.tokens, List.append_assoc, List.cons_append] at he
    obtain ⟨-, rfl⟩ := part.unique part' he
    simp [EndsOperands] at hts
  | .ampersand part others, .single part' =>
    simp only [IntersectionTree.tokens, List.append_assoc, List.cons_append] at he
    obtain ⟨-, rfl⟩ := part.unique part' he
    simp [EndsOperands] at hus
  | .beside part others, .ampersand part' others' =>
    simp only [IntersectionTree.tokens, List.append_assoc, List.cons_append] at he
    obtain ⟨-, hrest⟩ := part.unique part' he
    exact absurd hrest (others.ne_ampersand ts _)
  | .ampersand part others, .beside part' others' =>
    simp only [IntersectionTree.tokens, List.append_assoc, List.cons_append] at he
    obtain ⟨-, hrest⟩ := part.unique part' he
    exact absurd hrest.symm (others'.ne_ampersand us _)

theorem UnionTree.unique (d e : UnionTree) {ts us : List Token} (hts : EndsUnion ts)
    (hus : EndsUnion us) (he : d.tokens ++ ts = e.tokens ++ us) : d = e ∧ ts = us := by
  match d, e with
  | .single part, .single part' =>
    obtain ⟨rfl, hrest⟩ := part.unique part' hts.endsOperands hus.endsOperands he
    exact ⟨rfl, hrest⟩
  | .bar part others, .bar part' others' =>
    simp only [UnionTree.tokens, List.append_assoc, List.cons_append] at he
    obtain ⟨rfl, hrest⟩ := part.unique part' (endsOperands_bar _) (endsOperands_bar _) he
    obtain ⟨rfl, hend⟩ := others.unique others' hts hus (List.cons.inj hrest).2
    exact ⟨rfl, hend⟩
  | .single part, .bar part' others' =>
    simp only [UnionTree.tokens, List.append_assoc, List.cons_append] at he
    obtain ⟨-, rfl⟩ := part.unique part' hts.endsOperands (endsOperands_bar _) he
    simp [EndsUnion] at hts
  | .bar part others, .single part' =>
    simp only [UnionTree.tokens, List.append_assoc, List.cons_append] at he
    obtain ⟨-, rfl⟩ := part.unique part' (endsOperands_bar _) hus.endsOperands he
    simp [EndsUnion] at hus

end

/-! ### Derivations of texts -/

/-- The text spells what a derivation derives, with numbers of 32 bits. -/
structure UnionTree.Derives (d : UnionTree) (text : String) : Prop where
  spelled : Spelled text.toList d.tokens
  fits : ∀ t ∈ d.tokens, t.fits = true

/-- A text has one derivation. -/
theorem UnionTree.Derives.unique {d e : UnionTree} {text : String} (h : d.Derives text)
    (h' : e.Derives text) : d = e := by
  have htokens := h.spelled.unique h'.spelled h.fits h'.fits
  exact (d.unique e endsUnion_nil endsUnion_nil (congrArg (· ++ []) htokens)).1

theorem ofExpression_eq_ok_iff_derives {text : String} {r : Region} :
    ofExpression text = .ok r ↔ ∃ d : UnionTree, d.Derives text ∧ r = d.region := by
  rw [ofExpression_eq_ok_iff, read_eq_ok_iff]
  constructor
  · rintro ⟨ts, htokens, hexpression⟩
    obtain ⟨hfits, hspelled⟩ := tokens_lexemes_eq_iff.1 htokens
    obtain ⟨d, rfl, rfl⟩ := isExpression_iff.1 hexpression
    exact ⟨d, ⟨hspelled, hfits⟩, rfl⟩
  · rintro ⟨d, ⟨hspelled, hfits⟩, rfl⟩
    exact ⟨d.tokens, tokens_lexemes_eq_iff.2 ⟨hfits, hspelled⟩, isExpression_iff.2 ⟨d, rfl, rfl⟩⟩

/-- A text is read exactly if it has a derivation. It has only one then, and the region that is
    read is the one of that derivation, in which every combination has two parts or more. -/
theorem ofExpression_derivation (text : String) :
    (∀ r, ofExpression text = .ok r ↔ ∃ d : UnionTree, d.Derives text ∧ r = d.region) ∧
      (∀ d e : UnionTree, d.Derives text → e.Derives text → d = e) ∧
      ∀ r, ofExpression text = .ok r → r.hasParts 2 = true :=
  ⟨fun _ => ofExpression_eq_ok_iff_derives, fun _ _ => UnionTree.Derives.unique,
    fun _ => hasParts_of_ofExpression⟩

end SerpentCsg.Region
