import SerpentCsg.Proofs.Card.Names

/-! # Lattice Cards as They Are Written

  A lattice card is the keyword, its name, the number of its type and further words, with gaps
  between them. The first of the words are the header, the others are the names of universes. A
  card that is written so

  - is read back with all of its words,
  - starts a lattice card in a deck, and
  - waits for as many names as its header asks for and the card does not have yet.
-/

namespace SerpentCsg.Card

open Text

/-! ### Lists of words -/

/-- A text that lists words, each of them behind a gap. -/
inductive Lists : List Char → List String → Prop where
  | nil : Lists [] []
  | cons {gap rest : List Char} {word : String} {words : List String} :
      Gap gap → Solid word.toList → Lists rest words →
      Lists (gap ++ (word.toList ++ rest)) (word :: words)

/-- Words with one space in front of each are a list of words. -/
theorem lists_spaced {chosen : List String} {s : List Char}
    (hs : s = chosen.flatMap fun word => ' ' :: word.toList)
    (hchosen : ∀ word ∈ chosen, Solid word.toList) :
    Lists s chosen := by
  subst hs
  induction chosen with
  | nil => exact .nil
  | cons word chosen ih =>
    obtain ⟨hword, hrest⟩ := List.forall_mem_cons.1 hchosen
    exact .cons gap_space hword (ih hrest)

namespace Lists

variable {s t : List Char} {chosen others : List String}

theorem append (h : Lists s chosen) (h' : Lists t others) : Lists (s ++ t) (chosen ++ others) := by
  induction h with
  | nil => exact h'
  | cons hgap hword _ ih =>
    rw [List.append_assoc, List.append_assoc]
    exact .cons hgap hword ih

/-- The text starts with a gap, if it is not empty. -/
theorem ends (h : Lists s chosen) {p : Char → Bool} (hp : ∀ c, isGap c = true → p c = false) :
    Ends p s := by
  cases h with
  | nil => exact ends_nil p
  | cons hgap _ _ => exact hgap.ends hp _

/-- The text does not start with anything but white space. -/
theorem ends_solid (h : Lists s chosen) : Ends (!isWhite ·) s :=
  h.ends fun c hc => by simp [isWhite_of_isGap hc]

/-- The text does not end with white space. -/
theorem ends_reverse (h : Lists s chosen) : Ends isWhite s.reverse := by
  induction h with
  | nil => exact ends_nil _
  | cons hgap hword _ ih =>
    rw [List.reverse_append, List.reverse_append, List.append_assoc]
    exact ih.append fun _ => hword.reverse.ends _

/-- White space separates the words of the list. -/
theorem words_eq (h : Lists s chosen) : words s = chosen.map String.toList := by
  induction h with
  | nil => rfl
  | cons hgap hword hrest ih =>
    have hwhite := fun c hc => isWhite_of_isGap (hgap.2 c hc)
    rw [words_append_of_white hwhite, words_append_of_solid hword hrest.ends_solid, ih,
      List.map_cons]

end Lists

/-! ### Reading the words -/

theorem takes_nextWord : Takes nextWord := by
  intro s word rest h
  simp only [nextWord, afterGap, Option.bind_eq_bind, Option.bind_eq_some_iff,
    Option.map_eq_some_iff, Option.pure_def, Option.some.injEq, Prod.mk.injEq] at h
  obtain ⟨_, ⟨⟨gap, left⟩, hgap, rfl⟩, ⟨solid, left'⟩, hsolid, -, rfl⟩ := h
  -- The gap may be as short as it likes, since the word alone makes the rest shorter.
  obtain ⟨rfl, -, -, -⟩ := run_eq_some_iff.1 hgap
  obtain ⟨hleft, hne, -, -⟩ := run_eq_some_iff.1 hsolid
  obtain rfl : left = solid ++ left' := hleft
  have hpos := List.length_pos_iff.2 hne
  simp only [List.length_append]
  omega

theorem nextWord_append {gap rest : List Char} {word : String} (hgap : Gap gap)
    (hword : Solid word.toList) (hrest : Ends (!isWhite ·) rest) :
    nextWord (gap ++ (word.toList ++ rest)) = some (word, rest) := by
  have hrun : run (!isWhite ·) (word.toList ++ rest) = some (word.toList, rest) :=
    run_eq_some_iff.2 ⟨rfl, hword.1, fun c hc => by simp [hword.2 c hc], hrest⟩
  simp [nextWord, afterGap_append hgap (hword.ends_isGap rest), hrun]

/-- All words of the list are read, and nothing is left of it. -/
theorem Lists.many_nextWord {s : List Char} {chosen : List String} (h : Lists s chosen) :
    many nextWord s = (chosen, []) := by
  rw [many_eq_iff takes_nextWord]
  induction h with
  | nil => exact .stop rfl
  | cons hgap hword hrest ih => exact .next (nextWord_append hgap hword hrest.ends_solid) ih

/-! ### Whole cards -/

/-- How a lattice card is written. -/
inductive Written : LatticeCard → List Char → Prop where
  | lattice {name : String} {type : Nat} {args : List String}
      {gap gap' digits rest : List Char} :
      Gap gap → IsName name → Gap gap' → boundedDigits? max8 digits = some type →
      Lists rest args →
      Written ⟨name, type, args⟩
        ("lat".toList ++ (gap ++ (name.toList ++ (gap' ++ (digits ++ rest)))))

theorem solid_lat : Solid "lat".toList := by decide

namespace Written

variable {card : LatticeCard} {text s : List Char} {names : List String}

/-- A card goes on with more words. -/
theorem append (h : Written card text) (hs : Lists s names) :
    Written { card with args := card.args ++ names } (text ++ s) := by
  cases h with
  | lattice hgap hname hgap' htype hargs =>
    simp only [List.append_assoc]
    exact .lattice hgap hname hgap' htype (hargs.append hs)

theorem readLattice_eq (h : Written card text) : readLattice text = some card := by
  cases h with
  | @lattice n type args gap gap' digits rest hgap hname hgap' htype hargs =>
    obtain ⟨hne, hdigits, -, -⟩ := boundedDigits?_eq_some_iff.1 htype
    -- Each part ends where the next one starts, so each reader takes exactly its part.
    have hkeyword := afterKeyword_append "lat" hgap
      (hname.solid.ends_isGap (gap' ++ (digits ++ rest)))
    have hnamed : name (n.toList ++ (gap' ++ (digits ++ rest))) =
        some (n, gap' ++ (digits ++ rest)) :=
      name_eq_some_iff.2 ⟨hname, rfl, hgap'.ends (fun _ => not_isNameChar_of_isGap) _⟩
    have hgapped := afterGap_append hgap' ((solid_of_isDigit hne hdigits).ends_isGap rest)
    have hrun : run isDigit (digits ++ rest) = some (digits, rest) :=
      run_eq_some_iff.2 ⟨rfl, hne, hdigits, hargs.ends fun _ => not_isDigit_of_isGap⟩
    rw [readLattice, hkeyword]
    simp [hnamed, hgapped, hrun, htype, hargs.many_nextWord, ending, onlyGap]

/-- The card has no white space at either end. -/
theorem ends (h : Written card text) : Ends isWhite text ∧ Ends isWhite text.reverse := by
  cases h with
  | lattice hgap hname hgap' htype hargs =>
    obtain ⟨hne, hdigits, -, -⟩ := boundedDigits?_eq_some_iff.1 htype
    refine ⟨solid_lat.ends _, ?_⟩
    simp only [List.reverse_append, List.append_assoc]
    exact hargs.ends_reverse.append fun _ => (solid_of_isDigit hne hdigits).reverse.ends _

theorem kindOf_eq (h : Written card text) : kindOf text = .lattice := by
  cases h with
  | @lattice n type args gap gap' digits rest hgap hname hgap' htype hargs =>
    have hlattice := congrArg Option.isSome (afterKeyword_append "lat" hgap
      (hname.solid.ends_isGap (gap' ++ (digits ++ rest))))
    have hsurface : ∀ rest, startsSurface ("lat".toList ++ rest) = false := fun _ => rfl
    have hcell : ∀ rest, startsCell ("lat".toList ++ rest) = false := fun _ => rfl
    rw [kindOf, hsurface, hcell, startsLattice, hlattice]
    rfl

/-- A lattice card is no list of names, as it starts with a keyword. -/
theorem continuesLattice_eq (h : Written card text) : continuesLattice text = false := by
  cases h with
  | @lattice n type args gap gap' digits rest hgap hname hgap' htype hargs =>
    have hwords := words_append_of_solid solid_lat
      (hgap.ends (fun c hc => by simp [isWhite_of_isGap hc]) (n.toList ++ (gap' ++ (digits ++ rest))))
    rw [continuesLattice, hwords]
    rfl

end Written

/-! ### Headers -/

/-- The words in front of the names, for a lattice of so many columns and rows in one layer. -/
inductive IsHeader : Nat → List String → Nat → Nat → Prop where
  | square {type columns rows : Nat} {x y nx ny pitch : String} :
      type = 1 ∨ type = 6 → natural? max64 nx.toList = some columns →
      natural? max64 ny.toList = some rows →
      IsHeader type [x, y, nx, ny, pitch] columns rows
  | cuboidal {columns rows : Nat} {x y z nx ny nz px py pz : String} :
      natural? max64 nx.toList = some columns → natural? max64 ny.toList = some rows →
      natural? max64 nz.toList = some 1 →
      IsHeader 11 [x, y, z, nx, ny, nz, px, py, pz] columns rows

namespace IsHeader

variable {type columns rows : Nat} {header : List String}

theorem headerLength?_eq (h : IsHeader type header columns rows) :
    headerLength? type = some header.length := by
  cases h with
  | square htype _ _ => rcases htype with rfl | rfl <;> rfl
  | cuboidal _ _ _ => rfl

theorem elementCount?_eq (h : IsHeader type header columns rows) (hle : columns * rows ≤ max64)
    (name : String) (names : List String) :
    elementCount? ⟨name, type, header ++ names⟩ = some (columns * rows) := by
  cases h with
  | square htype hcolumns hrows =>
    have hone := le_of_natural? hcolumns
    rcases htype with rfl | rfl <;>
      simp [elementCount?, countPlaces, boundedProduct, hcolumns, hrows, hone, hle]
  | cuboidal hcolumns hrows hlayers =>
    have hone := le_of_natural? hcolumns
    simp [elementCount?, countPlaces, boundedProduct, hcolumns, hrows, hlayers, hone, hle]

end IsHeader

/-- A card waits for as many names as its header asks for and it does not have. -/
theorem missingNames_eq {type columns rows : Nat} {name : String} {header seen : List String}
    {text : List Char} (hheader : IsHeader type header columns rows)
    (hle : header.length + columns * rows ≤ max64)
    (h : Written ⟨name, type, header ++ seen⟩ text) :
    missingNames text = columns * rows - seen.length := by
  have hcount := hheader.elementCount?_eq (by omega) name seen
  have hle' : columns * rows + header.length ≤ max64 := by omega
  simp [missingNames, h.readLattice_eq, hheader.headerLength?_eq, hcount, hle']
  omega

end SerpentCsg.Card
