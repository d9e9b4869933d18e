import SerpentCsg.Proofs.Card.Lattices
import SerpentCsg.Proofs.Draft.Contents
import SerpentCsg.Proofs.Exact.Rational
import SerpentCsg.Proofs.Fallible
import SerpentCsg.Proofs.Output.Elements

/-! # Lattices from Their Cards to the Document

  A lattice card lists universes from the top row down. The lattice stores its rows from the bottom
  up, and the document lists them from the top row down again. What both are compared with is the
  list of names on the card: `Arranges` says that a lattice has these names in rows of equal
  length, and from that alone it follows

  - which name every element has, and
  - which numbers the document lists, and in which rows.
-/

namespace SerpentCsg

open Card (IsHeader LatticeCard)
open Text (max64 natural?)

variable {K : Type}

/-! ### Rows of equal length -/

/-- In rows of equal length, each element has its place in the list of all elements. -/
theorem getElem?_flatten_of_length {α : Type} {n : Nat} {rows : List (List α)}
    (h : ∀ row ∈ rows, row.length = n) {c : Nat} (hc : c < n) (r : Nat) :
    (rows[r]?.bind fun row => row[c]?) = rows.flatten[r * n + c]? := by
  induction rows generalizing r with
  | nil => rfl
  | cons row rows ih =>
    obtain ⟨hrow, hrows⟩ := List.forall_mem_cons.1 h
    rw [List.flatten_cons]
    cases r with
    | zero =>
      rw [Nat.zero_mul, Nat.zero_add, List.getElem?_append_left (by omega)]
      rfl
    | succ r =>
      -- The place is behind the first row, and as far behind it as in the rows that follow.
      have hplace : (r + 1) * n + c = row.length + (r * n + c) := by
        rw [hrow, Nat.succ_mul]
        omega
      rw [hplace, List.getElem?_append_right (Nat.le_add_right _ _), Nat.add_sub_cancel_left,
        List.getElem?_cons_succ]
      exact ih hrows r

theorem LatticeKind.ofCode?_eq_some {type : Nat} {kind : LatticeKind}
    (h : LatticeKind.ofCode? type = some kind) : type = kind.code := by
  unfold LatticeKind.ofCode? at h
  split at h
  case h_4 => simp at h
  all_goals
    obtain rfl := Option.some.inj h
    rfl

namespace Lattice

theorem length_cut {α : Type} (columns rows : Nat) (names : List α) :
    (cut columns rows names).length = rows := by
  induction rows generalizing names with
  | zero => rfl
  | succ rows ih => rw [cut, List.length_cons, ih]

/-- A list of as many names as there are elements is cut into rows of equal length. -/
theorem length_of_mem_cut {α : Type} {columns rows : Nat} {names : List α}
    (h : names.length = columns * rows) : ∀ row ∈ cut columns rows names, row.length = columns := by
  induction rows generalizing names with
  | zero => exact fun row hrow => absurd hrow List.not_mem_nil
  | succ rows ih =>
    rw [Nat.mul_succ] at h
    rw [cut, List.forall_mem_cons]
    refine ⟨?_, ih ?_⟩
    · rw [List.length_take]
      omega
    · rw [List.length_drop]
      omega

theorem flatten_cut {α : Type} {columns rows : Nat} {names : List α}
    (h : names.length = columns * rows) : (cut columns rows names).flatten = names := by
  induction rows generalizing names with
  | zero => exact (List.length_eq_zero_iff.1 h).symm
  | succ rows ih =>
    rw [Nat.mul_succ] at h
    have hrest : (names.drop columns).length = columns * rows := by
      rw [List.length_drop]
      omega
    rw [cut, List.flatten_cons, ih hrest, List.take_append_drop]

/-! ### Names in their elements -/

/-- The lattice has the names in its elements: read from the top row down, its rows are the list of
    names. -/
structure Arranges (l : Lattice K) (names : List String) : Prop where
  rows : l.universes.length = l.rows
  columns : ∀ row ∈ l.universes, row.length = l.columns
  names : l.universes.reverse.flatten = names

section Arranges

variable {l : Lattice K} {names : List String} (h : l.Arranges names)

include h

/-- The rows are counted from the bottom, so the last row on the card is the first one. -/
theorem Arranges.universe?_eq {column row : Nat} (hcolumn : column < l.columns)
    (hrow : row < l.rows) :
    l.universe? ⟨column, row⟩ = names[(l.rows - 1 - row) * l.columns + column]? := by
  -- Only the rows are turned around; within a row the columns stay.
  have hreverse : l.universes[row]? = l.universes.reverse[l.rows - 1 - row]? := by
    rw [List.getElem?_reverse (by rw [h.rows]; omega), h.rows]
    congr 1
    omega
  have hcolumns : ∀ row ∈ l.universes.reverse, row.length = l.columns := fun row hmem =>
    h.columns row (List.mem_reverse.1 hmem)
  rw [universe?, hreverse, getElem?_flatten_of_length hcolumns hcolumn, h.names]

/-- Every element has a universe, which is one of those that the lattice refers to. -/
theorem Arranges.exists_universe {column row : Nat} (hcolumn : column < l.columns)
    (hrow : row < l.rows) : ∃ name, l.universe? ⟨column, row⟩ = some name ∧ name ∈ l.names := by
  have hlt : row < l.universes.length := by
    rwa [h.rows]
  have hlt' : column < l.universes[row].length := by
    rwa [h.columns _ (List.getElem_mem hlt)]
  refine ⟨l.universes[row][column], ?_, ?_⟩
  · rw [universe?, List.getElem?_eq_getElem hlt, Option.bind_some, List.getElem?_eq_getElem hlt']
  · exact List.mem_flatten.2 ⟨_, List.getElem_mem hlt, List.getElem_mem hlt'⟩

end Arranges

variable [Scalar K]

theorem arranges_ofHeader {h : Header K} {names : List String}
    (hcount : names.length = h.columns * h.rows) : (ofHeader h names).Arranges names where
  rows := (List.length_reverse).trans (length_cut h.columns h.rows names)
  columns := fun row hrow => length_of_mem_cut hcount row (List.mem_reverse.1 hrow)
  names := by
    show (cut h.columns h.rows names).reverse.reverse.flatten = names
    rw [List.reverse_reverse, flatten_cut hcount]

/-! ### Headers of cards -/

/-- What is read off the header of a card: its first words are a header, and neither count is
    zero. -/
structure HeaderOf (card : LatticeCard) (h : Header K) : Prop where
  words : IsHeader card.type (card.args.take h.length) h.columns h.rows
  columns_pos : 0 < h.columns
  rows_pos : 0 < h.rows

theorem count_eq_ok {card : LatticeCard} {place n : Nat} (h : count card place = .ok n) :
    natural? max64 (word card place).toList = some n ∧ 0 < n := by
  unfold count at h
  split at h
  · next m hread =>
    obtain rfl := Except.ok.inj h
    exact ⟨hread, Nat.succ_pos m⟩
  · exact absurd h (by simp)

theorem squareHeader_eq_ok {card : LatticeCard} {kind : LatticeKind} {centre : Vec2 K}
    {h : Header K} (htype : card.type = 1 ∨ card.type = 6) (hlong : 5 ≤ card.args.length)
    (hread : squareHeader card kind centre = .ok h) : HeaderOf card h := by
  simp only [squareHeader, bind_eq_ok_iff, pure, Except.pure, Except.ok.injEq] at hread
  obtain ⟨p, -, columns, hcolumns, rows, hrows, rfl⟩ := hread
  obtain ⟨hcolumns, hcolumnsPos⟩ := count_eq_ok hcolumns
  obtain ⟨hrows, hrowsPos⟩ := count_eq_ok hrows
  refine ⟨?_, hcolumnsPos, hrowsPos⟩
  -- The header takes five words, and there are as many.
  rcases hargs : card.args with _ | ⟨x, _ | ⟨y, _ | ⟨nx, _ | ⟨ny, _ | ⟨pitch, names⟩⟩⟩⟩⟩
  case cons.cons.cons.cons.cons =>
    rw [word, hargs] at hcolumns hrows
    exact .square htype hcolumns hrows
  all_goals
    rw [hargs] at hlong
    simp at hlong

theorem cuboidalHeader_eq_ok {card : LatticeCard} {centre : Vec2 K} {h : Header K}
    (htype : card.type = 11) (hlong : 9 ≤ card.args.length)
    (hread : cuboidalHeader card centre = .ok h) : HeaderOf card h := by
  simp only [cuboidalHeader, bind_eq_ok_iff] at hread
  obtain ⟨layers, hlayers, hread⟩ := hread
  split at hread
  · simp [throw, throwThe, MonadExceptOf.throw, bind, Except.bind] at hread
  · next hone =>
    simp only [bind_eq_ok_iff, pure, Except.pure, Except.ok.injEq] at hread
    obtain ⟨columns, hcolumns, rows, hrows, px, -, py, -, rfl⟩ := hread
    obtain ⟨hcolumns, hcolumnsPos⟩ := count_eq_ok hcolumns
    obtain ⟨hrows, hrowsPos⟩ := count_eq_ok hrows
    have hlayers := (count_eq_ok hlayers).1
    obtain rfl : layers = 1 := not_not.1 hone
    refine ⟨?_, hcolumnsPos, hrowsPos⟩
    rw [htype]
    rcases hargs : card.args with _ | ⟨x, _ | ⟨y, _ | ⟨z, _ | ⟨nx, _ | ⟨ny, _ | ⟨nz, rest⟩⟩⟩⟩⟩⟩
    case cons.cons.cons.cons.cons.cons =>
      rcases rest with _ | ⟨px, _ | ⟨py, _ | ⟨pz, names⟩⟩⟩
      case cons.cons.cons =>
        rw [word, hargs] at hcolumns hrows hlayers
        exact .cuboidal hcolumns hrows hlayers
      all_goals
        rw [hargs] at hlong
        simp at hlong
    all_goals
      rw [hargs] at hlong
      simp at hlong

theorem header_eq_ok {card : LatticeCard} {h : Header K} (hread : header card = .ok h) :
    HeaderOf card h := by
  unfold header at hread
  split at hread
  · next kind length hkind hlength =>
    split at hread
    · simp at hread
    · next hlong =>
      simp only [bind_eq_ok_iff] at hread
      obtain ⟨x, -, y, -, hcounts⟩ := hread
      cases kind with
      | square =>
        have htype : card.type = 1 := LatticeKind.ofCode?_eq_some hkind
        rw [htype] at hlength
        obtain rfl : 5 = length := Option.some.inj hlength
        exact squareHeader_eq_ok (.inl htype) (Nat.le_of_not_lt hlong) hcounts
      | squareInfinite =>
        have htype : card.type = 6 := LatticeKind.ofCode?_eq_some hkind
        rw [htype] at hlength
        obtain rfl : 5 = length := Option.some.inj hlength
        exact squareHeader_eq_ok (.inr htype) (Nat.le_of_not_lt hlong) hcounts
      | cuboidal =>
        have htype : card.type = 11 := LatticeKind.ofCode?_eq_some hkind
        rw [htype] at hlength
        obtain rfl : 9 = length := Option.some.inj hlength
        exact cuboidalHeader_eq_ok htype (Nat.le_of_not_lt hlong) hcounts
  · simp at hread

/-- An accepted card has as many names behind its header as the header asks for, and their number
    fits 64 bits. The lattice arranges these names. -/
theorem ofCard_eq_ok {card : LatticeCard} {l : Lattice K} (h : ofCard card = .ok l) :
    ∃ header names : List String, card.args = header ++ names ∧
      IsHeader card.type header l.columns l.rows ∧ 0 < l.columns ∧ 0 < l.rows ∧
      names.length = l.columns * l.rows ∧ l.columns * l.rows ≤ max64 ∧ l.Arranges names := by
  unfold ofCard at h
  split at h
  · simp at h
  · next read hread =>
    obtain ⟨hwords, hcolumns, hrows⟩ := header_eq_ok hread
    dsimp only at h
    split_ifs at h with hpitch hsize hcount
    obtain rfl := Except.ok.inj h
    have hcount := not_not.1 hcount
    exact ⟨card.args.take read.length, card.args.drop read.length, (List.take_append_drop _ _).symm,
      hwords, hcolumns, hrows, hcount, Nat.le_of_not_lt hsize, arranges_ofHeader hcount⟩

end Lattice

/-! ### Names in the document -/

namespace Output

/-- If a universe of the name is declared, it has the number. -/
def NumberOf (g : Geometry K) (name : String) (n : Nat) : Prop :=
  ∀ u, g.universes.find? name = some u → u.id = n

theorem numberOf_universeNumber (g : Geometry K) (name : String) :
    NumberOf g name (universeNumber g name) := by
  intro u hu
  simp only [universeNumber, hu]

/-- The rows of the document are the list of names in rows of equal length. -/
theorem latticeNumbers_of_arranges (g : Geometry K) {l : Lattice K} {names : List String}
    (h : l.Arranges names) :
    (latticeNumbers g l).flatten = names.map (universeNumber g) ∧
      (latticeNumbers g l).length = l.rows ∧
      ∀ row ∈ latticeNumbers g l, row.length = l.columns := by
  refine ⟨?_, ?_, fun row hrow => ?_⟩
  · rw [latticeNumbers, ← List.map_flatten, h.names]
  · rw [latticeNumbers, List.length_map, List.length_reverse, h.rows]
  · obtain ⟨listed, hlisted, rfl⟩ := List.mem_map.1 hrow
    rw [List.length_map, h.columns listed (List.mem_reverse.1 hlisted)]

end Output

/-! ### Accepted cards -/

namespace Draft

open Output

variable [Scalar K]

/-- A lattice card that is accepted has exactly as many names as its header asks for, and their
    number fits 64 bits. In the lattice that is then on the universe of the card, the rows stand
    from the bottom up, and each element has the name at its place on the card, which is that of a
    universe. In the element of the lattice, every name is written as its number in the order of the
    card, row by row. -/
theorem addLatticeCard_arranges {d : Draft K} {text : String}
    (h : (d.addLatticeCard text).fault = none) :
    ∃ (card : LatticeCard) (header names : List String) (l : Lattice K),
      Card.readLattice text.toList = some card ∧ card.args = header ++ names ∧
      IsHeader card.type header l.columns l.rows ∧ 0 < l.columns ∧ 0 < l.rows ∧
      names.length = l.columns * l.rows ∧ l.columns * l.rows ≤ max64 ∧
      (d.addLatticeCard text).draft.geometry.lattice? card.name = some l ∧
      l.universes.length = l.rows ∧ (∀ row ∈ l.universes, row.length = l.columns) ∧
      (∀ column row, column < l.columns → row < l.rows → ∃ name,
        l.universe? ⟨column, row⟩ = some name ∧
        names[(l.rows - 1 - row) * l.columns + column]? = some name ∧
        (d.addLatticeCard text).draft.universes.contains name = true) ∧
      ∀ (g : Geometry K) (u : Universe K), ∃ tag : LatticeTag K,
        latticeElement g u l = tag.text ∧
        List.Forall₂ (NumberOf g) names tag.universes.flatten ∧
        tag.universes.length = l.rows ∧ ∀ row ∈ tag.universes, row.length = l.columns := by
  obtain ⟨card, l, hread, hcard, hadded⟩ := addLatticeCard_added h
  obtain ⟨header, names, hargs, hheader, hcolumns, hrows, hcount, hfits, harranges⟩ :=
    Lattice.ofCard_eq_ok hcard
  have hstored : (d.addLatticeCard text).draft.geometry.lattice? card.name = some l := by
    rw [hadded.lattice?, if_pos rfl]
  refine ⟨card, header, names, l, hread, hargs, hheader, hcolumns, hrows, hcount, hfits, hstored,
    harranges.rows, harranges.columns, ?_, ?_⟩
  · intro column row hcolumn hrow
    obtain ⟨name, hname, hlisted⟩ := harranges.exists_universe hcolumn hrow
    refine ⟨name, hname, ?_, (hadded.contains name).2 (.inr (.inr hlisted))⟩
    rw [← harranges.universe?_eq hcolumn hrow, hname]
  · intro g u
    obtain ⟨hlisted, hlength, hlengths⟩ := latticeNumbers_of_arranges g harranges
    refine ⟨latticeTag g u l, latticeElement_eq g u l, ?_, hlength, hlengths⟩
    show List.Forall₂ (NumberOf g) names (latticeNumbers g l).flatten
    rw [hlisted, List.forall₂_map_right_iff, List.forall₂_same]
    exact fun name _ => numberOf_universeNumber g name

/-- Three elements side by side, in two rows. -/
def twoRows : String := "lat 9 1 0 0 3 2 10 11 12 13 14 15 16"

/-- The last name on the card is that of the right element of the lower row, and the last number in
    the document. -/
theorem addLatticeCard_arranges_twoRows :
    ((new .empty : Draft Rat).addLatticeCard twoRows).fault = none ∧
      (∃ l : Lattice Rat,
        ((new .empty).addLatticeCard twoRows).draft.geometry.lattice? "9" = some l ∧
        l.universe? ⟨2, 0⟩ = some "16" ∧ l.universe? ⟨0, 1⟩ = some "11") ∧
      let g := ((new .empty : Draft Rat).addLatticeCard twoRows).draft.geometry
      (g.universes.find? "9").map (universeElement g) = some
        ("  <lattice id=\"9\" name=\"9\">\n" ++
          "    <pitch>10 10</pitch>\n" ++
          "    <dimension>3 2</dimension>\n" ++
          "    <lower_left>-15 -10</lower_left>\n" ++
          "    <universes>\n11 12 13\n14 15 16\n    </universes>\n" ++
          "  </lattice>\n") := by
  have hdone : ((new .empty : Draft Rat).addLatticeCard twoRows).fault = none := by
    decide +kernel
  have hsize : (((new .empty : Draft Rat).addLatticeCard twoRows).draft.geometry.lattice?
      "9").map (fun l => (l.columns, l.rows)) = some (3, 2) := by
    decide +kernel
  have hcard : Card.readLattice twoRows.toList =
      some ⟨"9", 1, ["0", "0", "3", "2", "10", "11", "12", "13", "14", "15", "16"]⟩ := by
    decide
  refine ⟨hdone, ?_, by decide +kernel⟩
  obtain ⟨card, header, names, l, hread, hargs, -, -, -, hcount, -, hstored, -, -, helement, -⟩ :=
    addLatticeCard_arranges hdone
  obtain rfl := Option.some.inj (hcard.symm.trans hread)
  rw [hstored, Option.map_some, Option.some.injEq, Prod.mk.injEq] at hsize
  obtain ⟨hcolumns, hrows⟩ := hsize
  rw [hcolumns, hrows] at hcount helement
  -- Six of the words are names, so the header are the other five.
  have hheader : header.length = 5 := by
    have hlength := congrArg List.length hargs
    simp only [List.length_append, List.length_cons, List.length_nil] at hlength
    omega
  obtain rfl : ["11", "12", "13", "14", "15", "16"] = names := by
    have hdrop := congrArg (List.drop header.length) hargs
    rw [List.drop_left, hheader] at hdrop
    exact hdrop
  obtain ⟨right, hright, hlast, -⟩ := helement 2 0 (by decide) (by decide)
  obtain ⟨left, hleft, hfirst, -⟩ := helement 0 1 (by decide) (by decide)
  obtain rfl : "16" = right := Option.some.inj hlast
  obtain rfl : "11" = left := Option.some.inj hfirst
  exact ⟨l, hstored, hright, hleft⟩

end Draft

end SerpentCsg
