import Mathlib.Algebra.Order.Floor.Ring
import Mathlib.Order.Interval.Set.Defs
import SerpentCsg.Proofs.Draft.Lattices
import SerpentCsg.Proofs.Exact.Linear

/-! # Elements of Lattices

  A lattice cuts the plane into cells of one width along each axis, counted from its lower left
  corner. Over the real numbers, the element that is found for a point is the cell that holds it, and
  the coordinates in the element are measured from the centre of the same cell.

  Along one axis the cell of a distance is the floor of the distance over the pitch. A finite
  lattice has an element there if the floor is a count below the number of elements, a repeated one
  has that of the remainder.
-/

namespace SerpentCsg

open Set (Ico)
open Text (max64)

namespace Lattice

/-! ### Along one axis -/

section Axis

variable {distance pitch : ℝ} {n : Nat} {i : ℤ}

/-- A whole number as a count. -/
theorem toCount_intCast (i : ℤ) : Scalar.toCount (i : ℝ) = min i.toNat max64 := by
  show min ⌊(i : ℝ)⌋₊ max64 = _
  rw [← Int.floor_toNat, Int.floor_intCast]

/-- The remainder of a whole number by a count is that of the division of whole numbers. -/
theorem remainder_intCast (i : ℤ) (n : Nat) :
    Scalar.remainder (i : ℝ) (Scalar.ofCount n) = ((i % n : ℤ) : ℝ) := by
  show (i : ℝ) - |(n : ℝ)| * ⌊(i : ℝ) / |(n : ℝ)|⌋ = _
  rw [Nat.abs_cast, Int.floor_div_natCast, Int.floor_intCast, Int.emod_def]
  push_cast
  rfl

/-- The cell of a distance. -/
theorem floor_div_eq_iff (hpitch : 0 < pitch) :
    ⌊distance / pitch⌋ = i ↔ distance ∈ Ico (i * pitch) ((i + 1) * pitch) := by
  rw [Int.floor_eq_iff, le_div_iff₀ hpitch, div_lt_iff₀ hpitch, Set.mem_Ico]

/-- The cells that are counted together make up an interval. -/
theorem exists_floor_div_iff (distance : ℝ) (n : Nat) (hpitch : 0 < pitch) :
    (∃ k < n, ⌊distance / pitch⌋ = (k : ℤ)) ↔ distance ∈ Ico 0 (n * pitch) := by
  have hlow : 0 ≤ ⌊distance / pitch⌋ ↔ 0 ≤ distance := by
    rw [Int.le_floor, Int.cast_zero, le_div_iff₀ hpitch, zero_mul]
  have hhigh : ⌊distance / pitch⌋ < n ↔ distance < n * pitch := by
    rw [Int.floor_lt, Int.cast_natCast, div_lt_iff₀ hpitch]
  rw [Set.mem_Ico, ← hlow, ← hhigh]
  constructor
  · intro hcell
    obtain ⟨k, hk, heq⟩ := hcell
    omega
  · intro hcell
    exact ⟨⌊distance / pitch⌋.toNat, by omega, by omega⟩

/-- A finite lattice has the elements of the cells that are counted. -/
theorem index?_finite (hn : n ≤ max64) {k : Nat} :
    index? false n distance pitch = some k ↔ k < n ∧ ⌊distance / pitch⌋ = k := by
  have hindex : index? false n distance pitch =
      if (⌊distance / pitch⌋ : ℝ) < 0 ∨ (n : ℝ) ≤ ⌊distance / pitch⌋ then none
      else some (Scalar.toCount (⌊distance / pitch⌋ : ℝ)) := rfl
  rw [hindex, toCount_intCast]
  generalize ⌊distance / pitch⌋ = i
  have hout : ((i : ℝ) < 0 ∨ (n : ℝ) ≤ i) ↔ i < 0 ∨ (n : ℤ) ≤ i := by
    rw [Int.cast_lt_zero]
    norm_cast
  by_cases hi : (i : ℝ) < 0 ∨ (n : ℝ) ≤ i
  · rw [if_pos hi]
    rw [hout] at hi
    constructor
    · intro hnone
      cases hnone
    · intro hcell
      omega
  · rw [if_neg hi, Option.some.injEq]
    rw [hout] at hi
    omega

/-- A repeated lattice has an element everywhere. -/
theorem index?_repeated (hpos : 0 < n) (hn : n ≤ max64) :
    index? true n distance pitch = some (⌊distance / pitch⌋ % n).toNat := by
  have hindex : index? true n distance pitch = some (Scalar.toCount
      (Scalar.remainder (⌊distance / pitch⌋ : ℝ) (Scalar.ofCount n))) := rfl
  rw [hindex, remainder_intCast, toCount_intCast]
  have hlt := Int.emod_lt_of_pos ⌊distance / pitch⌋ (show (0 : ℤ) < n by omega)
  rw [min_eq_left (by omega)]

/-- Coordinates in an element are measured from the centre of the cell. -/
theorem localCoordinate_eq (distance : ℝ) (hpitch : 0 < pitch) :
    localCoordinate distance pitch = distance - (⌊distance / pitch⌋ + 1 / 2) * pitch := by
  show distance - |pitch| * ⌊distance / |pitch|⌋ - Scalar.half * pitch = _
  rw [abs_of_pos hpitch, Scalar.half_eq]
  ring

end Axis

/-! ### Cells of a lattice -/

section Cells

variable (l : Lattice ℝ)

/-- The cell in a column and a row holds a point. Cells are half-open, and go on in all directions
    beyond the elements of the lattice. -/
def CellHolds (i j : ℤ) (p : Vec3 ℝ) : Prop :=
  p.x ∈ Ico (l.lowerLeft.x + i * l.pitch.x) (l.lowerLeft.x + (i + 1) * l.pitch.x) ∧
  p.y ∈ Ico (l.lowerLeft.y + j * l.pitch.y) (l.lowerLeft.y + (j + 1) * l.pitch.y)

/-- Centre of the cell in a column and a row. -/
noncomputable def cellCentre (i j : ℤ) : Vec2 ℝ :=
  ⟨l.lowerLeft.x + (i + Scalar.half) * l.pitch.x, l.lowerLeft.y + (j + Scalar.half) * l.pitch.y⟩

/-- The elements of the lattice together hold a point. -/
def Covers (p : Vec3 ℝ) : Prop :=
  p.x ∈ Ico l.lowerLeft.x (l.lowerLeft.x + l.columns * l.pitch.x) ∧
  p.y ∈ Ico l.lowerLeft.y (l.lowerLeft.y + l.rows * l.pitch.y)

/-- What elements need: they have a width along each axis, there are some, and their number can be
    counted. -/
structure IsProper : Prop where
  pitch_x : 0 < l.pitch.x
  pitch_y : 0 < l.pitch.y
  columns_pos : 0 < l.columns
  rows_pos : 0 < l.rows
  columns_le : l.columns ≤ max64
  rows_le : l.rows ≤ max64

end Cells

/-- The element is that of the cells along both axes. -/
theorem elementAt?_eq_some_iff {K : Type} [Scalar K] {l : Lattice K} {p : Vec3 K} {c r : Nat} :
    l.elementAt? p = some ⟨c, r⟩ ↔
      index? (l.kind == .squareInfinite) l.columns (p.x - l.lowerLeft.x) l.pitch.x = some c ∧
      index? (l.kind == .squareInfinite) l.rows (p.y - l.lowerLeft.y) l.pitch.y = some r := by
  unfold elementAt?
  dsimp only
  cases index? (l.kind == .squareInfinite) l.columns (p.x - l.lowerLeft.x) l.pitch.x <;>
    cases index? (l.kind == .squareInfinite) l.rows (p.y - l.lowerLeft.y) l.pitch.y <;> simp

namespace IsProper

variable {l : Lattice ℝ} (h : l.IsProper) {p : Vec3 ℝ}

include h

theorem cellHolds_iff {i j : ℤ} :
    l.CellHolds i j p ↔ ⌊(p.x - l.lowerLeft.x) / l.pitch.x⌋ = i ∧
      ⌊(p.y - l.lowerLeft.y) / l.pitch.y⌋ = j := by
  rw [floor_div_eq_iff h.pitch_x, floor_div_eq_iff h.pitch_y]
  simp only [CellHolds, Set.mem_Ico, le_sub_iff_add_le', sub_lt_iff_lt_add']

theorem covers_iff :
    l.Covers p ↔ ∃ c < l.columns, ∃ r < l.rows, l.CellHolds c r p := by
  have hcolumn := exists_floor_div_iff (p.x - l.lowerLeft.x) l.columns h.pitch_x
  have hrow := exists_floor_div_iff (p.y - l.lowerLeft.y) l.rows h.pitch_y
  simp only [Set.mem_Ico, sub_nonneg, sub_lt_iff_lt_add'] at hcolumn hrow
  unfold Covers
  rw [Set.mem_Ico, Set.mem_Ico, ← hcolumn, ← hrow]
  constructor
  · intro hcover
    obtain ⟨⟨c, hc, hx⟩, r, hr, hy⟩ := hcover
    exact ⟨c, hc, r, hr, h.cellHolds_iff.2 ⟨hx, hy⟩⟩
  · intro hcover
    obtain ⟨c, hc, r, hr, hcell⟩ := hcover
    obtain ⟨hx, hy⟩ := h.cellHolds_iff.1 hcell
    exact ⟨⟨c, hc, hx⟩, r, hr, hy⟩

/-- Every point is in exactly one cell. -/
theorem exists_cellHolds (p : Vec3 ℝ) :
    ∃ i j, l.CellHolds i j p ∧ ∀ i' j', l.CellHolds i' j' p → i' = i ∧ j' = j := by
  refine ⟨_, _, h.cellHolds_iff.2 ⟨rfl, rfl⟩, ?_⟩
  intro i' j' hcell
  obtain ⟨hi, hj⟩ := h.cellHolds_iff.1 hcell
  exact ⟨hi.symm, hj.symm⟩

/-- A finite lattice has the element of a cell where the cell is. -/
theorem elementAt?_finite (hkind : l.kind ≠ .squareInfinite) {c r : Nat} :
    l.elementAt? p = some ⟨c, r⟩ ↔ c < l.columns ∧ r < l.rows ∧ l.CellHolds c r p := by
  have hrepeated : (l.kind == .squareInfinite) = false := beq_eq_false_iff_ne.2 hkind
  rw [elementAt?_eq_some_iff, hrepeated, index?_finite h.columns_le, index?_finite h.rows_le,
    h.cellHolds_iff, and_and_and_comm, and_assoc]

/-- A finite lattice has no element exactly outside of all of them. -/
theorem elementAt?_eq_none_iff (hkind : l.kind ≠ .squareInfinite) :
    l.elementAt? p = none ↔ ¬ l.Covers p := by
  rw [h.covers_iff, Option.eq_none_iff_forall_ne_some]
  constructor
  · intro hnone hcover
    obtain ⟨c, hc, r, hr, hcell⟩ := hcover
    exact hnone ⟨c, r⟩ ((h.elementAt?_finite hkind).2 ⟨hc, hr, hcell⟩)
  · intro hcover e he
    obtain ⟨hc, hr, hcell⟩ := (h.elementAt?_finite hkind).1 he
    exact hcover ⟨e.column, hc, e.row, hr, hcell⟩

/-- A lattice that is repeated has the element of the cell that holds the point, counted round. -/
theorem elementAt?_repeated (hkind : l.kind = .squareInfinite) {i j : ℤ}
    (hcell : l.CellHolds i j p) :
    l.elementAt? p = some ⟨(i % l.columns).toNat, (j % l.rows).toNat⟩ := by
  obtain ⟨rfl, rfl⟩ := h.cellHolds_iff.1 hcell
  have hrepeated : (l.kind == .squareInfinite) = true := beq_iff_eq.2 hkind
  rw [elementAt?_eq_some_iff, hrepeated, index?_repeated h.columns_pos h.columns_le,
    index?_repeated h.rows_pos h.rows_le]
  exact ⟨rfl, rfl⟩

/-- Coordinates in an element are those from the centre of the cell that holds the point. -/
theorem toLocal_eq {i j : ℤ} (hcell : l.CellHolds i j p) :
    l.toLocal p = ⟨p.x - (l.cellCentre i j).x, p.y - (l.cellCentre i j).y, p.z⟩ := by
  obtain ⟨hi, hj⟩ := h.cellHolds_iff.1 hcell
  have hx := localCoordinate_eq (p.x - l.lowerLeft.x) h.pitch_x
  have hy := localCoordinate_eq (p.y - l.lowerLeft.y) h.pitch_y
  rw [hi] at hx
  rw [hj] at hy
  have hlocal : l.toLocal p = ⟨localCoordinate (p.x - l.lowerLeft.x) l.pitch.x,
      localCoordinate (p.y - l.lowerLeft.y) l.pitch.y, p.z⟩ := rfl
  rw [hlocal, hx, hy]
  simp only [cellCentre, Scalar.half_eq, sub_sub]

/-- Coordinates in an element are less than half a pitch from its centre, or just as far below. -/
theorem toLocal_mem (p : Vec3 ℝ) :
    (l.toLocal p).x ∈ Ico (-(l.pitch.x / 2)) (l.pitch.x / 2) ∧
    (l.toLocal p).y ∈ Ico (-(l.pitch.y / 2)) (l.pitch.y / 2) := by
  obtain ⟨i, j, hcell, -⟩ := h.exists_cellHolds p
  rw [h.toLocal_eq hcell]
  obtain ⟨⟨hleft, hright⟩, hbottom, htop⟩ := hcell
  simp only [cellCentre, Scalar.half_eq, Set.mem_Ico]
  exact ⟨⟨by linarith, by linarith⟩, by linarith, by linarith⟩

end IsProper

/-! ### Lattices of cards -/

section Cards

variable {K : Type} [Scalar K] {card : Card.LatticeCard}

theorem header_kind {h : Header K} (hread : header card = .ok h) : h.kind.code = card.type := by
  unfold header at hread
  split at hread
  · next kind length hkind _ =>
    have htype := LatticeKind.ofCode?_eq_some hkind
    split at hread
    · cases hread
    · simp only [bind_eq_ok_iff] at hread
      obtain ⟨x, -, y, -, hcounts⟩ := hread
      cases kind with
      | square | squareInfinite =>
        simp only [squareHeader, bind_eq_ok_iff, pure, Except.pure, Except.ok.injEq] at hcounts
        obtain ⟨p, -, columns, -, rows, -, rfl⟩ := hcounts
        exact htype.symm
      | cuboidal =>
        simp only [cuboidalHeader, bind_eq_ok_iff] at hcounts
        obtain ⟨layers, -, hcounts⟩ := hcounts
        split at hcounts
        · cases hcounts
        · simp only [bind_eq_ok_iff, pure, Except.pure, Except.ok.injEq] at hcounts
          obtain ⟨columns, -, rows, -, px, -, py, -, rfl⟩ := hcounts
          exact htype.symm
  · cases hread

/-- An accepted card gives a lattice of its type, with elements of positive width. -/
theorem ofCard_kind_pitch {l : Lattice K} (h : ofCard card = .ok l) :
    l.kind.code = card.type ∧ ¬ l.pitch.x ≤ 0 ∧ ¬ l.pitch.y ≤ 0 := by
  unfold ofCard at h
  split at h
  · cases h
  · next read hread =>
    dsimp only at h
    split_ifs at h with hpitch hsize hcount
    obtain rfl := Except.ok.inj h
    exact ⟨header_kind hread, fun hx => hpitch (.inl hx), fun hy => hpitch (.inr hy)⟩

end Cards

theorem isProper_ofCard {card : Card.LatticeCard} {l : Lattice ℝ} (h : ofCard card = .ok l) :
    l.IsProper := by
  obtain ⟨-, hx, hy⟩ := ofCard_kind_pitch h
  obtain ⟨-, -, -, -, hcolumns, hrows, -, hle, -⟩ := ofCard_eq_ok h
  exact {
    pitch_x := not_le.1 hx
    pitch_y := not_le.1 hy
    columns_pos := hcolumns
    rows_pos := hrows
    columns_le := (Nat.le_mul_of_pos_right _ hrows).trans hle
    rows_le := (Nat.le_mul_of_pos_left _ hcolumns).trans hle }

end Lattice

namespace Draft

/-- The lattice of an accepted card finds the element whose half-open cell holds a point, and
    measures the coordinates in it from the centre of that cell. A finite lattice has no element
    exactly where none of its cells is; an infinite one, of type six, goes on with its elements
    counted round. -/
theorem addLatticeCard_locates {d : Draft ℝ} {text : String}
    (h : (d.addLatticeCard text).fault = none) :
    ∃ (card : Card.LatticeCard) (l : Lattice ℝ), Card.readLattice text.toList = some card ∧
      (d.addLatticeCard text).draft.geometry.lattice? card.name = some l ∧
      (card.type ≠ 6 → ∀ p,
        (∀ c r, l.elementAt? p = some ⟨c, r⟩ ↔
          c < l.columns ∧ r < l.rows ∧ l.CellHolds c r p) ∧
        (l.elementAt? p = none ↔ ¬ l.Covers p)) ∧
      ∀ p, ∃ i j, (l.CellHolds i j p ∧ ∀ i' j', l.CellHolds i' j' p → i' = i ∧ j' = j) ∧
        (card.type = 6 →
          l.elementAt? p = some ⟨(i % l.columns).toNat, (j % l.rows).toNat⟩) ∧
        l.toLocal p = ⟨p.x - (l.cellCentre i j).x, p.y - (l.cellCentre i j).y, p.z⟩ ∧
        (l.toLocal p).x ∈ Ico (-(l.pitch.x / 2)) (l.pitch.x / 2) ∧
        (l.toLocal p).y ∈ Ico (-(l.pitch.y / 2)) (l.pitch.y / 2) := by
  obtain ⟨card, l, hread, hcard, hadded⟩ := addLatticeCard_added h
  have hproper := Lattice.isProper_ofCard hcard
  have hkind := (Lattice.ofCard_kind_pitch hcard).1
  refine ⟨card, l, hread, by rw [hadded.lattice?, if_pos rfl], ?_, ?_⟩
  · intro htype p
    have hfinite : l.kind ≠ .squareInfinite := by
      intro hrepeated
      rw [hrepeated] at hkind
      exact htype hkind.symm
    exact ⟨fun c r => hproper.elementAt?_finite hfinite, hproper.elementAt?_eq_none_iff hfinite⟩
  · intro p
    obtain ⟨i, j, hcell, hunique⟩ := hproper.exists_cellHolds p
    refine ⟨i, j, ⟨hcell, hunique⟩, ?_, hproper.toLocal_eq hcell, hproper.toLocal_mem p⟩
    intro htype
    have hrepeated : l.kind = .squareInfinite := by
      cases hl : l.kind with
      | squareInfinite => rfl
      | square | cuboidal =>
        rw [hl, htype] at hkind
        cases hkind
    exact hproper.elementAt?_repeated hrepeated hcell

/-- Two elements of width one side by side, repeated without end. -/
def stripes : Card.LatticeCard := ⟨"L", 6, ["0", "0", "2", "1", "1", "A", "B"]⟩

/-- Their lattice, with its lower left corner at (-1, -1/2). -/
noncomputable def stripesLattice : Lattice ℝ :=
  .ofHeader ⟨.squareInfinite, ⟨0, 0⟩, 2, 1, ⟨1, 1⟩, 5⟩ ["A", "B"]

theorem ofCard_stripes : Lattice.ofCard stripes = .ok stripesLattice := by
  have hzero : Scalar.ofWord? (K := ℝ) "0" = some 0 := by
    have hnumeral : Scalar.ofWord? (K := ℝ) "0" = some (realOfNumeral (.finite false 0 0)) := rfl
    rw [hnumeral, realOfNumeral_whole, Nat.cast_zero]
  have hone : Scalar.ofWord? (K := ℝ) "1" = some 1 := by
    have hnumeral : Scalar.ofWord? (K := ℝ) "1" = some (realOfNumeral (.finite false 1 0)) := rfl
    rw [hnumeral, realOfNumeral_whole, Nat.cast_one]
  have hheader : Lattice.header (K := ℝ) stripes =
      .ok ⟨.squareInfinite, ⟨0, 0⟩, 2, 1, ⟨1, 1⟩, 5⟩ := by
    have hnumber (place : Nat) {x : ℝ}
        (hx : Scalar.ofWord? (Lattice.word stripes place) = some x) :
        Lattice.number stripes place = .ok x := by
      unfold Lattice.number
      rw [hx]
    have hcounts : Lattice.squareHeader (K := ℝ) stripes .squareInfinite ⟨0, 0⟩ =
        .ok ⟨.squareInfinite, ⟨0, 0⟩, 2, 1, ⟨1, 1⟩, 5⟩ := by
      unfold Lattice.squareHeader
      rw [hnumber 4 hone]
      rfl
    show (Lattice.number (K := ℝ) stripes 0 >>= fun x => Lattice.number stripes 1 >>= fun y =>
      Lattice.squareHeader stripes .squareInfinite ⟨x, y⟩) = _
    rw [hnumber 0 hzero, hnumber 1 hzero]
    exact hcounts
  have hpitch : ¬ ((1 : ℝ) ≤ 0 ∨ (1 : ℝ) ≤ 0) := by norm_num
  unfold Lattice.ofCard
  rw [hheader]
  dsimp only
  rw [if_neg hpitch, if_neg (by decide), if_neg (by decide)]
  rfl

theorem lowerLeft_stripes : stripesLattice.lowerLeft = ⟨-1, -(1 / 2)⟩ := by
  have hcorner : stripesLattice.lowerLeft =
      ⟨(0 : ℝ) - (2 : Nat) * Scalar.half * 1, (0 : ℝ) - (1 : Nat) * Scalar.half * 1⟩ := rfl
  rw [hcorner, Scalar.half_eq]
  norm_num

/-- Behind the right element comes the left one again, and then the right one. -/
theorem addLatticeCard_locates_stripes :
    ((new .empty : Draft ℝ).addLatticeCard "lat L 6 0 0 2 1 1 A B").fault = none ∧
    stripesLattice.elementAt? ⟨2, 0, 7⟩ = some ⟨1, 0⟩ := by
  have hread : Card.readLattice "lat L 6 0 0 2 1 1 A B".toList = some stripes := by decide
  have hadd : (new .empty : Draft ℝ).addLatticeCard "lat L 6 0 0 2 1 1 A B" =
      (new .empty : Draft ℝ).addLattice "L" stripesLattice := by
    unfold addLatticeCard
    rw [hread]
    dsimp only
    rw [ofCard_stripes]
    rfl
  have hdone : ((new .empty : Draft ℝ).addLatticeCard "lat L 6 0 0 2 1 1 A B").fault = none := by
    rw [hadd]
    rfl
  have hstored : ((new .empty : Draft ℝ).addLatticeCard
      "lat L 6 0 0 2 1 1 A B").draft.geometry.lattice? "L" = some stripesLattice := by
    rw [hadd]
    rfl
  refine ⟨hdone, ?_⟩
  obtain ⟨card, l, hcard, hl, -, hpoint⟩ := addLatticeCard_locates hdone
  obtain rfl : stripes = card := Option.some.inj (hread.symm.trans hcard)
  obtain rfl : stripesLattice = l := Option.some.inj (hstored.symm.trans hl)
  obtain ⟨i, j, ⟨-, hunique⟩, helement, -⟩ := hpoint ⟨2, 0, 7⟩
  have hcell : stripesLattice.CellHolds 3 0 ⟨2, 0, 7⟩ := by
    unfold Lattice.CellHolds
    rw [lowerLeft_stripes]
    norm_num [stripesLattice, Lattice.ofHeader]
  obtain ⟨rfl, rfl⟩ := hunique 3 0 hcell
  exact helement rfl

end Draft

end SerpentCsg
