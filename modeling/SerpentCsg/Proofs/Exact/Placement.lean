import SerpentCsg.Proofs.Exact.Rational
import SerpentCsg.Proofs.Exact.Rigid
import SerpentCsg.Proofs.Output.Elements

/-! # Where Filling Universes Are Placed

  A filling universe is placed by the moves that are applied to it, in their order, and the
  coordinates in it undo them: a point that is taken along has the coordinates that it started with.

  The same coordinates come from what the element of the cell says: the translation is subtracted,
  and the rotation that is written, which is the transpose of that of the placement, is applied. The
  element spells them out, the three components of the one and the nine entries of the other.
-/

namespace SerpentCsg

open Move (actAll)
open Output (CellTag cellElement cellElement_eq cellTag)

/-! ### What is written about a cell -/

/-- The rotation that is written takes a point into the filling universe, once the translation that
    is written has been subtracted. -/
theorem Cell.inwardRotation_apply (c : Cell ℝ) (x : Vec3 ℝ) :
    (c.inwardRotation.getD .identity).apply (x - c.shift.getD .zero) = c.toLocal x := by
  have hturn : c.inwardRotation.getD .identity = c.turn.transpose := by
    unfold inwardRotation turn
    cases c.rotation with
    | none => exact Mat3.identity_transpose.symm
    | some m => rfl
  rw [hturn]
  rfl

theorem Cell.toLocal_of_unplaced {c : Cell ℝ} (hshift : c.shift = none) (hturn : c.rotation = none)
    (p : Vec3 ℝ) : c.toLocal p = p := by
  simp only [toLocal, turn, offset, hshift, hturn, Option.getD_none, Vec3.sub_zero,
    Mat3.identity_transpose, Mat3.identity_apply]

/-! ### Runs of cards -/

namespace Draft

/-- The card moves a universe by a map of space, or it does something else and the map is the
    identity. -/
inductive Drives (u : String) (card : Card) : (Vec3 ℝ → Vec3 ℝ) → Prop where
  | moves {g : Vec3 ℝ → Vec3 ℝ} : MovesBy u card g → Drives u card g
  | other : ¬ MovesUniverse ℝ card u → Drives u card id

/-- A cell with a filling universe keeps the coordinates of the points that are taken along by the
    cards that move it, whatever other cards there are between them. -/
theorem workIn_coordinates {u : String} {cards : List Card} {gs : List (Vec3 ℝ → Vec3 ℝ)}
    (hcards : List.Forall₂ (Drives u) cards gs) :
    ∀ {d : Draft ℝ}, d.Sound → d.Listed → d.Owned → d.MotionsSucceed cards →
      ∀ {name v : String} {c : Cell ℝ}, d.cells.find? name = some c → c.parent = u →
        c.fill = .universe v →
        ∃ c', (d.workIn cards).cells.find? name = some c' ∧
          ∀ p, c'.toLocal (gs.foldl (fun p g => g p) p) = c.toLocal p := by
  induction hcards with
  | nil => exact fun _ _ _ _ _ _ c hc _ _ => ⟨c, hc, fun _ => rfl⟩
  | @cons card g cards gs hcard hcards ih =>
    intro d hsound hl ho hdone name v c hc hparent hfill
    have hchanges := addCard_changes hsound card
    have hsound₁ := hsound.changes hchanges
    have hl₁ := hl.changes hchanges
    have ho₁ := ho.changes hsound hchanges
    cases hcard with
    | moves hmoves =>
      obtain ⟨c₁, hc₁, hfollows⟩ :=
        addCard_follows hsound hl ho hmoves (hdone.1 hmoves.1) hc hparent
      obtain ⟨c', hc', hlocal⟩ := ih hsound₁ hl₁ ho₁ hdone.2 hc₁ (hfollows.parent.trans hparent)
        (hfollows.fill.trans hfill)
      refine ⟨c', hc', fun p => ?_⟩
      rw [List.foldl_cons, hlocal, hfollows.coordinates v hfill]
    | other hother =>
      have hc₁ := find?_cells_addCard hsound hl ho hc (hparent ▸ hother) hdone.1
      exact ih hsound₁ hl₁ ho₁ hdone.2 hc₁ hparent hfill

/-- The coordinates in a filling universe undo the moves that placed it, be they applied to a cell
    directly or by the cards of a run in which no motion fails; and the translation and the rotation
    that the element of a cell spells out give these coordinates. -/
theorem coordinates_undo_moves :
    (∀ (c : Cell ℝ) (moves : List (Move ℝ)), c.shift = none → c.rotation = none →
      (∀ move ∈ moves, move.IsExact) →
      ∀ p, (c.fillMovedAll moves).toLocal (actAll moves p) = p) ∧
    (∀ (materials : MaterialLibrary) (decks : List (List Card)) (u : String) (cards : List Card)
      (gs : List (Vec3 ℝ → Vec3 ℝ)), List.Forall₂ (Drives u) cards gs →
      (afterDecks materials decks : Draft ℝ).MotionsSucceed cards →
      ∀ (name v : String) (c : Cell ℝ),
        (afterDecks materials decks : Draft ℝ).cells.find? name = some c → c.parent = u →
        c.fill = .universe v →
        ∃ c', ((afterDecks materials decks : Draft ℝ).workIn cards).cells.find? name = some c' ∧
          (∀ p, c'.toLocal (gs.foldl (fun p g => g p) p) = c.toLocal p) ∧
          (c.shift = none → c.rotation = none →
            ∀ p, c'.toLocal (gs.foldl (fun p g => g p) p) = p)) ∧
    (∀ (K : Type) [Scalar K] (geometry : Geometry K) (c : Cell K), ∃ tag : CellTag K,
      cellElement geometry c = tag.text ∧
      tag.translation = c.shift ∧ tag.rotation = c.inwardRotation) ∧
    ∀ (c : Cell ℝ) (x : Vec3 ℝ),
      (c.inwardRotation.getD .identity).apply (x - c.shift.getD .zero) = c.toLocal x := by
  refine ⟨?_, ?_, ?_, Cell.inwardRotation_apply⟩
  · intro c moves hshift hturn hexact p
    rw [c.toLocal_fillMovedAll hexact, Cell.toLocal_of_unplaced hshift hturn]
  · intro materials decks u cards gs hcards hdone name v c hc hparent hfill
    have hsound := sound_new (K := ℝ) materials
    have hchanges := afterDecks_changes (K := ℝ) materials decks
    obtain ⟨c', hc', hlocal⟩ := workIn_coordinates hcards (hsound.changes hchanges)
      ((listed_new materials).changes hchanges) ((owned_new materials).changes hsound hchanges)
      hdone hc hparent hfill
    refine ⟨c', hc', hlocal, fun hshift hturn p => ?_⟩
    rw [hlocal, Cell.toLocal_of_unplaced hshift hturn]
  · intro K _ geometry c
    exact ⟨cellTag geometry c, cellElement_eq geometry c, rfl, rfl⟩

/-- A pin in the half-space below a plane. -/
def pinDecks : List (List Card) :=
  [[⟨1, .surface, "surf 1 pz 1"⟩, ⟨2, .cellFill, "cell 10 0 fill 7 -1"⟩,
    ⟨3, .cellMaterial, "cell 20 7 void -1"⟩]]

/-- The cards that move the pin along with its cell, after one that moves what is in the pin. -/
def pinCards : List Card := ⟨5, .motion, "trans U 7 0 1 0"⟩ :: quarterTurnCards

/-- A quarter turn about the z axis with a shift after it, by its matrix. -/
def matrixCards : List Card := [⟨5, .motion, "trans U 0 1 2 3 0 -1 0 1 0 0 0 0 1 1"⟩]

/-- A pin that is placed by a shift, a quarter turn and another shift, step by step and by cards; and
    what is written about one that is placed by a matrix, whose rows become columns. -/
theorem coordinates_undo_moves_pin :
    (∃ c c', (afterDecks .empty pinDecks : Draft ℝ).cells.find? "10" = some c ∧
      (∀ p, (c.fillMovedAll quarterTurnMoves).toLocal (actAll quarterTurnMoves p) = p) ∧
      ((afterDecks .empty pinDecks : Draft ℝ).workIn pinCards).cells.find? "10" = some c' ∧
      (∀ p, c'.toLocal (quarterTurnMaps.foldl (fun p g => g p) p) = p) ∧
      ∀ x, (c'.inwardRotation.getD .identity).apply (x - c'.shift.getD .zero) = c'.toLocal x) ∧
    let d := (afterDecks .empty pinDecks : Draft Rat).workIn matrixCards
    (d.cells.find? "10").map (cellElement d.geometry) = some
      ("  <cell id=\"10\" name=\"10\" universe=\"1\" fill=\"7\" region=\"-1\"" ++
        " translation=\"1 2 3\" rotation=\"0 1 0 -1 0 0 0 0 1\" />\n") := by
  refine ⟨?_, by decide +kernel⟩
  have hother : ¬ MovesUniverse ℝ ⟨5, .motion, "trans U 7 0 1 0"⟩ "0" := by
    rintro ⟨-, args, hread⟩
    have hname : (Card.readMotion (K := ℝ) "trans U 7 0 1 0".toList).map (·.name) =
        some "7" := by
      decide +kernel
    rw [show Card.readMotion (K := ℝ) "trans U 7 0 1 0".toList = _ from hread] at hname
    simp at hname
  have hcards : List.Forall₂ (Drives "0") pinCards (id :: quarterTurnMaps) :=
    .cons (.other hother) (movesBy_quarterTurn.imp fun _ _ hmoves => .moves hmoves)
  have hdone : (afterDecks .empty pinDecks : Draft ℝ).MotionsSucceed pinCards := by
    refine ⟨fun _ => by decide +kernel, fun _ => by decide +kernel, fun _ => ?_, trivial⟩
    rw [addCard_quarterTurn]
    decide +kernel
  have hcell : ((afterDecks .empty pinDecks : Draft ℝ).cells.find? "10").map
      (fun c => (c.parent, c.fill, c.shift.isNone, c.rotation.isNone)) =
        some ("0", .universe "7", true, true) := by
    decide +kernel
  obtain ⟨c, hc, heq⟩ := Option.map_eq_some_iff.1 hcell
  simp only [Prod.mk.injEq, Option.isNone_iff_eq_none] at heq
  obtain ⟨hparent, hfill, hshift, hturn⟩ := heq
  obtain ⟨hsteps, hruns, -, hwritten⟩ := coordinates_undo_moves
  obtain ⟨c', hc', -, hlocal⟩ :=
    hruns .empty pinDecks "0" pinCards _ hcards hdone "10" "7" c hc hparent hfill
  have hexact : ∀ move ∈ quarterTurnMoves, move.IsExact := by
    simp [quarterTurnMoves, Move.IsExact, Rotation.IsExact]
  exact ⟨c, c', hc, hsteps c quarterTurnMoves hshift hturn hexact, hc', hlocal hshift hturn,
    hwritten c'⟩

end Draft
end SerpentCsg
