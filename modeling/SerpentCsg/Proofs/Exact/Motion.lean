import SerpentCsg.Proofs.Draft.Carrying
import SerpentCsg.Proofs.Exact.Surface

/-! # Exact Motions

  A step of a motion is a map of space, and so are several steps one after another. A surface
  that is moved is the image of what it was under this map, and the coordinates of a filling
  universe that is moved are those that the points had before they were taken along.

  The numbers of a motion card stand for a shift, or for a rotation with a shift before or after
  it, as its order flag says. That a rotation is exact is asked of matrices only; one that is given
  by angles is always exact.
-/

namespace SerpentCsg

open Draft (Becomes)
open Card (MotionCard)

/-! ### Steps -/

/-- The rotation keeps inner products. -/
def Rotation.IsExact : Rotation ℝ → Prop
  | .angles _ => True
  | .matrix m => m.IsOrthonormal

theorem Rotation.IsExact.isOrthonormal {r : Rotation ℝ} (h : r.IsExact) :
    r.toMatrix.IsOrthonormal := by
  cases r with
  | angles v => exact Mat3.isOrthonormal_ofAngles _ _ _
  | matrix m => exact h

namespace Move

/-- Where a step takes a point. -/
def act {K : Type} [Scalar K] : Move K → Vec3 K → Vec3 K
  | .shift t, p => p + t
  | .rotate r, p => r.toMatrix.apply p

/-- Where some steps take a point, one after another. -/
def actAll {K : Type} [Scalar K] (moves : List (Move K)) (p : Vec3 K) : Vec3 K :=
  moves.foldl (fun p move => move.act p) p

/-- A rotation among the steps is exact. -/
def IsExact : Move ℝ → Prop
  | .shift _ => True
  | .rotate r => r.IsExact

end Move

open Move (act actAll)

/-! ### Surfaces -/

theorem Surface.isImage_moved {s s' : Surface ℝ} {move : Move ℝ} (hexact : move.IsExact)
    (h : s.moved move = .ok s') : SurfaceKind.IsImage move.act s.kind s'.kind := by
  cases move with
  | shift t =>
    obtain rfl := Except.ok.inj h
    exact s.kind.isImage_shifted t
  | rotate r =>
    simp only [Surface.moved, Surface.rotated] at h
    split at h
    · next kind hkind =>
      obtain rfl := Except.ok.inj h
      exact SurfaceKind.isImage_rotated hexact.isOrthonormal hkind
    · simp at h

/-- A surface after all steps of a motion is the image of what it was. -/
theorem Surface.isImage_movedAll {moves : List (Move ℝ)} (hexact : ∀ move ∈ moves, move.IsExact)
    {s s' : Surface ℝ} (h : s.movedAll moves = (s', none)) :
    SurfaceKind.IsImage (actAll moves) s.kind s'.kind := by
  induction moves generalizing s with
  | nil =>
    obtain ⟨rfl, -⟩ := Prod.mk.inj h
    exact SurfaceKind.isImage_of_eq fun _ => rfl
  | cons move moves ih =>
    rw [List.forall_mem_cons] at hexact
    unfold Surface.movedAll at h
    split at h
    · next moved hmoved =>
      have hfirst := Surface.isImage_moved hexact.1 hmoved
      exact hfirst.comp (ih hexact.2 h)
    · simp at h

theorem isImage_of_becomes {moves : List (Move ℝ)} (hexact : ∀ move ∈ moves, move.IsExact)
    {s s' : Surface ℝ} (h : Becomes moves s s') :
    SurfaceKind.IsImage (actAll moves) s.kind s'.kind := by
  obtain ⟨copy, hkind, -, hmoved⟩ := h
  rw [← hkind]
  exact Surface.isImage_movedAll hexact hmoved

/-! ### Fillings -/

namespace Cell

/-- A step of the filling keeps the coordinates of a point that is taken along. -/
theorem toLocal_fillMoved (c : Cell ℝ) {move : Move ℝ} (hexact : move.IsExact) (p : Vec3 ℝ) :
    (c.fillMoved move).toLocal (move.act p) = c.toLocal p := by
  cases move with
  | shift t =>
    show c.turn.transpose.apply ((p + t) - (c.offset + t)) = c.turn.transpose.apply (p - c.offset)
    rw [Vec3.add_sub_add_right]
  | rotate r =>
    have hoffset : (c.fillRotated r.toMatrix).offset = r.toMatrix.apply c.offset := by
      unfold offset fillRotated
      cases c.shift with
      | none => exact (Mat3.apply_zero _).symm
      | some t => rfl
    show (r.toMatrix * c.turn).transpose.apply
        (r.toMatrix.apply p - (c.fillRotated r.toMatrix).offset) =
      c.turn.transpose.apply (p - c.offset)
    rw [hoffset, ← Mat3.apply_sub, Mat3.transpose_mul, Mat3.mul_apply,
      hexact.isOrthonormal.transpose_apply_apply]

theorem toLocal_fillMovedAll {moves : List (Move ℝ)} (hexact : ∀ move ∈ moves, move.IsExact)
    (c : Cell ℝ) (p : Vec3 ℝ) : (c.fillMovedAll moves).toLocal (actAll moves p) = c.toLocal p := by
  induction moves generalizing c p with
  | nil => rfl
  | cons move moves ih =>
    rw [List.forall_mem_cons] at hexact
    calc ((c.fillMoved move).fillMovedAll moves).toLocal (actAll moves (move.act p))
        = (c.fillMoved move).toLocal (move.act p) := ih hexact.2 _ _
      _ = c.toLocal p := c.toLocal_fillMoved hexact.1 p

end Cell

/-! ### Cards -/

/-- The numbers of a rotation. -/
def Rotation.toList : Rotation ℝ → List ℝ
  | .angles v => v.toList
  | .matrix m => m.toList

/-- The numbers of a card stand for a map of space: a shift, or a rotation with the shift after it
    under the flag one and before it under the flag two. -/
inductive StandsFor : List ℝ → (Vec3 ℝ → Vec3 ℝ) → Prop where
  | shift (t : Vec3 ℝ) : StandsFor t.toList fun p => p + t
  | rotateFirst (t : Vec3 ℝ) {r : Rotation ℝ} : r.IsExact →
      StandsFor (t.toList ++ r.toList ++ [1]) fun p => r.toMatrix.apply p + t
  | shiftFirst (t : Vec3 ℝ) {r : Rotation ℝ} : r.IsExact →
      StandsFor (t.toList ++ r.toList ++ [2]) fun p => r.toMatrix.apply (p + t)

theorem ordered_rotateFirst (name : String) (t : Vec3 ℝ) (r : Rotation ℝ) :
    Motion.ordered name t r 1 = .ok [.rotate r, .shift t] := by
  unfold Motion.ordered
  rw [if_pos (Scalar.beq_iff _ _ |>.2 rfl)]

theorem ordered_shiftFirst (name : String) (t : Vec3 ℝ) (r : Rotation ℝ) :
    Motion.ordered name t r 2 = .ok [.shift t, .rotate r] := by
  have hone : ¬ ((2 : ℝ) == 1) = true := by
    rw [Scalar.beq_iff]
    norm_num
  have htwo : ((2 : ℝ) == Scalar.two) = true := by
    rw [Scalar.beq_iff, Scalar.two_eq]
  unfold Motion.ordered
  rw [if_neg hone, if_pos htwo]

/-- A card with a rotation asks for two steps in the order of its flag. -/
theorem ordered_of_movesOf {t : Vec3 ℝ} {r : Rotation ℝ} {flag : ℝ} {target : Char} {name : String}
    {moves : List (Move ℝ)}
    (h : Motion.movesOf { target, name, args := t.toList ++ r.toList ++ [flag] } = .ok moves) :
    Motion.ordered name t r flag = .ok moves := by
  cases r with
  | angles v => exact h
  | matrix m =>
    simp only [Motion.movesOf, Rotation.toList, Vec3.toList, Mat3.toList, List.cons_append,
      List.nil_append] at h
    split at h
    · exact h
    · simp at h

/-- The steps that a card asks for are the map that its numbers stand for. -/
theorem movesOf_standsFor {args : List ℝ} {g : Vec3 ℝ → Vec3 ℝ} (h : StandsFor args g)
    {target : Char} {name : String} {moves : List (Move ℝ)}
    (hmoves : Motion.movesOf { target, name, args } = .ok moves) :
    (∀ move ∈ moves, move.IsExact) ∧ actAll moves = g := by
  cases h with
  | shift t =>
    obtain rfl := Except.ok.inj hmoves
    exact ⟨by simp [Move.IsExact], rfl⟩
  | @rotateFirst t r hr =>
    have hordered := ordered_of_movesOf hmoves
    rw [ordered_rotateFirst, Except.ok.injEq] at hordered
    obtain rfl := hordered
    exact ⟨by simp [Move.IsExact, hr], rfl⟩
  | @shiftFirst t r hr =>
    have hordered := ordered_of_movesOf hmoves
    rw [ordered_shiftFirst, Except.ok.injEq] at hordered
    obtain rfl := hordered
    exact ⟨by simp [Move.IsExact, hr], rfl⟩

end SerpentCsg
