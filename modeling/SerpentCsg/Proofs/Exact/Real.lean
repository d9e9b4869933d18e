import Mathlib.Analysis.Complex.Trigonometric
import Mathlib.Analysis.Real.Sqrt
import SerpentCsg.Scalar

/-! # Exact Scalars

  The real numbers as scalars. Geometry over them is what the program computes if nothing is ever
  rounded: a number is negligible only if it is zero, so a direction lies along a coordinate axis
  only if it does so exactly.

  Numerals for infinity and for what is no number are no real numbers, and are read as zero. The
  text of a real number is that of its whole part; no statement about exact geometry looks
  at texts.
-/

namespace SerpentCsg

open Text (Numeral max64)

/-- The real number that a numeral is. -/
noncomputable def realOfNumeral : Numeral → ℝ
  | .finite negative digits scale => (if negative then -1 else 1) * (digits * (10 : ℝ) ^ scale)
  | .infinite _ | .undefined => 0

theorem realOfNumeral_whole (n : Nat) : realOfNumeral (.finite false n 0) = n := by
  simp [realOfNumeral]

noncomputable instance realScalar : Scalar ℝ where
  zero := 0
  one := 1
  add x y := x + y
  sub x y := x - y
  mul x y := x * y
  div x y := x / y
  neg x := -x
  lt x y := x < y
  le x y := x ≤ y
  beq x y := decide (x = y)
  decidableLT := Classical.decRel _
  decidableLE := Classical.decRel _
  sqrt := Real.sqrt
  abs x := |x|
  signum x := if x < 0 then -1 else 1
  floor x := ⌊x⌋
  remainder x y := x - |y| * ⌊x / |y|⌋
  sin := Real.sin
  cos := Real.cos
  ofCount n := n
  toCount x := min ⌊x⌋₊ max64
  ofNumeral := realOfNumeral
  isNegligible x := decide (x = 0)
  text x := toString ⌊x⌋

namespace Scalar

/-- Only zero is negligible. -/
@[simp] theorem isNegligible_iff (x : ℝ) : isNegligible x = true ↔ x = 0 := decide_eq_true_iff

@[simp] theorem beq_iff (x y : ℝ) : (x == y) = true ↔ x = y := decide_eq_true_iff

@[simp] theorem two_eq : (two : ℝ) = 2 := one_add_one_eq_two

@[simp] theorem half_eq : (half : ℝ) = 1 / 2 := by
  show (1 : ℝ) / two = 1 / 2
  rw [two_eq]

theorem square_eq (x : ℝ) : square x = x ^ 2 := (pow_two x).symm

end Scalar

end SerpentCsg
