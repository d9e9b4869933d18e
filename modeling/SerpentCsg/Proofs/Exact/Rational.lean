import SerpentCsg.Scalar

/-! # Rational Scalars

  The rational numbers as scalars. They are exact like the real numbers, and what is computed of
  them can be evaluated, as far as neither angles nor roots come in: the root of a number that is
  no square is rounded down, and every angle counts as zero. As with real numbers, the text of a
  number is that of its whole part.
-/

namespace SerpentCsg

open Text (Numeral max64)

/-- The rational number that a numeral is. -/
def rationalOfNumeral : Numeral → Rat
  | .finite negative digits scale =>
    let magnitude : Rat := mkRat (digits * Nat.pow 10 scale.toNat : Nat) (Nat.pow 10 (-scale).toNat)
    if negative then -magnitude else magnitude
  | .infinite _ | .undefined => 0

instance rationalScalar : Scalar Rat where
  zero := 0
  one := 1
  add x y := x + y
  sub x y := x - y
  mul x y := x * y
  div x y := x / y
  neg x := -x
  lt x y := x < y
  le x y := x ≤ y
  beq x y := decide (x = y)
  decidableLT := inferInstance
  decidableLE := inferInstance
  sqrt x := mkRat (Nat.sqrt x.num.toNat) (Nat.sqrt x.den)
  abs x := x.abs
  signum x := if x < 0 then -1 else 1
  floor x := x.floor
  remainder x y := x - y.abs * (x / y.abs).floor
  sin _ := 0
  cos _ := 1
  ofCount n := n
  toCount x := min x.floor.toNat max64
  ofNumeral := rationalOfNumeral
  isNegligible x := decide (x = 0)
  text x := toString x.floor

end SerpentCsg
