import SerpentCsg.Text.Numeral

/-! # Scalars

  Coordinates, coefficients and matrix entries are scalars. The geometry is written once over
  any type of scalars: it runs on 64-bit floating point numbers, and what it computes can be
  studied over exact numbers as well.

  A scalar type has the four operations, comparisons, the few functions the geometry needs, and
  a test for being negligible, which exact numbers pass only when they are zero.
-/

namespace SerpentCsg

open Text (Numeral)

/-- A type of numbers to compute coordinates with. -/
class Scalar (K : Type) extends
    Zero K, One K, Add K, Sub K, Mul K, Div K, Neg K, LT K, LE K, BEq K where
  /-- The order `<` can be decided. -/
  decidableLT : DecidableLT K
  /-- The order `≤` can be decided. -/
  decidableLE : DecidableLE K
  /-- Square root. -/
  sqrt : K → K
  /-- Magnitude. -/
  abs : K → K
  /-- One with the sign of the number. -/
  signum : K → K
  /-- Greatest whole number that is not above the number. -/
  floor : K → K
  /-- Remainder of a division, never negative for a divisor that is not zero. -/
  remainder : K → K → K
  /-- Sine of an angle in radians. -/
  sin : K → K
  /-- Cosine of an angle in radians. -/
  cos : K → K
  /-- A count as a scalar. -/
  ofCount : Nat → K
  /-- A number cut off at its point, as a count. -/
  toCount : K → Nat
  /-- The scalar nearest to a numeral. -/
  ofNumeral : Numeral → K
  /-- Too small to tell a direction from a coordinate axis. -/
  isNegligible : K → Bool
  /-- The number as it is written in messages and elements. -/
  text : K → String

instance instDecidableLT {K : Type} [Scalar K] : DecidableLT K := Scalar.decidableLT

instance instDecidableLE {K : Type} [Scalar K] : DecidableLE K := Scalar.decidableLE

namespace Scalar

variable {K : Type} [Scalar K]

/-- The decimal `digits * 10 ^ scale`. -/
def decimal (digits : Nat) (scale : Int) : K := ofNumeral (.finite false digits scale)

/-- The number two. -/
def two : K := 1 + 1

/-- The number one half. -/
def half : K := 1 / two

/-- The square of a number. -/
def square (x : K) : K := x * x

/-- An angle in degrees, in radians. -/
def radians (degrees : K) : K := degrees * decimal 17453292519943295 (-18)

/-- Numbers as they are listed in elements and messages, with one space between them. -/
def listText (values : List K) : String := " ".intercalate (values.map text)

/-- A whole word as a scalar. -/
def ofWord? (word : String) : Option K := (Numeral.ofWord? word.toList).map ofNumeral

end Scalar

end SerpentCsg
