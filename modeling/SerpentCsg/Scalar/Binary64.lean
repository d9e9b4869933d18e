import SerpentCsg.Scalar
import SerpentCsg.Decimal.Style

/-! # Floating Point Scalars

  The scalars that the program runs on: 64-bit floating point numbers, written with the fewest
  digits that are read back as the same number.
-/

namespace SerpentCsg.Binary64

open Text (Numeral)
open Decimal (Binary)

/-! ### From decimal -/

/-- Decimals of at least `10 ^ overflowPower` are read as infinity. -/
def overflowPower : Int := 310

/-- Decimals below `10 ^ underflowPower` are read as zero. -/
def underflowPower : Int := -330

/-- The floating point number nearest to a numeral. Powers of ten far outside the range are
    settled by their size alone, so that no huge power is ever computed. -/
def ofNumeral : Numeral → Float
  | .undefined => 0.0 / 0.0
  | .infinite negative => if negative then -1.0 / 0.0 else 1.0 / 0.0
  | .finite negative digits scale =>
    let power := scale + (Nat.repr digits).length
    let magnitude :=
      if digits == 0 || power < underflowPower then 0.0
      else if overflowPower < power then 1.0 / 0.0
      else Float.ofScientific digits (scale < 0) scale.natAbs
    if negative then -magnitude else magnitude

/-! ### Exact remainder -/

/-- The number `mantissa * 2 ^ exponent`, for a mantissa and exponent that fit. -/
def ofBinary (mantissa : Nat) (exponent : Int) : Float :=
  match exponent with
  | .ofNat n => Float.ofScientific (mantissa <<< n) false 0
  | .negSucc n => Float.ofScientific (mantissa * Nat.pow 5 (n + 1)) true (n + 1)

/-- What is left of `x` after taking away `y` a whole number of times, with the sign of `x`. The
    result is exact. -/
def truncatedRemainder (x y : Float) : Float :=
  match Binary.ofFloat x, Binary.ofFloat y with
  | .finite negative m e, .finite _ n f =>
    if n == 0 then 0.0 / 0.0
    else
      let least := min e f
      let left := (m <<< (e - least).toNat) % (n <<< (f - least).toNat)
      let magnitude := ofBinary left least
      if negative then -magnitude else magnitude
  | .finite .., .infinite _ => x
  | _, _ => 0.0 / 0.0

/-- The remainder that is not negative. -/
def remainder (x y : Float) : Float :=
  let left := truncatedRemainder x y
  if left < 0.0 then left + y.abs else left

/-! ### The instance -/

/-- One with the sign bit of the number, and nothing for what is no number. -/
def signum (x : Float) : Float :=
  match Binary.ofFloat x with
  | .undefined => x
  | .infinite negative => if negative then -1.0 else 1.0
  | .finite negative _ _ => if negative then -1.0 else 1.0

/-- Directions closer than this to a coordinate axis lie along it. -/
def tolerance : Float := ofNumeral (.finite false 1 (-10))

instance : Scalar Float where
  zero := 0.0
  one := 1.0
  decidableLT := inferInstance
  decidableLE := inferInstance
  sqrt := Float.sqrt
  abs := Float.abs
  signum := signum
  floor := Float.floor
  remainder := remainder
  sin := Float.sin
  cos := Float.cos
  ofCount := Float.ofNat
  toCount x := x.toUInt64.toNat
  ofNumeral := ofNumeral
  isNegligible x := x.abs < tolerance
  text := Decimal.Style.plain.floatText

end SerpentCsg.Binary64
