/-! # Binary Numbers Taken Apart

  A 64-bit floating point number is a sign, a mantissa and a power of two. Everything that is
  computed exactly from such a number (its decimal digits, its remainder) starts here.
-/

namespace SerpentCsg.Decimal

/-- What a 64-bit pattern stands for. -/
inductive Binary where
  /-- The number `mantissa * 2 ^ exponent`, negated if `negative`. -/
  | finite (negative : Bool) (mantissa : Nat) (exponent : Int)
  /-- Infinity of either sign. -/
  | infinite (negative : Bool)
  /-- Not a number. -/
  | undefined
  deriving Repr, DecidableEq

namespace Binary

/-- Mantissa of the smallest number with a leading bit of its own. -/
def hiddenBit : Nat := 0x10000000000000

/-- Exponent of the numbers closest to zero. -/
def leastExponent : Int := -1074

/-- The number that a pattern of one sign bit, eleven exponent bits and 52 fraction bits
    stands for. -/
def ofBits (bits : UInt64) : Binary :=
  let pattern : Nat := bits.toNat
  let negative := pattern >>> 63 == 1
  let field : Nat := (pattern >>> 52) % 2048
  let fraction : Nat := pattern % hiddenBit
  if field == 2047 then
    if fraction == 0 then .infinite negative else .undefined
  else if field == 0 then .finite negative fraction leastExponent
  else .finite negative (hiddenBit + fraction) ((field : Int) - 1 + leastExponent)

/-- The number that a floating point value stands for. -/
def ofFloat (x : Float) : Binary := ofBits x.toBits

end Binary

end SerpentCsg.Decimal
