import SerpentCsg.Decimal.Binary

/-! # Shortest Decimal of a Binary Number

  Among the decimals that are rounded back to a given binary number, the one with the fewest
  digits, and of those the nearest. It is found on decimal grids: the multiples of a power of
  ten, from coarse to fine. The first grid with a point in the interval of reals that round to
  the number wins, because a point of a coarser grid has fewer digits. If a grid has a point in
  the interval, then one of the two neighbours of the number on that grid lies in it.

  All of it is exact arithmetic on natural numbers.
-/

namespace SerpentCsg.Decimal

/-- Which of two decimals that are equally near is taken. -/
inductive Tie where
  /-- The one further from zero. -/
  | away
  /-- The one whose last digit is even. -/
  | even
  deriving Repr, DecidableEq

/-- The reals that are rounded to a positive binary number, as fractions over one denominator. -/
structure RoundingInterval where
  /-- The number itself. -/
  value : Nat
  /-- Lower end of the interval. -/
  low : Nat
  /-- Upper end of the interval. -/
  high : Nat
  /-- Common denominator. -/
  scale : Nat
  /-- The ends belong to the interval. -/
  closed : Bool
  deriving Repr

namespace RoundingInterval

/-- Interval of `mantissa * 2 ^ exponent`. It reaches half a step up and half a step down, and
    the step below a power of two is half as wide. The ends are rounded to the number exactly
    if its mantissa is even. -/
def ofBinary (mantissa : Nat) (exponent : Int) : RoundingInterval :=
  let narrow := mantissa == Binary.hiddenBit && Binary.leastExponent < exponent
  let up := 1 <<< (exponent - 2).toNat
  { value := 4 * mantissa * up
    low := (4 * mantissa - if narrow then 1 else 2) * up
    high := (4 * mantissa + 2) * up
    scale := 1 <<< (2 - exponent).toNat
    closed := mantissa % 2 == 0 }

/-- The same interval in units of `10 ^ power`. -/
def inUnitsOf (i : RoundingInterval) (power : Int) : RoundingInterval :=
  let finer := Nat.pow 10 (-power).toNat
  { i with
    value := i.value * finer
    low := i.low * finer
    high := i.high * finer
    scale := i.scale * Nat.pow 10 power.toNat }

/-- The whole number `n` lies in the interval. -/
def holds (i : RoundingInterval) (n : Nat) : Bool :=
  let n := n * i.scale
  if i.closed then i.low ≤ n && n ≤ i.high else i.low < n && n < i.high

/-- The whole number of the interval that is nearest to its value, if there is one. -/
def nearest? (tie : Tie) (i : RoundingInterval) : Option Nat :=
  let below := i.value / i.scale
  let above := below + 1
  match i.holds below, i.holds above with
  | false, false => none
  | true, false => some below
  | false, true => some above
  | true, true =>
    let down := i.value - below * i.scale
    let up := above * i.scale - i.value
    if down < up then some below
    else if up < down then some above
    else match tie with
      | .away => some above
      | .even => some (if below % 2 == 0 then below else above)

/-- A power of ten above the value, and at most two powers too large. -/
def topPower (i : RoundingInterval) : Int :=
  ((i.value.log2 : Int) - i.scale.log2 + 1) * 30103 / 100000 + 1

end RoundingInterval

/-- Number of grids to try: seventeen digits always suffice, and the first grids may be too
    coarse to have any point near the number. -/
def gridCount : Nat := 22

/-- Digits and scale of the shortest decimal `digits * 10 ^ scale` of a positive binary number. -/
def shortest (tie : Tie) (mantissa : Nat) (exponent : Int) : Nat × Int :=
  let interval := RoundingInterval.ofBinary mantissa exponent
  let top := interval.topPower
  let grids := (List.range gridCount).map fun step : Nat => top - (step : Int)
  let found := grids.findSome? fun power =>
    ((interval.inUnitsOf power).nearest? tie).map fun digits => (digits, power)
  found.getD (0, 0)

end SerpentCsg.Decimal
