import SerpentCsg.Decimal.Shortest

/-! # Written Numbers

  A style says how the shortest decimal of a number is set out: up to which exponents it is
  written with a point alone, whether a whole number keeps a decimal place, and what stands for
  values that are no numbers. Two styles are in use, `Style.plain` for card values in messages
  and elements, and `Style.json` for structured dumps.
-/

namespace SerpentCsg.Decimal

/-- How numbers are written. -/
structure Style where
  /-- Choice between two equally near decimals. -/
  tie : Tie
  /-- The exponents of the leading digit that are written without an exponent part; all of
      them if absent. -/
  positional : Option (Int × Int)
  /-- Whole numbers end in `.0`. -/
  keepsPlace : Bool
  /-- Text of infinity, given its sign. -/
  infinite : Bool → String
  /-- Text of what is not a number. -/
  undefined : String

namespace Style

/-- Plain numbers never have an exponent part, whole ones have no point, and a tie goes away
    from zero. -/
def plain : Style where
  tie := .away
  positional := none
  keepsPlace := false
  infinite negative := if negative then "-inf" else "inf"
  undefined := "NaN"

/-- Numbers of a structured dump keep a decimal place, have an exponent part below `1e-5` and from
    `1e16` on, and a tie goes to the even digit. What is no number is written as `null`. -/
def json : Style where
  tie := .even
  positional := some (-5, 15)
  keepsPlace := true
  infinite _ := "null"
  undefined := "null"

/-! ### Setting out digits -/

/-- So many zeros. -/
def zeros (count : Nat) : List Char := List.replicate count '0'

/-- Digits whose last one stands for `10 ^ scale`, written with a point alone. -/
def positionalText (style : Style) (digits : List Char) (scale : Int) : List Char :=
  let leading := scale + digits.length
  if 0 ≤ scale then
    digits ++ zeros scale.toNat ++ if style.keepsPlace then ['.', '0'] else []
  else if 0 < leading then
    digits.take leading.toNat ++ '.' :: digits.drop leading.toNat
  else '0' :: '.' :: zeros (-leading).toNat ++ digits

/-- Digits with an exponent part, of which the sign is always written. -/
def exponentText (digits : List Char) (power : Int) : List Char :=
  let fraction := if digits.length ≤ 1 then [] else '.' :: digits.drop 1
  let mark := if power < 0 then ['e', '-'] else ['e', '+']
  digits.take 1 ++ fraction ++ mark ++ (Nat.repr power.natAbs).toList

/-- Text of `digits * 10 ^ scale`. -/
def decimalText (style : Style) (digits : Nat) (scale : Int) : List Char :=
  let figures := (Nat.repr digits).toList
  let power := scale + figures.length - 1
  let written := match style.positional with
    | none => true
    | some (least, greatest) => least ≤ power && power ≤ greatest
  if written then style.positionalText figures scale else exponentText figures power

/-- Text of a binary number: the shortest decimal that is read back as the same number. -/
def binaryText (style : Style) : Binary → String
  | .undefined => style.undefined
  | .infinite negative => style.infinite negative
  | .finite negative mantissa exponent =>
    let (digits, scale) :=
      if mantissa == 0 then (0, 0) else shortest style.tie mantissa exponent
    let text := style.decimalText digits scale
    String.ofList (if negative then '-' :: text else text)

/-- Text of a floating point number. -/
def floatText (style : Style) (x : Float) : String := style.binaryText (.ofFloat x)

end Style

end SerpentCsg.Decimal
