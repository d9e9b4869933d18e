import SerpentCsg.Text.Natural

/-! # Numerals

  A numeral is a decimal number as it is written, before it is rounded to any number type.
  It is read in two places with two grammars:

  - *on a card* (`Numeral.scan`): an optional sign, digits with an optional point (at least one
    digit on either side of it) and an optional exponent with digits; or, without a sign, `nan`
    or `inf` in any case. The reader stops where the numeral stops.
  - *as a whole word* (`Numeral.ofWord?`): the same decimal numbers, or an optional sign before
    `nan`, `inf` or `infinity` in any case, and nothing left over.

  In both, an `e` that no digits follow spoils the whole numeral.
-/

namespace SerpentCsg.Text

/-- A number as written in decimal. -/
inductive Numeral where
  /-- The number `digits * 10 ^ scale`, negated if `negative`. -/
  | finite (negative : Bool) (digits : Nat) (scale : Int)
  /-- Infinity of either sign. -/
  | infinite (negative : Bool)
  /-- Not a number. -/
  | undefined
  deriving Repr, DecidableEq

namespace Numeral

/-! ### Parts of a numeral -/

/-- The sign at the front, if there is one: whether it is a minus, and what follows it. -/
def sign : List Char → Bool × List Char
  | '-' :: s => (true, s)
  | '+' :: s => (false, s)
  | s => (false, s)

/-- Digits with an optional point: their value as one number, and how many follow the point. -/
def mantissa (s : List Char) : Option (Nat × Nat × List Char) :=
  let whole := s.takeWhile isDigit
  match s.dropWhile isDigit with
  | '.' :: rest =>
    let part := rest.takeWhile isDigit
    if whole.isEmpty && part.isEmpty then none
    else some (digitsValue (whole ++ part), part.length, rest.dropWhile isDigit)
  | rest => if whole.isEmpty then none else some (digitsValue whole, 0, rest)

/-- The exponent after the mark `e`, and zero where there is no mark. A mark without digits is
    an error. -/
def exponent : List Char → Option (Int × List Char)
  | [] => some (0, [])
  | c :: s =>
    if c == 'e' || c == 'E' then
      let (negative, s) := sign s
      (run isDigit s).map fun (digits, rest) =>
        let value : Int := digitsValue digits
        (if negative then -value else value, rest)
    else some (0, c :: s)

/-- A decimal number with an optional sign. -/
def decimal : Scan Numeral := fun s => do
  let (negative, s) := sign s
  let (digits, places, s) ← mantissa s
  let (power, s) ← exponent s
  return (.finite negative digits (power - places), s)

/-- A character in lower case, ASCII letters only. -/
def lower (c : Char) : Char := if 'A' ≤ c && c ≤ 'Z' then Char.ofNat (c.toNat + 32) else c

/-- What follows a word of lower case letters, whatever the case it is written in. -/
def afterAnyCase : List Char → List Char → Option (List Char)
  | [], s => some s
  | _ :: _, [] => none
  | e :: expected, c :: s => if e == lower c then afterAnyCase expected s else none

/-! ### The two grammars -/

/-- A numeral on a card, and the text after it. -/
def scan : Scan Numeral := fun s =>
  match mantissa (sign s).2 with
  | some _ => decimal s
  | none =>
    match afterAnyCase "nan".toList s with
    | some rest => some (.undefined, rest)
    | none => (afterAnyCase "inf".toList s).map fun rest => (.infinite false, rest)

/-- A word that is a numeral from its first character to its last. -/
def ofWord? (s : List Char) : Option Numeral :=
  match decimal s with
  | some (numeral, []) => some numeral
  | _ =>
    let (negative, word) := sign s
    match word.map lower with
    | ['n', 'a', 'n'] => some .undefined
    | ['i', 'n', 'f'] => some (.infinite negative)
    | ['i', 'n', 'f', 'i', 'n', 'i', 't', 'y'] => some (.infinite negative)
    | _ => none

end Numeral

end SerpentCsg.Text
