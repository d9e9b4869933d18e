import SerpentCsg.Text.Scan

/-! # Natural Numbers in Text

  The value of a run of digits, and whole words read as a bounded natural number: an optional
  plus sign, then digits, with a value that does not exceed the bound.
-/

namespace SerpentCsg.Text

/-- Value of one decimal digit. -/
def digitValue (c : Char) : Nat := c.toNat - '0'.toNat

/-- Value of decimal digits, the most significant first. -/
def digitsValue (digits : List Char) : Nat :=
  digits.foldl (fun value c => 10 * value + digitValue c) 0

/-- Largest number that fits 8 bits. -/
def max8 : Nat := 0xff

/-- Largest number that fits 32 bits. -/
def max32 : Nat := 0xffffffff

/-- Largest number that fits 64 bits. -/
def max64 : Nat := 0xffffffffffffffff

/-- A nonempty run of digits as a number of at most `bound`. -/
def boundedDigits? (bound : Nat) (s : List Char) : Option Nat :=
  if s.isEmpty || !s.all isDigit then none
  else
    let value := digitsValue s
    if value ≤ bound then some value else none

/-- A whole word as a number of at most `bound`: an optional plus sign, then digits. -/
def natural? (bound : Nat) : List Char → Option Nat
  | '+' :: s => boundedDigits? bound s
  | s => boundedDigits? bound s

end SerpentCsg.Text
