/-! # Blanks, Words and Trimming

  Text is read as a list of characters. Three kinds of blank occur in card files:

  - *white space*, the characters with the property White_Space, which is what
    separates words and what trimming removes;
  - *gaps*, spaces and tabs only, which separate the parts of a card;
  - *layout*, spaces, tabs and line ends, which may stand between the tokens of
    a region expression and around the parts of an element.
-/

namespace SerpentCsg.Text

/-! ### Classes of characters -/

/-- First and last code points of the ranges with the property White_Space. -/
def whiteSpaceRanges : List (Nat × Nat) :=
  [(0x09, 0x0d), (0x20, 0x20), (0x85, 0x85), (0xa0, 0xa0), (0x1680, 0x1680),
   (0x2000, 0x200a), (0x2028, 0x2029), (0x202f, 0x202f), (0x205f, 0x205f), (0x3000, 0x3000)]

/-- The character has the property White_Space. -/
def isWhite (c : Char) : Bool :=
  whiteSpaceRanges.any fun range => range.1 ≤ c.toNat && c.toNat ≤ range.2

/-- Space or tab. -/
def isGap (c : Char) : Bool := c == ' ' || c == '\t'

/-- Space, tab, or either character of a line end. -/
def isLayout (c : Char) : Bool := c == ' ' || c == '\t' || c == '\r' || c == '\n'

/-- An ASCII digit. -/
def isDigit (c : Char) : Bool := '0' ≤ c && c ≤ '9'

/-- An ASCII letter. -/
def isLetter (c : Char) : Bool := ('a' ≤ c && c ≤ 'z') || ('A' ≤ c && c ≤ 'Z')

/-- Every gap is white space. -/
theorem isWhite_of_isGap {c : Char} (h : isGap c = true) : isWhite c = true := by
  simp only [isGap, Bool.or_eq_true, beq_iff_eq] at h
  rcases h with rfl | rfl <;> decide

/-! ### Trimming -/

/-- The text without the white space at its start. -/
def trimStart (s : List Char) : List Char := s.dropWhile isWhite

/-- The text without the white space at its end. -/
def trimEnd (s : List Char) : List Char := (s.reverse.dropWhile isWhite).reverse

/-- The text without the white space at either end. -/
def trim (s : List Char) : List Char := trimEnd (trimStart s)

/-! ### Words -/

/-- The pieces between white space characters, empty ones included. There is one piece more
    than there are white space characters. -/
def pieces : List Char → List (List Char)
  | [] => [[]]
  | c :: rest =>
    if isWhite c then [] :: pieces rest
    else match pieces rest with
      | [] => [[c]]
      | piece :: others => (c :: piece) :: others

/-- The maximal runs without white space, in order. -/
def words (s : List Char) : List (List Char) := (pieces s).filter fun piece => !piece.isEmpty

end SerpentCsg.Text
