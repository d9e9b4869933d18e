import SerpentCsg.Text.Blank

/-! # Reading from the Front of a Text

  Small readers over a list of characters. A reader that can fail returns the value it read
  together with the text that is left, and `none` where the text does not start as it should.
-/

namespace SerpentCsg.Text

/-- A reader of one value from the front of a text. -/
abbrev Scan (α : Type) := List Char → Option (α × List Char)

/-! ### Fixed texts and runs -/

/-- What follows `expected` at the front of the text. -/
def afterText : List Char → List Char → Option (List Char)
  | [], s => some s
  | _ :: _, [] => none
  | e :: expected, c :: s => if e == c then afterText expected s else none

/-- A maximal run of characters of a class, at least one. -/
def run (p : Char → Bool) (s : List Char) : Option (List Char × List Char) :=
  match s.takeWhile p with
  | [] => none
  | chosen@(_ :: _) => some (chosen, s.dropWhile p)

/-- What follows a gap of at least one space or tab. -/
def afterGap (s : List Char) : Option (List Char) := (run isGap s).map (·.2)

/-- What follows `word` and the gap after it. -/
def afterKeyword (word : String) (s : List Char) : Option (List Char) :=
  (afterText word.toList s).bind afterGap

/-- A gap or the end of the text stands here. -/
def atBreak : List Char → Bool
  | [] => true
  | c :: _ => isGap c

/-- Nothing but spaces and tabs is left. -/
def onlyGap (s : List Char) : Bool := s.all isGap

/-! ### Repetition -/

/-- Values read one after another for as long as the reader succeeds, but at most so many, and what
    is left from where it stopped. The same works on characters and on tokens. -/
def manyAtMost {σ α : Type} (item : List σ → Option (α × List σ)) :
    Nat → List σ → List α × List σ
  | 0, s => ([], s)
  | limit + 1, s =>
    match item s with
    | none => ([], s)
    | some (a, rest) =>
      let (others, left) := manyAtMost item limit rest
      (a :: others, left)

/-- Values read one after another for as long as the reader succeeds. A reader that always takes
    something cannot succeed more often than there is something to take. -/
def many {σ α : Type} (item : List σ → Option (α × List σ)) (s : List σ) : List α × List σ :=
  manyAtMost item s.length s

end SerpentCsg.Text
