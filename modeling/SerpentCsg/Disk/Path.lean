/-! # Paths

  A path is kept as it was written, because it is shown as it was written. It consists of pieces
  between slashes; empty pieces mean nothing, and neither does a point, unless a relative
  path starts with it.
-/

namespace SerpentCsg

/-- A path as it was written. -/
structure Path where
  text : String
  deriving Repr, DecidableEq

namespace Path

/-- The path starts at the root directory. -/
def isAbsolute (p : Path) : Bool := p.text.toList.head? == some '/'

/-- The pieces between slashes. -/
def pieces (p : Path) : List String := (p.text.toList.splitOn '/').map String.ofList

/-- A piece at a position means something. -/
def isMeaningful (absolute : Bool) (piece : String × Nat) : Bool :=
  piece.1 != "" && (piece.1 != "." || (piece.2 == 0 && !absolute))

/-- Without the pieces at the end that mean nothing. -/
def meaningful (absolute : Bool) (pieces : List (String × Nat)) : List (String × Nat) :=
  (pieces.reverse.dropWhile (!isMeaningful absolute ·)).reverse

/-- The path of the directory that the last meaningful piece lies in, and nothing for the root
    directory and the empty path. -/
def parent? (p : Path) : Option Path :=
  match (meaningful p.isAbsolute p.pieces.zipIdx).reverse with
  | [] => none
  | _ :: earlier =>
    let rest := (meaningful p.isAbsolute earlier.reverse).map (·.1)
    some ⟨if p.isAbsolute && rest.length ≤ 1 then "/" else "/".intercalate rest⟩

/-- The path `q` as seen from the directory `p`. -/
def join (p q : Path) : Path :=
  if q.isAbsolute then q
  else if p.text = "" || p.text.toList.getLast? == some '/' then ⟨p.text ++ q.text⟩
  else ⟨p.text ++ "/" ++ q.text⟩

/-- The path `q` as seen from the directory of the file `p`. -/
def beside (p q : Path) : Path :=
  match p.parent? with
  | some directory => directory.join q
  | none => q

end Path

end SerpentCsg
