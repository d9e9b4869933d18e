import SerpentCsg.Draft.Deck
import SerpentCsg.Geometry.Location
import SerpentCsg.Output.Xml

/-! # Conversion

  The lines of a geometry file as a geometry.
-/

namespace SerpentCsg

/-- A geometry, with what there is to warn about it. -/
structure Conversion (K : Type) where
  geometry : Geometry K
  /-- Warnings about universes in which nothing was declared. -/
  warnings : List String
  deriving Repr

namespace Conversion

variable {K : Type}

/-- The geometry of a draft, if everything that it refers to is declared. -/
def ofDraft (d : Draft K) : Except Report (Conversion K) :=
  match d.finish with
  | .ok geometry => .ok ⟨geometry, d.warnings⟩
  | .error fault => .error (.ofFault fault)

/-- The geometry of some lines, with cells made of the given materials. -/
def ofLines [Scalar K] (lines : List String) (materials : MaterialLibrary) :
    Except Report (Conversion K) :=
  match (Draft.new materials).addDeck (Card.deck lines) with
  | (_, some report) => .error report
  | (d, none) => ofDraft d

end Conversion

end SerpentCsg
