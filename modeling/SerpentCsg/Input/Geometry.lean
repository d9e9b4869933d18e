import SerpentCsg.Input.Lines
import SerpentCsg.Conversion

/-! # Reading Geometries and Materials

  Readers of files. A reader keeps what it has collected when reading fails, and starts
  afresh only after it has succeeded in collecting.
-/

namespace SerpentCsg

/-! ### Geometries -/

/-- A reader of geometry files. -/
structure GeometrySource where
  /-- Root universe to use instead of the one that the files name. -/
  root : Option String := none
  /-- Lines collected so far. -/
  lines : Array String := #[]
  /-- Files that are being read. -/
  trail : List Place := []

namespace GeometrySource

/-- The card that names the root universe, put after all other lines. -/
def rootLine (root : String) : String := "set root " ++ root

/-- The lines of a geometry with the card that names the root universe, if there is one. -/
def deckLines (source : GeometrySource) (lines : Array String) : List String :=
  lines.toList ++ (source.root.map rootLine).toList

/-- The geometry of a file, with cells made of the given materials, and the reader afterwards. -/
def read {K : Type} [Scalar K] (source : GeometrySource) (disk : Disk) (path : Path)
    (materials : MaterialLibrary) : GeometrySource × Except FileFault (Conversion K) :=
  match collect disk source.trail path source.lines with
  | ⟨lines, some (fault, trail)⟩ => ({ source with lines, trail }, .error fault)
  | ⟨lines, none⟩ =>
    let result := Conversion.ofLines (source.deckLines lines) materials
    ({ source with lines := #[] }, result.mapError (.converting path))

end GeometrySource

/-! ### Materials -/

namespace MaterialLibrary

/-- The materials of a file, added to those of a reader, and the reader's materials afterwards. -/
def readFrom (library : MaterialLibrary) (disk : Disk) (path : Path) :
    MaterialLibrary × Except FileFault MaterialLibrary :=
  match disk.readText path with
  | .error fault => (library, .error (.opening path fault))
  | .ok document =>
    match library.addDocument document with
    | (library, some fault) => (library, .error (.materials path fault))
    | (library, none) => (empty, .ok library)

end MaterialLibrary

/-! ### Writing -/

/-- The disk with a text in a file. -/
def Disk.writeText (disk : Disk) (path : Path) (text : String) : Except FileFault Disk :=
  (disk.write path text).mapError (.creating path)

end SerpentCsg
