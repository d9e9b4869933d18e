import SerpentCsg.Card.Syntax
import SerpentCsg.Input.Fault

/-! # Collecting Lines

  The lines of a geometry file with every inclusion replaced by the lines of the file that it names.
  Paths of inclusions are seen from the directory of the including file.

  The files being read form a trail. A file on the trail is not read again, so that expansion
  ends: each step down adds a place of the disk to the trail.
-/

namespace SerpentCsg

/-! ### Lines of a file -/

/-- A line without the carriage return at its end. -/
def withoutReturn (line : List UInt8) : List UInt8 :=
  if line.getLast? = some 13 then line.dropLast else line

/-- Lines of bytes. A line feed ends a line and takes a carriage return before it along. -/
def byteLines (content : List UInt8) : List (List UInt8) :=
  let pieces := content.splitOn 10
  let last := pieces.getLast?.getD []
  pieces.dropLast.map withoutReturn ++ if last.isEmpty then [] else [last]

/-- Lines of a file, each of them text or not. -/
def fileLines (content : ByteArray) : List (Option String) :=
  (byteLines content.data.toList).map fun line => String.fromUTF8? ⟨line.toArray⟩

/-- The path of a line that includes a file. -/
def includedPath? (line : String) : Option Path :=
  (Card.readInclude (Card.withoutComment line.toList)).map fun (path, _) => ⟨path⟩

/-! ### Expansion -/

/-- What collecting gives: the lines so far and, if it was stopped, the fault and the trail it was
    stopped on. -/
structure Collected where
  lines : Array String
  stop : Option (FileFault × List Place)

/-- Lines of a file at the end of a trail, appended to lines collected before. Included files are
    collected by `descend`. -/
def expandLines (path : Path) (trail : List Place)
    (descend : Path → Array String → Collected) :
    List (Option String) → Array String → Collected
  | [], lines => ⟨lines, none⟩
  | none :: _, lines => ⟨lines, some (.reading .notText, trail)⟩
  | some line :: rest, lines =>
    match includedPath? line with
    | none => expandLines path trail descend rest (lines.push line)
    | some included =>
      match descend (path.beside included) lines with
      | ⟨lines, none⟩ => expandLines path trail descend rest lines
      | ⟨lines, some (fault, trail)⟩ => ⟨lines, some (.including path fault, trail)⟩

/-- Number of places of a disk that are not on a trail. -/
def placesLeft (disk : Disk) (trail : List Place) : Nat :=
  disk.places.countP fun place => !trail.contains place

/-- Counting fewer elements of a list, one of which is left out, gives less. -/
theorem countP_lt_countP {α : Type} {p q : α → Bool} {l : List α} {a : α}
    (hle : ∀ x, q x = true → p x = true) (ha : a ∈ l) (hp : p a = true) (hq : q a = false) :
    l.countP q < l.countP p := by
  induction l with
  | nil => cases ha
  | cons b l ih =>
    have hmono : l.countP q ≤ l.countP p := List.countP_mono_left fun x _ hx => hle x hx
    rcases List.mem_cons.1 ha with rfl | hmem
    · simp only [List.countP_cons, hp, hq, if_true, Bool.false_eq_true, if_false]
      omega
    · have hlt := ih hmem
      have hhead : q b = true → p b = true := hle b
      by_cases hb : q b = true
      · simp only [List.countP_cons, hb, hhead hb, if_true]
        omega
      · simp only [List.countP_cons, hb, Bool.false_eq_true, if_false]
        omega

/-- A place that joins the trail is one place less to go to. -/
theorem placesLeft_cons_lt {disk : Disk} {trail : List Place} {place : Place} {node : Node}
    (hnode : disk.node? place = some node) (hnew : place ∉ trail) :
    placesLeft disk (place :: trail) < placesLeft disk trail := by
  apply countP_lt_countP (a := place)
  · intro x hx
    simp_all
  · exact Disk.mem_places_of_node? hnode
  · simpa using hnew
  · simp

set_option linter.unusedVariables false in
/-- The lines of a file, appended to lines collected before, while the files of a trail are being
    read. -/
def collect (disk : Disk) (trail : List Place) (path : Path) (lines : Array String) : Collected :=
  match disk.resolve path with
  | .error fault => ⟨lines, some (.opening path fault, trail)⟩
  | .ok place =>
    if hseen : place ∈ trail then ⟨lines, some (.inclusionCycle path, trail)⟩
    else
      match hnode : disk.node? place with
      | none => ⟨lines, some (.opening path .missing, trail)⟩
      | some node =>
        match Disk.checkOpening path, node with
        | .error fault, _ => ⟨lines, some (.opening path fault, place :: trail)⟩
        | .ok _, .directory => ⟨lines, some (.reading .isDirectory, place :: trail)⟩
        | .ok _, .file content =>
          expandLines path (place :: trail)
            (fun path lines => collect disk (place :: trail) path lines)
            (fileLines content) lines
termination_by placesLeft disk trail
decreasing_by exact placesLeft_cons_lt hnode hseen

end SerpentCsg
