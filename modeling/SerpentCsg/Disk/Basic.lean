import SerpentCsg.Disk.Path
import SerpentCsg.Table

/-! # Disks

  A finite tree of directories and files without links, and a working directory in it. Every file
  and directory has one *place*, the names that lead to it from the root. A path is followed
  name by name to a place, and each step must start in a directory that is there. To be opened, a
  path must not be too long as a whole either; that is told before any step is taken.
-/

namespace SerpentCsg

/-- The names that lead to a file or directory from the root. -/
abbrev Place := List String

/-- What is at a place. -/
inductive Node where
  | file (content : ByteArray)
  | directory

/-- Why a file cannot be used. -/
inductive DiskFault where
  /-- There is nothing at the path. -/
  | missing
  /-- The path leads through something that is no directory. -/
  | notDirectory
  /-- The path leads to a directory. -/
  | isDirectory
  /-- The path is too long, or a name in it. -/
  | tooLong
  /-- A name of the path holds the character that ends names. -/
  | nulInName
  /-- The content is not text. -/
  | notText
  deriving Repr, DecidableEq

/-- The report on a fault. -/
def DiskFault.message : DiskFault → String
  | missing => "No such file or directory (os error 2)"
  | notDirectory => "Not a directory (os error 20)"
  | isDirectory => "Is a directory (os error 21)"
  | tooLong => "File name too long (os error 36)"
  | nulInName => "file name contained an unexpected NUL byte"
  | notText => "stream did not contain valid UTF-8"

/-- A tree of directories and files. -/
structure Disk where
  /-- What is at each place other than the root. -/
  nodes : Table Place Node
  /-- Where relative paths start. -/
  workingPlace : Place

namespace Disk

/-- Most bytes that a name can have. -/
def nameLimit : Nat := 255

/-- Most bytes that a path can have to be opened. -/
def pathLimit : Nat := 4095

/-- What is at a place. The root is a directory. -/
def node? (disk : Disk) (place : Place) : Option Node :=
  if place = [] then some .directory else disk.nodes.find? place

/-- All places, the root included. -/
def places (disk : Disk) : List Place := [] :: disk.nodes.keys

/-- Only places have something at them. -/
theorem mem_places_of_node? {disk : Disk} {place : Place} {node : Node}
    (h : disk.node? place = some node) : place ∈ disk.places := by
  by_cases hroot : place = []
  · simp [places, hroot]
  · have hfound : disk.nodes.find? place = some node := by simpa [node?, hroot] using h
    have hkey : place ∈ disk.nodes.keys :=
      Table.mem_keys_iff.2 (by simp [Table.contains, hfound])
    simp [places, hkey]

/-! ### Following paths -/

/-- A place is a directory. -/
def requireDirectory (disk : Disk) (place : Place) : Except DiskFault Unit :=
  match disk.node? place with
  | some .directory => .ok ()
  | some (.file _) => .error .notDirectory
  | none => .error .missing

/-- One piece of a path followed from a place. -/
def step (disk : Disk) (place : Place) (piece : String) : Except DiskFault Place := do
  disk.requireDirectory place
  if piece = "" ∨ piece = "." then return place
  if piece = ".." then return place.dropLast
  if nameLimit < piece.utf8ByteSize then throw .tooLong
  match disk.node? (place ++ [piece]) with
  | some _ => return place ++ [piece]
  | none => throw .missing

/-- Where a path starts. -/
def start (disk : Disk) (p : Path) : Place := if p.isAbsolute then [] else disk.workingPlace

/-- A path can be followed at all. -/
def checkPath (p : Path) : Except DiskFault Unit :=
  if p.text = "" then .error .missing
  else if p.text.toList.contains (Char.ofNat 0) then .error .nulInName
  else .ok ()

/-- The place that a path leads to, however long the path is. -/
def resolve (disk : Disk) (p : Path) : Except DiskFault Place := do
  checkPath p
  p.pieces.foldlM disk.step (disk.start p)

/-! ### Reading and writing -/

/-- A path can be opened, if there is something to open. -/
def checkOpening (p : Path) : Except DiskFault Unit := do
  checkPath p
  if pathLimit < p.text.utf8ByteSize then throw .tooLong

/-- The bytes of a file. -/
def read (disk : Disk) (p : Path) : Except DiskFault ByteArray := do
  checkOpening p
  let place ← disk.resolve p
  match disk.node? place with
  | some (.file content) => return content
  | some .directory => throw .isDirectory
  | none => throw .missing

/-- The text of a file. -/
def readText (disk : Disk) (p : Path) : Except DiskFault String := do
  let content ← disk.read p
  match String.fromUTF8? content with
  | some text => return text
  | none => throw .notText

/-- The place of a file that may be new. Its directory must be there, and it must not be a
    directory itself. -/
def placeToWrite (disk : Disk) (p : Path) : Except DiskFault Place := do
  checkOpening p
  match (p.pieces.reverse.dropWhile (· == "")) with
  | [] => throw .isDirectory
  | name :: earlier =>
    let directory ← earlier.reverse.foldlM disk.step (disk.start p)
    disk.requireDirectory directory
    if name = "." ∨ name = ".." ∨ p.pieces.getLast? = some "" then throw .isDirectory
    if nameLimit < name.utf8ByteSize then throw .tooLong
    match disk.node? (directory ++ [name]) with
    | some .directory => throw .isDirectory
    | _ => return directory ++ [name]

/-- The disk with a text in a file, which is made if it is not there. -/
def write (disk : Disk) (p : Path) (text : String) : Except DiskFault Disk := do
  let place ← disk.placeToWrite p
  return { disk with nodes := disk.nodes.insert place (.file text.toUTF8) }

/-! ### Making disks -/

/-- The disk with a directory at a place and at every place on the way to it. -/
def addDirectory (disk : Disk) (place : Place) : Disk :=
  (List.range place.length).foldl
    (fun disk n =>
      let place := place.take (n + 1)
      if (disk.node? place).isSome then disk
      else { disk with nodes := disk.nodes.insert place .directory })
    disk

/-- The disk with a file at a place, and with the directories on the way to it. -/
def addFile (disk : Disk) (place : Place) (content : ByteArray) : Disk :=
  let disk := disk.addDirectory place.dropLast
  { disk with nodes := disk.nodes.insert place (.file content) }

/-- The disk that has nothing but its working directory. -/
def empty (workingPlace : Place) : Disk :=
  ({ nodes := .empty, workingPlace } : Disk).addDirectory workingPlace

end Disk

end SerpentCsg
