import SerpentCsg.Disk.Basic
import SerpentCsg.Fault
import SerpentCsg.Input.Materials

/-! # Faults of Files

  What can go wrong with files, from the outermost circumstance to the innermost cause.
-/

namespace SerpentCsg

/-- Why a file could not be read or written. -/
inductive FileFault where
  /-- A file cannot be opened. -/
  | opening (path : Path) (cause : DiskFault)
  /-- A file includes itself. -/
  | inclusionCycle (path : Path)
  /-- A file that was opened cannot be read. -/
  | reading (cause : DiskFault)
  /-- Something is wrong with a file that another file includes. -/
  | including (path : Path) (cause : FileFault)
  /-- Something is wrong with the materials of a file. -/
  | materials (path : Path) (cause : MaterialFault)
  /-- Something is wrong with the geometry of a file. -/
  | converting (path : Path) (cause : Report)
  /-- A file cannot be made. -/
  | creating (path : Path) (cause : DiskFault)
  deriving Repr, DecidableEq

namespace FileFault

/-- The messages from the outermost to the innermost. -/
def messages : FileFault → List String
  | opening path cause => ["Could not open " ++ path.text, cause.message]
  | inclusionCycle path => [path.text ++ " includes itself"]
  | reading cause => [cause.message]
  | including path cause => ("Failed to include from " ++ path.text) :: cause.messages
  | materials path cause => ["Failed to read materials from " ++ path.text, cause.message]
  | converting path cause => ("Failed to translate " ++ path.text) :: cause.messages
  | creating path cause => ["Unable to create " ++ path.text, cause.message]

/-- All messages on one line. -/
def message (fault : FileFault) : String := ": ".intercalate fault.messages

/-! ### Over several lines -/

/-- A message with the lines after its first indented. -/
def continued (indent : String) (message : String) : String :=
  let lines := (message.toList.splitOn '\n').map String.ofList
  ("\n" ++ indent).intercalate lines

/-- A cause, numbered if there are several. -/
def causeText (numbered : Bool) (entry : String × Nat) : String :=
  if numbered then
    let number := entry.2.repr
    let margin := String.ofList (List.replicate (5 - number.length) ' ')
    margin ++ number ++ ": " ++ continued "       " entry.1
  else "    " ++ continued "    " entry.1

/-- The outermost message, and below it the causes. -/
def report (fault : FileFault) : String :=
  match fault.messages with
  | [] => ""
  | [outermost] => outermost
  | outermost :: causes =>
    let lines := causes.zipIdx.map (causeText (2 ≤ causes.length))
    outermost ++ "\n\nCaused by:\n" ++ "\n".intercalate lines

end FileFault

end SerpentCsg
