import SerpentCsg.CommandLine

/-! # The Program

  The outer layer. It looks up on the real disk what a job can touch, hands that to the pure program
  as a `Disk`, and carries out what comes back: it writes the files that have changed and
  shows what there is to show.

  Links are followed to what they lead to, and then forgotten.
-/

namespace SerpentCsg.Main

open CommandLine (Ending Job)

/-! ### Looking at the real disk -/

/-- The path of a place for the operating system. -/
def systemPath (place : Place) : String := "/" ++ "/".intercalate place

/-- A place of the real disk is a directory or a file, or there is nothing. The content of a
    file is left out. -/
def look (place : Place) : IO (Option Node) :=
  try
    let real ← IO.FS.realPath (systemPath place)
    return some (if ← real.isDir then .directory else .file .empty)
  catch _ => return none

/-- The disk with everything that a path leads through, and the place it leads to. A path
    that breaks off leads nowhere. -/
def walk (disk : Disk) (place : Place) : List String → IO (Disk × Option Place)
  | [] => return (disk, some place)
  | piece :: pieces => do
    if piece = "" ∨ piece = "." then walk disk place pieces
    else if piece = ".." then walk disk place.dropLast pieces
    else
      let next := place ++ [piece]
      if (disk.node? next).isSome then walk disk next pieces
      else
        match ← look next with
        | none => return (disk, none)
        | some node => walk { disk with nodes := disk.nodes.insert next node } next pieces

/-- The disk with everything on the way to a file that is to be written. -/
def surveyTarget (disk : Disk) (path : Path) : IO Disk :=
  return (← walk disk (disk.start path) path.pieces).1

/-- The disk with a file that is to be read, and the place of the file unless it was read before. -/
def surveySource (disk : Disk) (path : Path) (known : List Place) : IO (Disk × Option Place) := do
  match ← walk disk (disk.start path) path.pieces with
  | (disk, none) => return (disk, none)
  | (disk, some place) =>
    match disk.node? place with
    | some (.file _) =>
      if known.contains place then return (disk, none)
      let content ← IO.FS.readBinFile (systemPath place)
      return ({ disk with nodes := disk.nodes.insert place (.file content) }, some place)
    | _ => return (disk, none)

/-- The paths that the file at a place includes, as seen from where the program runs. -/
def inclusions (disk : Disk) (place : Place) (path : Path) : List Path :=
  match disk.node? place with
  | some (.file content) =>
    (fileLines content).filterMap fun line =>
      (line.bind includedPath?).map path.beside
  | _ => []

/-- The disk with some geometry files and everything that they include, as far as it is not known
    yet. -/
partial def surveyDeck (disk : Disk) (known : List Place) : List Path → IO Disk
  | [] => return disk
  | path :: paths => do
    match ← surveySource disk path known with
    | (disk, none) => surveyDeck disk known paths
    | (disk, some place) =>
      surveyDeck disk (place :: known) (inclusions disk place path ++ paths)

/-- Everything on the real disk that a job can touch. -/
def survey (job : Job) : IO Disk := do
  let here := (← IO.currentDir).toString
  let workingPlace := (Path.mk here).pieces.filter (· ≠ "")
  let disk ← surveyDeck (.empty workingPlace) [] [job.geometry]
  let disk := (← surveySource disk job.materials []).1
  let disk ← surveyTarget disk job.output
  match job.json with
  | some path => surveyTarget disk path
  | none => return disk

/-! ### Carrying out -/

/-- Writes every file that has changed. -/
def commit (before after : Disk) : IO Unit :=
  for (place, node) in after.nodes.entries do
    if let .file content := node then
      let old := match before.node? place with
        | some (.file old) => some old.data
        | _ => none
      if old ≠ some content.data then IO.FS.writeBinFile (systemPath place) content

/-- Shows how a run ended. -/
def present (ending : Ending) : IO Unit := do
  match ending.refusal with
  | some .help => IO.print CommandLine.usageText
  | some .usage => IO.eprint CommandLine.usageText
  | none => pure ()
  ending.warnings.forM (IO.eprintln ·)
  ending.error.forM (IO.eprint ·)

end SerpentCsg.Main

open SerpentCsg in
/-- Runs the program on the arguments of the command line. -/
def main (arguments : List String) : IO UInt32 := do
  try
    let disk ← match CommandLine.Job.ofArguments arguments with
      | .ok job => Main.survey job
      | .error _ => pure (Disk.empty [])
    let ending := CommandLine.run disk arguments
    Main.commit disk ending.disk
    Main.present ending
    return ending.status.toUInt32
  catch fault =>
    IO.eprintln ("Error: " ++ fault.toString)
    return 1
