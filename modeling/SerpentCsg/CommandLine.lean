import SerpentCsg.Input.Geometry
import SerpentCsg.Output.Dump

/-! # The Command Line

  The program takes a geometry and the materials of a model, and writes the geometry document.

      serpent-csg <geometry> <materials> [options]

  Arguments are read from left to right. The first one that cannot be used, or that asks for
  help, settles the matter.
-/

namespace SerpentCsg.CommandLine

/-! ### Arguments -/

/-- Options that take a value. -/
inductive ValueOption where
  /-- File for the geometry document. -/
  | output
  /-- File for a structured dump. -/
  | json
  /-- Name of the root universe. -/
  | root
  deriving Repr, DecidableEq

/-- Options that take no value. -/
inductive Flag where
  /-- More log output. -/
  | verbose
  /-- No log output. -/
  | quiet
  /-- Help instead of work. -/
  | help
  deriving Repr, DecidableEq

/-- What the arguments ask for. -/
structure Request where
  /-- Arguments that are no options, in order. -/
  files : List String := []
  output : Option String := none
  json : Option String := none
  root : Option String := none
  /-- How often more log output was asked for. -/
  verbosity : Nat := 0
  quiet : Bool := false
  deriving Repr, DecidableEq

/-- Why no work is done. -/
inductive Refusal where
  /-- Help was asked for. -/
  | help
  /-- The arguments cannot be used. -/
  | usage
  deriving Repr, DecidableEq

namespace Request

/-- The request with the value of an option, which must not have one yet. -/
def set (request : Request) (option : ValueOption) (value : String) : Except Refusal Request :=
  let old := match option with
    | .output => request.output
    | .json => request.json
    | .root => request.root
  if old.isSome then .error .usage
  else .ok <| match option with
    | .output => { request with output := some value }
    | .json => { request with json := some value }
    | .root => { request with root := some value }

/-- The request with a flag. Only the one for more output can be repeated. -/
def raise (request : Request) : Flag → Except Refusal Request
  | .help => .error .help
  | .verbose => .ok { request with verbosity := request.verbosity + 1 }
  | .quiet => if request.quiet then .error .usage else .ok { request with quiet := true }

/-- The request with one more file. There are two of them. -/
def addFile (request : Request) (file : String) : Except Refusal Request :=
  if request.files.length < 2 then .ok { request with files := request.files ++ [file] }
  else .error .usage

end Request

/-! ### Options -/

/-- The option that a long name stands for. -/
def longOption? : String → Option (ValueOption ⊕ Flag)
  | "output" => some (.inl .output)
  | "json" => some (.inl .json)
  | "root" => some (.inl .root)
  | "verbose" => some (.inr .verbose)
  | "quiet" => some (.inr .quiet)
  | "help" => some (.inr .help)
  | _ => none

/-- The option that a letter stands for. -/
def shortOption? : Char → Option (ValueOption ⊕ Flag)
  | 'o' => some (.inl .output)
  | 'r' => some (.inl .root)
  | 'v' => some (.inr .verbose)
  | 'q' => some (.inr .quiet)
  | 'h' => some (.inr .help)
  | _ => none

/-- An argument, by its form. -/
inductive Argument where
  /-- Two hyphens alone: only files follow. -/
  | separator
  /-- An option by its name, possibly with a value after an equals sign. -/
  | long (name : String) (value : Option String)
  /-- Options by their letters. -/
  | short (letters : List Char)
  /-- Any other argument, also a hyphen alone. -/
  | plain (text : String)
  deriving Repr, DecidableEq

/-- The form of an argument. -/
def Argument.ofText (text : String) : Argument :=
  match text.toList with
  | ['-', '-'] => .separator
  | '-' :: '-' :: rest =>
    let name := String.ofList (rest.takeWhile (· != '='))
    match rest.dropWhile (· != '=') with
    | [] => .long name none
    | _ :: value => .long name (some (String.ofList value))
  | '-' :: c :: rest => .short (c :: rest)
  | _ => .plain text

/-- The value that stands in the same argument as the letter of its option, possibly after an
    equals sign. -/
def attachedValue? : List Char → Option String
  | [] => none
  | '=' :: value => some (String.ofList value)
  | value => some (String.ofList value)

/-- What the letters of an argument ask for, and the option that waits for a value. -/
def readLetters (request : Request) : List Char → Except Refusal (Request × Option ValueOption)
  | [] => .ok (request, none)
  | c :: rest =>
    match shortOption? c with
    | none => .error .usage
    | some (.inr flag) => do readLetters (← request.raise flag) rest
    | some (.inl option) =>
      match attachedValue? rest with
      | some value => do return (← request.set option value, none)
      | none => .ok (request, some option)

/-- What a long option asks for, and the option that waits for a value. -/
def readLong (request : Request) (name : String) (value : Option String) :
    Except Refusal (Request × Option ValueOption) :=
  match longOption? name, value with
  | none, _ => .error .usage
  | some (.inr _), some _ => .error .usage
  | some (.inr flag), none => do return (← request.raise flag, none)
  | some (.inl option), some value => do return (← request.set option value, none)
  | some (.inl option), none => .ok (request, some option)

/-- What one argument asks for by itself, and the option that waits for a value. -/
def readArgument (request : Request) :
    Argument → Except Refusal (Request × Option ValueOption)
  | .separator => .ok (request, none)
  | .long name value => readLong request name value
  | .short letters => readLetters request letters
  | .plain text => do return (← request.addFile text, none)

/-- What some arguments ask for. An option that waits takes the next argument, which must not
    look like an option. -/
def readArguments (request : Request) (waiting : Option ValueOption) :
    List String → Except Refusal Request
  | [] => if waiting.isSome then .error .usage else .ok request
  | text :: rest =>
    match waiting, Argument.ofText text with
    | some option, .plain value => do readArguments (← request.set option value) none rest
    | some _, _ => .error .usage
    | none, .separator => rest.foldlM Request.addFile request
    | none, argument => do
      let (request, waiting) ← readArgument request argument
      readArguments request waiting rest

/-- The work to do: where things are read from and written to. -/
structure Job where
  geometry : Path
  materials : Path
  output : Path
  json : Option Path
  root : Option String
  verbosity : Nat
  quiet : Bool
  deriving Repr, DecidableEq

/-- File for the geometry document if none is asked for. -/
def defaultOutput : String := "geometry.xml"

/-- The work that the arguments ask for. -/
def Job.ofArguments (arguments : List String) : Except Refusal Job := do
  let request ← readArguments {} none arguments
  match request.files with
  | [geometry, materials] =>
    return {
      geometry := ⟨geometry⟩
      materials := ⟨materials⟩
      output := ⟨request.output.getD defaultOutput⟩
      json := request.json.map Path.mk
      root := request.root
      verbosity := request.verbosity
      quiet := request.quiet }
  | _ => throw .usage

/-! ### Work -/

/-- What a job leaves behind. -/
structure Completed where
  /-- The disk with the files that were written. -/
  disk : Disk
  /-- Warnings on the way. -/
  warnings : List String
  /-- Why the job was not done to its end. -/
  fault : Option FileFault

/-- Reads what a job needs and converts it. -/
def Job.convert (job : Job) (disk : Disk) : Except FileFault (Conversion Float) := do
  let materials ← (MaterialLibrary.empty.readFrom disk job.materials).2
  (({ root := job.root } : GeometrySource).read disk job.geometry materials).2

/-- Does a job. The document is written before the dump is tried. -/
def Job.run (job : Job) (disk : Disk) : Completed :=
  match job.convert disk with
  | .error fault => ⟨disk, [], some fault⟩
  | .ok conversion =>
    let geometry := conversion.geometry
    let warnings := conversion.warnings ++ Output.documentWarnings geometry
    match disk.writeText job.output (Output.geometryDocument geometry) with
    | .error fault => ⟨disk, warnings, some fault⟩
    | .ok disk =>
      match job.json with
      | none => ⟨disk, warnings, none⟩
      | some path =>
        match disk.writeText path (Output.dumpGeometry geometry).pretty with
        | .error fault => ⟨disk, warnings, some fault⟩
        | .ok disk => ⟨disk, warnings, none⟩

/-! ### Results -/

/-- How a run of the program ends. -/
structure Ending where
  /-- The disk with the files that were written. -/
  disk : Disk
  /-- Exit status: zero for work done and for help, one for work that failed, two for arguments
      that cannot be used. -/
  status : Nat
  /-- Why the arguments were refused. -/
  refusal : Option Refusal
  /-- Warnings to show; none if log output is not wanted. -/
  warnings : List String
  /-- The report on what failed. -/
  error : Option String

/-- Exit status for refused arguments. -/
def Refusal.status : Refusal → Nat
  | help => 0
  | usage => 2

/-- How the program is used. -/
def usageText : String :=
  "Usage: serpent-csg <geometry> <materials> [options]\n\n" ++
  "Options:\n" ++
  "  -o, --output <path>  Output file, geometry.xml if not given\n" ++
  "      --json <path>    Also write the geometry as JSON\n" ++
  "  -r, --root <name>    Name of the root universe\n" ++
  "  -v, --verbose        More log output\n" ++
  "  -q, --quiet          No log output\n" ++
  "  -h, --help           This help\n"

/-- The text that a fault is reported with. -/
def errorText (fault : FileFault) : String := "Error: " ++ fault.report ++ "\n"

/-- A run of the program. -/
def run (disk : Disk) (arguments : List String) : Ending :=
  match Job.ofArguments arguments with
  | .error refusal => ⟨disk, refusal.status, some refusal, [], none⟩
  | .ok job =>
    let completed := job.run disk
    let status := if completed.fault.isSome then 1 else 0
    let warnings := if job.quiet then [] else completed.warnings
    ⟨completed.disk, status, none, warnings, completed.fault.map errorText⟩

end SerpentCsg.CommandLine
