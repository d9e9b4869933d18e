import SerpentCsg.Card.Syntax
import SerpentCsg.Disk.Basic
import SerpentCsg.Material

/-! # Reading Materials

  The materials of a document are its `material` start tags. Of the attributes only `id` and `name`
  are kept, and a material without a name is known by its number. Whatever does not have
  the form of such a tag is passed over.
-/

namespace SerpentCsg

open Text

/-! ### Start tags -/

namespace Tag

/-- The attributes of an element, in order. -/
abbrev Attributes := List (String × String)

/-- Characters of attribute names. -/
def isKeyChar (c : Char) : Bool := isLetter c || isDigit c || c == '_' || c == '-'

/-- Without the layout at the front. -/
def skipLayout (s : List Char) : List Char := s.dropWhile isLayout

/-- A name, an equals sign and a value in quotes of either kind, with any layout before each. -/
def attribute? : Scan (String × String) := fun s => do
  let (key, s) ← run isKeyChar (skipLayout s)
  let s ← afterText ['='] (skipLayout s)
  let s := skipLayout s
  let (value, rest) ← (Card.between '"' s).or (Card.between '\'' s)
  return ((String.ofList key, String.ofList value), rest)

/-- The name of an element ends here. -/
def atTagBreak : List Char → Bool
  | [] => false
  | c :: _ => isWhite c || c == '>' || c == '/'

/-- What follows the end of a start tag. -/
def afterTagEnd (s : List Char) : Option (List Char) :=
  let s := skipLayout s
  (afterText ['/', '>'] s).or (afterText ['>'] s)

/-- The start tag of an element of a given name, with at most so many attributes. -/
def startTag? (limit : Nat) (element : String) : Scan Attributes := fun s => do
  let s ← afterText ('<' :: element.toList) s
  if atTagBreak s then
    let (attributes, s) := manyAtMost attribute? limit s
    let rest ← afterTagEnd s
    return (attributes, rest)
  else none

/-- The attributes of every start tag of an element in the first so many characters of a text. -/
def startTags (element : String) : Nat → List Char → List Attributes
  | 0, _ => []
  | _ + 1, [] => []
  | limit + 1, c :: s =>
    match startTag? (limit + 1) element (c :: s) with
    | some (attributes, rest) => attributes :: startTags element limit rest
    | none => startTags element limit s

/-- The value of the first attribute of a name. -/
def value? (attributes : Attributes) (key : String) : Option String :=
  (attributes.find? fun entry => entry.1 == key).map (·.2)

end Tag

/-! ### Materials of a document -/

/-- What is wrong with a material. -/
inductive MaterialFault where
  /-- It has no number. -/
  | noId
  /-- Its number cannot be read. -/
  | unreadableId (text : String)
  deriving Repr, DecidableEq

/-- The report on a fault. -/
def MaterialFault.message : MaterialFault → String
  | noId => "Material without an id"
  | unreadableId text => "Failed to parse material id \"" ++ text ++ "\""

namespace Material

/-- The material of a start tag. -/
def ofTag (attributes : Tag.Attributes) : Except MaterialFault Material :=
  match Tag.value? attributes "id" with
  | none => .error .noId
  | some text =>
    match natural? max32 (trim text.toList) with
    | none => .error (.unreadableId text)
    | some id =>
      let name := trim ((Tag.value? attributes "name").getD "").toList
      .ok ⟨id, if name.isEmpty then id.repr else String.ofList name⟩

end Material

namespace MaterialLibrary

/-- The library with the materials of some start tags, up to the first that is faulty. -/
def addTags (library : MaterialLibrary) :
    List Tag.Attributes → MaterialLibrary × Option MaterialFault
  | [] => (library, none)
  | tag :: tags =>
    match Material.ofTag tag with
    | .ok material => (library.insert material).addTags tags
    | .error fault => (library, some fault)

/-- The library with the materials of a document, up to the first that is faulty. -/
def addDocument (library : MaterialLibrary) (document : String) :
    MaterialLibrary × Option MaterialFault :=
  let s := document.toList
  library.addTags (Tag.startTags "material" s.length s)

end MaterialLibrary

end SerpentCsg
