import SerpentCsg.Proofs.Output.Escape

/-! # Texts of Elements

  The elements of a document as they stand in it, character by character. A tag holds what an
  element says, and `text` is the element that says so. Tags know nothing of a geometry, nor of the
  way that elements are put together from attributes: each text is spelled out, with the numbers of
  vectors and matrices one by one.

  That the elements of a cell, a lattice and a surface are such texts is shown for each of them.
  What the tag of a thing holds, and which numbers it refers to others by, is another
  question, which is left to those who ask it.
-/

namespace SerpentCsg.Output

variable {K : Type}

/-! ### Names -/

/-- The text stands for the name in an attribute value: it can be decoded, and nothing in it ends
    the value or opens a tag. -/
structure NameWritten (name text : String) : Prop where
  decoded : decode text.toList = name.toList
  closed : ∀ c ∈ text.toList, c ≠ '<' ∧ c ≠ '>' ∧ c ≠ '"'

theorem nameWritten (name : String) : NameWritten name (nameText name) where
  decoded := by rw [nameText, String.toList_ofList, decode_escape]
  closed := by
    rw [nameText, String.toList_ofList]
    exact fun _ => ne_of_mem_escape

/-! ### Tags -/

/-- What the element of a cell says. -/
structure CellTag (K : Type) where
  id : Nat
  /-- The name as an attribute value. -/
  name : String
  /-- Number of the universe that the cell is in. -/
  parent : Nat
  /-- The key and the value of what fills the cell. -/
  fill : String × String
  region : Option String
  translation : Option (Vec3 K)
  rotation : Option (Mat3 K)

/-- What the element of a lattice says. -/
structure LatticeTag (K : Type) where
  id : Nat
  /-- The name as an attribute value. -/
  name : String
  pitch : Vec2 K
  columns : Nat
  rows : Nat
  lowerLeft : Vec2 K
  /-- Numbers of universes, row by row from the top. -/
  universes : List (List Nat)

/-- What the element of a surface says. -/
structure SurfaceTag (K : Type) where
  id : Nat
  /-- The name as an attribute value. -/
  name : String
  type : String
  coefficients : List K
  boundary : Option String

/-! ### Their texts -/

/-- An attribute as it stands in a tag, with a space in front. -/
def field (key value : String) : String := " " ++ key ++ "=\"" ++ value ++ "\""

/-- An attribute that need not be there. -/
def field? (key : String) : Option String → String
  | none => ""
  | some value => field key value

/-- Numbers of universes, a line for each row, and one space between the numbers of a row. -/
def rowsText (rows : List (List Nat)) : String :=
  "\n".intercalate (rows.map fun row => " ".intercalate (row.map Nat.repr))

variable [Scalar K]

/-- The two components of a vector in the plane. -/
def pairText (v : Vec2 K) : String := Scalar.text v.x ++ " " ++ Scalar.text v.y

/-- The three components of a vector. -/
def vectorText (v : Vec3 K) : String :=
  Scalar.text v.x ++ " " ++ Scalar.text v.y ++ " " ++ Scalar.text v.z

/-- The nine entries of a matrix, row by row. -/
def matrixText (m : Mat3 K) : String :=
  Scalar.text m.first.x ++ " " ++ Scalar.text m.first.y ++ " " ++ Scalar.text m.first.z ++ " " ++
  Scalar.text m.second.x ++ " " ++ Scalar.text m.second.y ++ " " ++ Scalar.text m.second.z ++ " " ++
  Scalar.text m.third.x ++ " " ++ Scalar.text m.third.y ++ " " ++ Scalar.text m.third.z

/-- The element of a cell. -/
def CellTag.text (t : CellTag K) : String :=
  "  <cell" ++ field "id" t.id.repr ++ field "name" t.name ++ field "universe" t.parent.repr ++
    field t.fill.1 t.fill.2 ++ field? "region" t.region ++
    field? "translation" (t.translation.map vectorText) ++
    field? "rotation" (t.rotation.map matrixText) ++ " />\n"

/-- The element of a lattice. -/
def LatticeTag.text (t : LatticeTag K) : String :=
  "  <lattice" ++ field "id" t.id.repr ++ field "name" t.name ++ ">\n" ++
    ("    <pitch>" ++ pairText t.pitch ++ "</pitch>\n") ++
    ("    <dimension>" ++ (t.columns.repr ++ " " ++ t.rows.repr) ++ "</dimension>\n") ++
    ("    <lower_left>" ++ pairText t.lowerLeft ++ "</lower_left>\n") ++
    "    <universes>\n" ++ rowsText t.universes ++ "\n    </universes>\n" ++
    "  </lattice>\n"

/-- The element of a surface. -/
def SurfaceTag.text (t : SurfaceTag K) : String :=
  "  <surface" ++ field "id" t.id.repr ++ field "name" t.name ++ field "type" t.type ++
    field "coeffs" (" ".intercalate (t.coefficients.map Scalar.text)) ++
    field? "boundary" t.boundary ++ " />\n"

/-! ### Attributes -/

/-- A text with an attribute behind it. -/
def addField (text : String) (entry : String × String) : String := text ++ field entry.1 entry.2

/-- Attributes behind the name of a tag, with spaces between them, are attributes with a space in
    front of each. -/
theorem open_attributesText (tag : String) {start : String} (hstart : start = tag ++ " ")
    {entries : List (String × String)} (h : entries ≠ []) :
    start ++ attributesText entries = entries.foldl addField tag := by
  induction entries generalizing tag start with
  | nil => exact absurd rfl h
  | cons entry entries ih =>
    have hfirst : start ++ attributeText entry = addField tag entry := by
      rw [hstart]
      simp only [attributeText, addField, field, String.append_assoc]
    rw [List.foldl_cons, ← hfirst]
    cases entries with
    | nil => simp [attributesText]
    | cons next entries =>
      rw [← ih _ rfl (List.cons_ne_nil _ _)]
      simp only [attributesText, List.map_cons, String.intercalate_cons_cons, String.append_assoc]

theorem foldl_field? (key : String) (value : Option String) (text : String) :
    (value.map fun value => (key, value)).toList.foldl addField text = text ++ field? key value := by
  cases value with
  | none => exact String.append_empty.symm
  | some value => rfl

/-! ### Elements of a geometry -/

theorem listText_pair (v : Vec2 K) : Scalar.listText v.toList = pairText v := rfl

theorem listText_vector (v : Vec3 K) : Scalar.listText v.toList = vectorText v := rfl

theorem listText_matrix (m : Mat3 K) : Scalar.listText m.toList = matrixText m := rfl

/-- What is written about a cell. -/
def cellTag (g : Geometry K) (c : Cell K) : CellTag K where
  id := c.id
  name := nameText c.name
  parent := universeNumber g c.parent
  fill := fillAttribute g c.fill
  region := c.region.map Region.unsignedText
  translation := c.shift
  rotation := c.inwardRotation

theorem cellAttributes_eq (g : Geometry K) (c : Cell K) :
    cellAttributes g c =
      [("id", c.id.repr), ("name", nameText c.name),
        ("universe", (universeNumber g c.parent).repr), fillAttribute g c.fill] ++
      ((c.region.map Region.unsignedText).map fun text => ("region", text)).toList ++
      ((c.shift.map vectorText).map fun text => ("translation", text)).toList ++
      ((c.inwardRotation.map matrixText).map fun text => ("rotation", text)).toList := by
  simp only [cellAttributes, Option.map_map, Function.comp_def, listText_vector, listText_matrix]

theorem cellElement_eq (g : Geometry K) (c : Cell K) : cellElement g c = (cellTag g c).text := by
  have hne : cellAttributes g c ≠ [] := by
    rw [cellAttributes_eq]
    exact List.cons_ne_nil _ _
  have hopen : "  <cell " ++ attributesText (cellAttributes g c) =
      (cellAttributes g c).foldl addField "  <cell" :=
    open_attributesText "  <cell" rfl hne
  rw [cellElement, hopen, cellAttributes_eq, List.foldl_append, List.foldl_append,
    List.foldl_append, foldl_field?, foldl_field?, foldl_field?]
  rfl

/-- What is written about a lattice on a universe. -/
def latticeTag (g : Geometry K) (u : Universe K) (l : Lattice K) : LatticeTag K where
  id := u.id
  name := nameText u.name
  pitch := l.pitch
  columns := l.columns
  rows := l.rows
  lowerLeft := l.lowerLeft
  universes := latticeNumbers g l

theorem textElement_eq {tag start stop : String} (hstart : "    <" ++ tag ++ ">" = start)
    (hstop : "</" ++ tag ++ ">\n" = stop) (text : String) :
    textElement tag text = start ++ text ++ stop := by
  rw [← hstart, ← hstop, textElement]
  simp only [String.append_assoc]

theorem latticeElement_eq (g : Geometry K) (u : Universe K) (l : Lattice K) :
    latticeElement g u l = (latticeTag g u l).text := by
  have hopen : "  <lattice " ++ attributesText [("id", u.id.repr), ("name", nameText u.name)] =
      "  <lattice" ++ field "id" u.id.repr ++ field "name" (nameText u.name) :=
    open_attributesText "  <lattice" rfl (List.cons_ne_nil _ _)
  have hdimension : rowText [l.columns, l.rows] = l.columns.repr ++ " " ++ l.rows.repr := by
    simp [rowText]
  unfold latticeElement
  rw [hopen, textElement_eq rfl rfl, textElement_eq rfl rfl, textElement_eq rfl rfl, hdimension,
    listText_pair, listText_pair]
  rfl

/-- What is written about a surface. -/
def surfaceTag (s : Surface K) : SurfaceTag K where
  id := s.id
  name := nameText s.name
  type := s.kind.openmcType
  coefficients := s.kind.openmcCoefficients
  boundary := if s.boundary = .transmission then none else some s.boundary.word

theorem surfaceAttributes_eq (s : Surface K) :
    surfaceAttributes s =
      [("id", s.id.repr), ("name", nameText s.name), ("type", s.kind.openmcType),
        ("coeffs", " ".intercalate (s.kind.openmcCoefficients.map Scalar.text))] ++
      ((surfaceTag s).boundary.map fun text => ("boundary", text)).toList := by
  unfold surfaceAttributes surfaceTag
  dsimp only
  split <;> rfl

theorem surfaceElement_eq (s : Surface K) : surfaceElement s = (surfaceTag s).text := by
  have hne : surfaceAttributes s ≠ [] := by
    rw [surfaceAttributes_eq]
    exact List.cons_ne_nil _ _
  have hopen : "  <surface " ++ attributesText (surfaceAttributes s) =
      (surfaceAttributes s).foldl addField "  <surface" :=
    open_attributesText "  <surface" rfl hne
  rw [surfaceElement, hopen, surfaceAttributes_eq, List.foldl_append, foldl_field?]
  rfl

end SerpentCsg.Output
