import SerpentCsg.Table
import SerpentCsg.Identifier

/-! # Materials

  Of a material only its identity matters: the name that cells refer to it by, and its number.
-/

namespace SerpentCsg

/-- A material. -/
structure Material where
  /-- Number of the material. -/
  id : Nat
  name : String
  deriving Repr, DecidableEq

/-- The materials that cells can refer to, by name. -/
structure MaterialLibrary where
  /-- Materials under their names, in order of insertion. -/
  table : Table String Material
  deriving Repr

namespace MaterialLibrary

/-- The library without materials. -/
def empty : MaterialLibrary := ⟨.empty⟩

instance : Inhabited MaterialLibrary := ⟨empty⟩

/-- The library with one more material, which replaces any of the same name. -/
def insert (library : MaterialLibrary) (material : Material) : MaterialLibrary :=
  ⟨library.table.insert material.name material⟩

/-- The material of a name. -/
def find? (library : MaterialLibrary) (name : String) : Option Material := library.table.find? name

/-- There is a material of a name. -/
def contains (library : MaterialLibrary) (name : String) : Bool := library.table.contains name

/-- All materials in order. -/
def materials (library : MaterialLibrary) : List Material := library.table.values

/-- Number of materials. -/
def size (library : MaterialLibrary) : Nat := library.table.size

/-- There are no materials. -/
def isEmpty (library : MaterialLibrary) : Bool := library.table.entries.isEmpty

/-- The library of some materials, inserted from first to last. -/
def ofList (materials : List Material) : MaterialLibrary := materials.foldl insert empty

/-- The library of some names, each with the number that stands for it. -/
def ofNames (names : List String) : MaterialLibrary :=
  ofList (names.map fun name => ⟨Identifier.ofName name, name⟩)

end MaterialLibrary

end SerpentCsg
