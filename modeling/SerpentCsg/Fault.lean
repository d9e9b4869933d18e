/-! # Faults

  Everything that can be wrong with a geometry, by its cause, and how each cause is reported.
  A fault of a card is reported together with the line that the card starts on.
-/

namespace SerpentCsg

/-- Kinds of things that names are declared for. -/
inductive Entity where
  | surface
  | cell
  | universe
  | material
  deriving Repr, DecidableEq

/-- Word for the kind in messages. -/
def Entity.word : Entity → String
  | .surface => "surface"
  | .cell => "cell"
  | .universe => "universe"
  | .material => "material"

/-- A cause for which a geometry is refused. -/
inductive Fault where
  /-- No surface is known by this type. -/
  | unknownSurfaceType (name type : String)
  /-- The text does not have the form of a surface card. -/
  | unreadableSurface (text : String)
  /-- A cone whose height is zero. -/
  | flatCone (name : String)
  /-- Three points of a plane that lie on one line. -/
  | collinearPoints (name : String)
  /-- A surface with the wrong number of parameters. -/
  | parameterCount (name type expected : String) (found : Nat)
  /-- A prism with a face pair that is not in order. -/
  | thinPrism (name : String)
  /-- A hexagon without a positive apothem. -/
  | thinHexagon (name : String)
  /-- A cuboid with a face pair that is not in order. -/
  | thinCuboid (name : String)
  /-- A lattice of a type that has no rectangular form. -/
  | unknownLatticeType (name : String) (type : Nat)
  /-- The text does not have the form of a lattice card. -/
  | unreadableLattice (name : String)
  /-- A lattice card that ends within its header. -/
  | shortLatticeHeader (name : String) (expected found : Nat)
  /-- A word of a lattice header that should be a number. -/
  | latticeNumber (name word : String)
  /-- A word of a lattice header that should be a positive count. -/
  | latticeCount (name word : String)
  /-- A cuboidal lattice of several layers. -/
  | latticeLayers (name : String)
  /-- A lattice whose elements have no positive width. -/
  | latticePitch (name : String)
  /-- A lattice with more elements than can be counted in 64 bits. -/
  | latticeSize (name : String) (columns rows : Nat)
  /-- A lattice with the wrong number of universe names. -/
  | latticeNames (name : String) (expected found : Nat)
  /-- The text does not have the form of a cell card. -/
  | unreadableCell (text : String)
  /-- A cell filled with the root universe or with its own. -/
  | forbiddenFill (cell parent fill : String)
  /-- A cell whose surface expression cannot be read. -/
  | unreadableExpression (cell expression : String)
  /-- A cell without surfaces. -/
  | noSurfaces (cell : String)
  /-- An outside cell that covers all of space. -/
  | outsideEverywhere (cell : String)
  /-- A cell that combines the infinite surface with others. -/
  | infiniteAmongOthers (cell : String)
  /-- A name that nothing is declared under. -/
  | unresolved (entity : Entity) (name : String)
  /-- A name that is declared a second time. -/
  | duplicate (entity : Entity) (name : String)
  /-- A word that stands for no boundary condition. -/
  | unknownBoundary (word : String)
  /-- More boundary conditions than there are axes. -/
  | boundaryCount (found : Nat)
  /-- A motion of something else than surfaces and universes. -/
  | unknownMotionTarget (letter : Char) (name : String)
  /-- A motion of a surface that stands for several surfaces or for none. -/
  | immovableSurface (name : String)
  /-- A motion of a universe without cells. -/
  | emptyUniverse (name : String)
  /-- A motion of a cell that has neither a region nor a filling universe. -/
  | nothingToMove (cell : String)
  /-- A torus turned off the coordinate axes. -/
  | tiltedTorus (name : String)
  /-- The text does not have the form of a motion card. -/
  | unreadableMotion (text : String)
  /-- A rotation matrix that is no rotation. -/
  | notARotation (name : String)
  /-- An order flag that is neither one nor two. -/
  | motionOrder (name order : String)
  /-- A motion card with the wrong number of numbers. -/
  | motionCount (name : String) (found : Nat)
  /-- A region expression that cannot be read from some place on. -/
  | unreadableRegion (expression rest : String)
  deriving Repr, DecidableEq

namespace Fault

/-! ### Wording -/

/-- Report on a surface that is not as it should be. -/
def surfaceCard (complaint : String) : String := "erroneous surface card: " ++ complaint

/-- Report on a surface made of several faces. -/
def compositeSurface (name complaint : String) : String :=
  "erroneous composite surface " ++ name ++ ": " ++ complaint

/-- Report on a lattice that is not as it should be. -/
def latticeCard (name complaint : String) : String :=
  "erroneous lattice card for " ++ name ++ ": " ++ complaint

/-- Report on a cell that is not as it should be. -/
def cellCard (complaint : String) : String := "erroneous cell card: " ++ complaint

/-- Report on a motion of something that cannot be moved. -/
def motionTarget (target complaint : String) : String :=
  "cannot transform " ++ target ++ ": " ++ complaint

/-- Report on a motion that is not as it should be. -/
def motionCard (complaint : String) : String := "erroneous transformation card: " ++ complaint

/-- A text between double quotes. -/
def quoted (text : String) : String := "\"" ++ text ++ "\""

/-- The report on a fault. -/
def message : Fault → String
  | unknownSurfaceType name type =>
    "surfaces of type " ++ quoted type ++ " are not supported (surface " ++ name ++ ")"
  | unreadableSurface text => surfaceCard text
  | flatCone name => surfaceCard ("cone " ++ name ++ " has zero height")
  | collinearPoints name => surfaceCard ("plane " ++ name ++ " is defined by collinear points")
  | parameterCount name type expected found =>
    "surface " ++ name ++ " of type " ++ quoted type ++ " expects " ++ expected ++
      " parameters, found " ++ found.repr
  | thinPrism name => compositeSurface name "prism has no positive width"
  | thinHexagon name => compositeSurface name "hexagon apothem must be positive"
  | thinCuboid name => compositeSurface name "cuboid has no positive width"
  | unknownLatticeType name type =>
    "type " ++ type.repr ++ " lattices are not supported (lattice " ++ name ++ ")"
  | unreadableLattice name => latticeCard name "could not read the card"
  | shortLatticeHeader name expected found =>
    latticeCard name
      ("expected " ++ expected.repr ++ " values before the universe names, found " ++ found.repr)
  | latticeNumber name word => latticeCard name (quoted word ++ " is not a number")
  | latticeCount name word => latticeCard name (quoted word ++ " is not a positive element count")
  | latticeLayers name => latticeCard name "only single layer cuboidal lattices are supported"
  | latticePitch name => latticeCard name "pitch must be positive"
  | latticeSize name columns rows =>
    latticeCard name (columns.repr ++ "x" ++ rows.repr ++ " elements is too many")
  | latticeNames name expected found =>
    latticeCard name
      ("expected " ++ expected.repr ++ " universe names, found " ++ found.repr)
  | unreadableCell text => cellCard text
  | forbiddenFill cell parent fill =>
    cellCard ("cell " ++ cell ++ " in universe " ++ parent ++
      " cannot be filled with universe " ++ fill)
  | unreadableExpression cell expression =>
    cellCard ("cannot read the surfaces of cell " ++ cell ++ ": " ++ quoted expression)
  | noSurfaces cell => cellCard ("cell " ++ cell ++ " has no surfaces")
  | outsideEverywhere cell =>
    cellCard ("outside cell " ++ cell ++ " cannot cover all of space")
  | infiniteAmongOthers cell =>
    cellCard ("cell " ++ cell ++ " uses inf alongside other surfaces")
  | unresolved entity name => "reference to undeclared " ++ entity.word ++ " " ++ quoted name
  | duplicate entity name => entity.word ++ " " ++ quoted name ++ " is declared more than once"
  | unknownBoundary word => "boundary type " ++ quoted word ++ " is invalid"
  | boundaryCount found =>
    found.repr ++ " boundary conditions given, at most one per axis is allowed"
  | unknownMotionTarget letter name =>
    motionTarget (String.singleton letter ++ " " ++ name)
      "only surface (S) and universe (U) transformations are supported"
  | immovableSurface name =>
    motionTarget ("surface " ++ name) "composite and inf surfaces cannot be transformed"
  | emptyUniverse name => motionTarget ("universe " ++ name) "universe has no cells"
  | nothingToMove cell =>
    motionTarget ("cell " ++ cell) "cell has neither a region nor a universe to move"
  | tiltedTorus name =>
    motionTarget ("surface " ++ name) "tori can only be rotated onto a coordinate axis"
  | unreadableMotion text => motionCard text
  | notARotation name => motionCard (name ++ ": rotation matrix is not orthonormal")
  | motionOrder name order =>
    motionCard (name ++ ": " ++ order ++ " is not a valid order, use 1 or 2")
  | motionCount name found =>
    motionCard (name ++ ": expected 3, 7 or 13 numbers, found " ++ found.repr)
  | unreadableRegion expression rest =>
    "invalid region expression " ++ quoted expression ++ ": cannot read from " ++ quoted rest

end Fault

/-! ### Faults with their place -/

/-- A fault, with the line of the card it lies in where there is one. -/
structure Report where
  /-- Number of the line, counted from one. -/
  line : Option Nat
  /-- The fault itself. -/
  fault : Fault
  deriving Repr, DecidableEq

namespace Report

/-- A fault that belongs to no line. -/
def ofFault (fault : Fault) : Report := ⟨none, fault⟩

/-- The report placed on a line, unless it has its place already. -/
def atLine (report : Report) (line : Nat) : Report :=
  match report.line with
  | some _ => report
  | none => { report with line := some line }

/-- The messages from the outermost to the innermost: with the line, and without it. -/
def messages (report : Report) : List String :=
  match report.line with
  | some line =>
    ["line " ++ line.repr ++ ": " ++ report.fault.message, report.fault.message]
  | none => [report.fault.message]

/-- The report in one line. -/
def message (report : Report) : String := report.messages.headD ""

/-- A second line number changes nothing. -/
@[simp] theorem atLine_atLine (report : Report) (first second : Nat) :
    (report.atLine first).atLine second = report.atLine first := by
  cases h : report.line <;> simp [atLine, h]

end Report

end SerpentCsg
