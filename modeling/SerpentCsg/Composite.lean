import SerpentCsg.Region.Basic

/-! # Composite Surfaces

  Some surfaces of a card stand for several faces: prisms and boxes. The inside of such a surface is
  the intersection of one side of each face.

  A composite is generic in what it says about a face. The faces are surfaces while a card is
  being read, and the numbers of registered surfaces afterwards.
-/

namespace SerpentCsg

/-- Which faces of a hexagonal prism are normal to an axis. -/
inductive HexFlats where
  /-- The first two faces are normal to the x axis. -/
  | x
  /-- The first two faces are normal to the y axis. -/
  | y
  deriving Repr, DecidableEq

/-- A surface made of several faces. -/
inductive Composite (α : Type) where
  /-- Rectangular prism along the z axis. -/
  | rectPrism (left right bottom top : α)
  /-- Hexagonal prism along the z axis. -/
  | hexPrism (flats : HexFlats) (a b c d e f : α)
  /-- Box along the coordinate axes. -/
  | cuboid (xmin xmax ymin zmin ymax zmax : α)
  deriving Repr, DecidableEq

namespace Composite

variable {α β σ : Type}

/-- Each face with the side of it that the inside is on. -/
def sides : Composite α → List (α × Side)
  | rectPrism left right bottom top =>
    [(left, .positive), (right, .negative), (bottom, .positive), (top, .negative)]
  | hexPrism .x a b c d e f =>
    [(a, .positive), (b, .negative), (c, .positive), (d, .positive), (e, .negative), (f, .negative)]
  | hexPrism .y a b c d e f =>
    [(a, .positive), (b, .negative), (c, .positive), (d, .negative), (e, .negative), (f, .positive)]
  | cuboid xmin xmax ymin zmin ymax zmax =>
    [(xmin, .positive), (xmax, .negative), (ymin, .positive), (zmin, .positive),
     (ymax, .negative), (zmax, .negative)]

/-- The faces in order. -/
def faces (c : Composite α) : List α := c.sides.map (·.1)

/-- The composite with every face changed, from first to last, by a step that also carries a
    state along. -/
def mapAccum (step : σ → α → σ × β) (s : σ) : Composite α → σ × Composite β
  | rectPrism left right bottom top =>
    let (s, left) := step s left
    let (s, right) := step s right
    let (s, bottom) := step s bottom
    let (s, top) := step s top
    (s, rectPrism left right bottom top)
  | hexPrism flats a b c d e f =>
    let (s, a) := step s a
    let (s, b) := step s b
    let (s, c) := step s c
    let (s, d) := step s d
    let (s, e) := step s e
    let (s, f) := step s f
    (s, hexPrism flats a b c d e f)
  | cuboid xmin xmax ymin zmin ymax zmax =>
    let (s, xmin) := step s xmin
    let (s, xmax) := step s xmax
    let (s, ymin) := step s ymin
    let (s, zmin) := step s zmin
    let (s, ymax) := step s ymax
    let (s, zmax) := step s zmax
    (s, cuboid xmin xmax ymin zmin ymax zmax)

/-- The half-spaces whose intersection is the inside. -/
def inside (c : Composite Nat) : List Halfspace := c.sides.map fun (id, side) => ⟨id, side⟩

/-- The inside as a region. -/
def region (c : Composite Nat) : Region := .intersection (c.inside.map .halfspace)

/-- The half-spaces lie at the faces. -/
@[simp] theorem map_surface_inside (c : Composite Nat) :
    c.inside.map (·.surface) = c.faces := by
  simp [inside, faces]

/-! ### Composites by their form -/

/-- The form of a composite, whatever its faces are. -/
def outline (c : Composite α) : Composite Unit :=
  (c.mapAccum (fun (_ : Unit) _ => ((), ())) ()).2

theorem outline_mapAccum (step : σ → α → σ × β) (s : σ) (c : Composite α) :
    (c.mapAccum step s).2.outline = c.outline := by
  cases c <;> rfl

/-- The form tells the number of faces. -/
theorem length_faces_outline (c : Composite α) : c.outline.faces.length = c.faces.length := by
  cases c with
  | hexPrism flats => cases flats <;> rfl
  | _ => rfl

/-- The composite that some faces make up, if there are as many as a card of its type asks for. -/
def ofFaces? (type : String) : List α → Option (Composite α)
  | [left, right, bottom, top] =>
    if type = "sqc" ∨ type = "rect" then some (rectPrism left right bottom top) else none
  | [a, b, c, d, e, f] =>
    if type = "hexxc" then some (hexPrism .x a b c d e f)
    else if type = "hexyc" then some (hexPrism .y a b c d e f)
    else some (cuboid a b c d e f)
  | _ => none

/-- A composite is that of its faces, if the one with other faces in their place is. -/
theorem ofFaces?_faces {type : String} {c : Composite α} {c' : Composite β}
    (h : ofFaces? type c.faces = some c) (hform : c'.outline = c.outline) :
    ofFaces? type c'.faces = some c' := by
  -- The faces are as many, and the type decides alike on what they make up.
  cases c with
  | rectPrism =>
    cases c' with
    | rectPrism =>
      simp only [faces, sides, List.map, ofFaces?] at h ⊢
      grind
    | hexPrism | cuboid => cases hform
  | hexPrism flats =>
    cases c' with
    | hexPrism flats' =>
      injection hform with hflats
      rw [hflats]
      cases flats <;> simp only [faces, sides, List.map, ofFaces?] at h ⊢ <;> grind
    | rectPrism | cuboid => cases hform
  | cuboid =>
    cases c' with
    | cuboid =>
      simp only [faces, sides, List.map, ofFaces?] at h ⊢
      grind
    | rectPrism | hexPrism => cases hform

end Composite

end SerpentCsg
