import SerpentCsg.Card.Syntax
import SerpentCsg.Composite

/-! # Shapes

  What a surface card describes: all of space, a primitive surface, or the faces of a composite.
  Whether a card describes anything depends on the card alone.
-/

namespace SerpentCsg

open Card (SurfaceCard)

/-- What a surface card describes. -/
inductive Shape (K : Type) where
  /-- All of space, which has no surface. -/
  | infinite
  /-- A single surface. -/
  | primitive (kind : SurfaceKind K)
  /-- Several faces. -/
  | composite (faces : Composite (SurfaceKind K))
  deriving Repr

namespace Shape

variable {K : Type} [Scalar K]

/-- The card does not have as many parameters as it should. -/
def wrongCount {α : Type} (card : SurfaceCard K) (expected : String) : Except Fault α :=
  .error (.parameterCount card.name card.type expected card.params.length)

/-! ### Planes -/

/-- The plane through three points, as the coefficients of `n · x + d = 0`, with the normal
    `(q - p) × (r - p)`. -/
def planeThrough (p q r : Vec3 K) : Vec3 K × K :=
  let n := (q - p).cross (r - p)
  (n, n.dot (-p))

/-- A plane by its coefficients or by three of its points. -/
def plane (card : SurfaceCard K) : Except Fault (SurfaceKind K) :=
  match card.params with
  | [a, b, c, d] => .ok (.plane ⟨a, b, c⟩ d)
  | [x₁, y₁, z₁, x₂, y₂, z₂, x₃, y₃, z₃] =>
    let (n, d) := planeThrough ⟨x₁, y₁, z₁⟩ ⟨x₂, y₂, z₂⟩ ⟨x₃, y₃, z₃⟩
    if n.x == 0 && n.y == 0 && n.z == 0 then .error (.collinearPoints card.name)
    else .ok (.plane n (-d))
  | _ => wrongCount card "4 or 9"

/-! ### Axis surfaces -/

/-- A plane across an axis. -/
def axisPlane (axis : Axis) (card : SurfaceCard K) : Except Fault (SurfaceKind K) :=
  match card.params with
  | [offset] => .ok (.axisPlane axis offset)
  | _ => wrongCount card "1"

/-- A cylinder along an axis. -/
def axisCylinder (axis : Axis) (card : SurfaceCard K) : Except Fault (SurfaceKind K) :=
  match card.params with
  | [u, v, r] => .ok (.axisCylinder axis ⟨u, v⟩ r)
  | _ => wrongCount card "3"

/-- A torus around an axis. -/
def torus (axis : Axis) (card : SurfaceCard K) : Except Fault (SurfaceKind K) :=
  match card.params with
  | [x, y, z, a, b, c] => .ok (.torus axis ⟨x, y, z⟩ a b c)
  | _ => wrongCount card "6"

/-! ### Other primitive surfaces -/

/-- A cylinder around a line. -/
def cylinder (card : SurfaceCard K) : Except Fault (SurfaceKind K) :=
  match card.params with
  | [x₁, y₁, z₁, x₂, y₂, z₂, r] => .ok (.cylinder ⟨x₁, y₁, z₁⟩ ⟨x₂, y₂, z₂⟩ r)
  | _ => wrongCount card "7"

/-- A sphere. -/
def sphere (card : SurfaceCard K) : Except Fault (SurfaceKind K) :=
  match card.params with
  | [x, y, z, r] => .ok (.sphere ⟨x, y, z⟩ r)
  | _ => wrongCount card "4"

/-- A cone along the z axis, by the centre and radius of its base and the height of its apex. -/
def cone (card : SurfaceCard K) : Except Fault (SurfaceKind K) :=
  match card.params with
  | [x, y, z, r, h] =>
    if h == 0 then .error (.flatCone card.name)
    else .ok (.cone .z ⟨x, y, z + h⟩ (Scalar.square (r / h)))
  | _ => wrongCount card "5"

/-- A general surface of the second order. -/
def quadric (card : SurfaceCard K) : Except Fault (SurfaceKind K) :=
  match card.params with
  | [a, b, c, d, e, f, g, h, j, k] => .ok (.quadric ⟨a, b, c, d, e, f, g, h, j, k⟩)
  | _ => wrongCount card "10"

/-! ### Composites -/

/-- Sine of sixty degrees. -/
def sin60 : K := Scalar.decimal 8660254037844386 (-16)

/-- A rectangular prism between given limits. -/
def prism (card : SurfaceCard K) (xmin xmax ymin ymax : K) :
    Except Fault (Composite (SurfaceKind K)) :=
  if xmax ≤ xmin ∨ ymax ≤ ymin then .error (.thinPrism card.name)
  else .ok (.rectPrism (.axisPlane .x xmin) (.axisPlane .x xmax) (.axisPlane .y ymin)
    (.axisPlane .y ymax))

/-- A square prism, by its centre and half its width. -/
def squarePrism (card : SurfaceCard K) : Except Fault (Composite (SurfaceKind K)) :=
  match card.params with
  | [x, y, d] => prism card (x - d) (x + d) (y - d) (y + d)
  | _ => wrongCount card "3"

/-- A rectangular prism, by its limits. -/
def rectangularPrism (card : SurfaceCard K) : Except Fault (Composite (SurfaceKind K)) :=
  match card.params with
  | [xmin, xmax, ymin, ymax] => prism card xmin xmax ymin ymax
  | _ => wrongCount card "4"

/-- A plane along the z axis, by its normal, a point, and its distance from the point. -/
def slanted (n c : Vec2 K) (distance : K) : SurfaceKind K :=
  .plane ⟨n.x, n.y, 0⟩ (n.x * c.x + n.y * c.y + distance)

/-- A hexagonal prism, by its centre and its apothem. -/
def hexagon (flats : HexFlats) (card : SurfaceCard K) : Except Fault (Composite (SurfaceKind K)) :=
  match card.params with
  | [x, y, d] =>
    let c : Vec2 K := ⟨x, y⟩
    if d ≤ 0 then .error (.thinHexagon card.name)
    else match flats with
      | .x =>
        let up : Vec2 K := ⟨Scalar.half, sin60⟩
        let down : Vec2 K := ⟨Scalar.half, -sin60⟩
        .ok (.hexPrism .x (.axisPlane .x (x - d)) (.axisPlane .x (x + d))
          (slanted up c (-d)) (slanted down c (-d)) (slanted up c d) (slanted down c d))
      | .y =>
        let up : Vec2 K := ⟨sin60, Scalar.half⟩
        let down : Vec2 K := ⟨sin60, -Scalar.half⟩
        .ok (.hexPrism .y (.axisPlane .y (y - d)) (.axisPlane .y (y + d))
          (slanted up c (-d)) (slanted up c d) (slanted down c d) (slanted down c (-d)))
  | _ => wrongCount card "3"

/-- A box between given limits. -/
def box (card : SurfaceCard K) (xmin xmax ymin ymax zmin zmax : K) :
    Except Fault (Composite (SurfaceKind K)) :=
  if xmax ≤ xmin ∨ ymax ≤ ymin ∨ zmax ≤ zmin then .error (.thinCuboid card.name)
  else .ok (.cuboid (.axisPlane .x xmin) (.axisPlane .x xmax) (.axisPlane .y ymin)
    (.axisPlane .z zmin) (.axisPlane .y ymax) (.axisPlane .z zmax))

/-- A cube, by its centre and half its width. -/
def cube (card : SurfaceCard K) : Except Fault (Composite (SurfaceKind K)) :=
  match card.params with
  | [x, y, z, d] => box card (x - d) (x + d) (y - d) (y + d) (z - d) (z + d)
  | _ => wrongCount card "4"

/-- A box, by its limits. -/
def cuboid (card : SurfaceCard K) : Except Fault (Composite (SurfaceKind K)) :=
  match card.params with
  | [xmin, xmax, ymin, ymax, zmin, zmax] => box card xmin xmax ymin ymax zmin zmax
  | _ => wrongCount card "6"

/-! ### Types of surfaces -/

/-- The surface that does not bound anything. -/
def unbounded (card : SurfaceCard K) : Except Fault (Shape K) :=
  match card.params with
  | [] => .ok .infinite
  | _ => wrongCount card "0"

/-- The shape that a card describes. -/
def ofCard (card : SurfaceCard K) : Except Fault (Shape K) :=
  match card.type with
  | "inf" => unbounded card
  | "sqc" => (squarePrism card).map composite
  | "rect" => (rectangularPrism card).map composite
  | "hexxc" => (hexagon .x card).map composite
  | "hexyc" => (hexagon .y card).map composite
  | "cube" => (cube card).map composite
  | "cuboid" => (cuboid card).map composite
  | "px" => (axisPlane .x card).map primitive
  | "py" => (axisPlane .y card).map primitive
  | "pz" => (axisPlane .z card).map primitive
  | "plane" => (plane card).map primitive
  | "cylx" => (axisCylinder .x card).map primitive
  | "cyly" => (axisCylinder .y card).map primitive
  | "cylz" | "cyl" => (axisCylinder .z card).map primitive
  | "cylv" => (cylinder card).map primitive
  | "sph" => (sphere card).map primitive
  | "cone" => (cone card).map primitive
  | "quadratic" => (quadric card).map primitive
  | "torx" => (torus .x card).map primitive
  | "tory" => (torus .y card).map primitive
  | "torz" => (torus .z card).map primitive
  | type => .error (.unknownSurfaceType card.name type)

end Shape

end SerpentCsg
