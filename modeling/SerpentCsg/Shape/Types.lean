import SerpentCsg.Shape

/-! # Shapes by the Types of Cards

  What a card describes goes by its type: all of space, a single surface, or as many faces as make
  up a composite of the type. What is checked once the surfaces of a card are registered is settled
  by that.

  - `Shape.OfType` says what the cards of a type describe, and `Fault.OfSurfaceCard` all that can be
    wrong with a surface card.
  - `Shape.reads_ofCard`: a card describes what its type says, or has one of these faults.
-/

namespace SerpentCsg

variable {K : Type}

/-! ### What the cards of a type describe -/

namespace Card

/-- The types of cards that describe composites. -/
def compositeTypes : List String := ["sqc", "rect", "hexxc", "hexyc", "cube", "cuboid"]

/-- How many surfaces a card of a type registers. -/
def surfacesOfType (type : String) : Nat :=
  if type = "inf" then 0
  else if type = "sqc" ∨ type = "rect" then 4
  else if type ∈ compositeTypes then 6
  else 1

end Card

open Card (SurfaceCard compositeTypes surfacesOfType)

/-- A card of the type describes this. -/
def Shape.OfType (type : String) : Shape K → Prop
  | .infinite => type = "inf"
  | .primitive _ => type ≠ "inf" ∧ type ∉ compositeTypes
  | .composite kinds => type ∈ compositeTypes ∧ kinds.faces.length = surfacesOfType type ∧
      Composite.ofFaces? type kinds.faces = some kinds

/-! ### Faults of surface cards -/

/-- All that can be wrong with a surface card. -/
inductive Fault.OfSurfaceCard : Fault → Prop where
  | unreadable (text : String) : OfSurfaceCard (.unreadableSurface text)
  | duplicate (name : String) : OfSurfaceCard (.duplicate .surface name)
  | unknownType (name type : String) : OfSurfaceCard (.unknownSurfaceType name type)
  | count (name type expected : String) (found : Nat) :
      OfSurfaceCard (.parameterCount name type expected found)
  | collinear (name : String) : OfSurfaceCard (.collinearPoints name)
  | flat (name : String) : OfSurfaceCard (.flatCone name)
  | prism (name : String) : OfSurfaceCard (.thinPrism name)
  | hexagon (name : String) : OfSurfaceCard (.thinHexagon name)
  | cuboid (name : String) : OfSurfaceCard (.thinCuboid name)

/-! ### Reading what a card describes -/

namespace Shape

section Cards

variable {α β : Type}

/-- Something of a kind has been read from a card, or the card has one of the faults of surface
    cards. -/
def Reads (P : α → Prop) : Except Fault α → Prop
  | .ok a => P a
  | .error fault => fault.OfSurfaceCard

theorem Reads.map {P : α → Prop} {Q : β → Prop} {x : Except Fault α} {f : α → β} (h : Reads P x)
    (hf : ∀ a, P a → Q (f a)) : Reads Q (x.map f) := by
  cases x with
  | ok a => exact hf a h
  | error fault => exact h

theorem reads_wrongCount {P : α → Prop} (card : SurfaceCard K) (expected : String) :
    Reads P (wrongCount card expected) :=
  .count card.name card.type expected card.params.length

theorem ofType_of_outline {type : String} {kinds : Composite (SurfaceKind K)}
    {form : Composite Unit} (h : kinds.outline = form) (htype : type ∈ compositeTypes)
    (hcount : form.faces.length = surfacesOfType type)
    (hform : Composite.ofFaces? type form.faces = some form) : OfType type (.composite kinds) := by
  have hself : form.outline = form := by cases form <;> rfl
  rw [← hself] at h
  refine ⟨htype, ?_, Composite.ofFaces?_faces hform h⟩
  rw [← hcount, ← Composite.length_faces_outline, h, Composite.length_faces_outline]

/-- A card of a primitive surface is one, if it has as many parameters as it should. -/
theorem reads_of_params (card : SurfaceCard K) :
    (∀ axis, Reads (fun _ => True) (axisPlane axis card)) ∧
    (∀ axis, Reads (fun _ => True) (axisCylinder axis card)) ∧
    (∀ axis, Reads (fun _ => True) (torus axis card)) ∧
    Reads (fun _ => True) (cylinder card) ∧
    Reads (fun _ => True) (sphere card) ∧
    Reads (fun _ => True) (quadric card) := by
  unfold axisPlane axisCylinder torus cylinder sphere quadric
  refine ⟨?_, ?_, ?_, ?_, ?_, ?_⟩
  all_goals
    intros
    split
    · trivial
    · exact reads_wrongCount card _

variable [Scalar K] {card : SurfaceCard K}

theorem reads_plane : Reads (fun _ => True) (plane card) := by
  unfold plane
  split
  · trivial
  · dsimp only
    split
    · exact .collinear card.name
    · trivial
  · exact reads_wrongCount card _

theorem reads_cone : Reads (fun _ => True) (cone card) := by
  unfold cone
  split
  · split
    · exact .flat card.name
    · trivial
  · exact reads_wrongCount card _

theorem reads_prism (xmin xmax ymin ymax : K) :
    Reads (fun kinds => kinds.outline = .rectPrism () () () ()) (prism card xmin xmax ymin ymax) := by
  unfold prism
  split
  · exact .prism card.name
  · exact rfl

theorem reads_box (xmin xmax ymin ymax zmin zmax : K) :
    Reads (fun kinds => kinds.outline = .cuboid () () () () () ())
      (box card xmin xmax ymin ymax zmin zmax) := by
  unfold box
  split
  · exact .cuboid card.name
  · exact rfl

theorem reads_hexagon (flats : HexFlats) :
    Reads (fun kinds => kinds.outline = .hexPrism flats () () () () () ()) (hexagon flats card) := by
  unfold hexagon
  split
  · dsimp only
    split
    · exact .hexagon card.name
    · cases flats <;> exact rfl
  · exact reads_wrongCount card _

theorem reads_prisms :
    Reads (fun kinds => kinds.outline = .rectPrism () () () ()) (squarePrism card) ∧
    Reads (fun kinds => kinds.outline = .rectPrism () () () ()) (rectangularPrism card) := by
  unfold squarePrism rectangularPrism
  constructor
  all_goals
    split
    · exact reads_prism _ _ _ _
    · exact reads_wrongCount card _

theorem reads_boxes :
    Reads (fun kinds => kinds.outline = .cuboid () () () () () ()) (cube card) ∧
    Reads (fun kinds => kinds.outline = .cuboid () () () () () ()) (cuboid card) := by
  unfold cube cuboid
  constructor
  all_goals
    split
    · exact reads_box _ _ _ _ _ _
    · exact reads_wrongCount card _

/-- A card that can be read describes what its type says. -/
theorem reads_ofCard : Reads (OfType card.type) (ofCard card) := by
  obtain ⟨hplane, hround, htorus, hline, hsphere, hquadric⟩ := reads_of_params card
  have hprimitive {x : Except Fault (SurfaceKind K)} (hx : Reads (fun _ => True) x)
      (htype : card.type ≠ "inf" ∧ card.type ∉ compositeTypes) :
      Reads (OfType card.type) (x.map primitive) :=
    hx.map fun _ _ => htype
  unfold ofCard
  split
  case h_1 htype =>
    unfold unbounded
    split
    · exact htype
    · exact reads_wrongCount card _
  case h_2 htype =>
    rw [htype]
    exact reads_prisms.1.map fun _ h => ofType_of_outline h (by decide) (by decide) (by decide)
  case h_3 htype =>
    rw [htype]
    exact reads_prisms.2.map fun _ h => ofType_of_outline h (by decide) (by decide) (by decide)
  case h_4 htype | h_5 htype =>
    rw [htype]
    exact (reads_hexagon _).map fun _ h =>
      ofType_of_outline h (by decide) (by decide) (by decide)
  case h_6 htype =>
    rw [htype]
    exact reads_boxes.1.map fun _ h => ofType_of_outline h (by decide) (by decide) (by decide)
  case h_7 htype =>
    rw [htype]
    exact reads_boxes.2.map fun _ h => ofType_of_outline h (by decide) (by decide) (by decide)
  case h_8 htype | h_9 htype | h_10 htype => exact hprimitive (hplane _) (by rw [htype]; decide)
  case h_11 htype => exact hprimitive reads_plane (by rw [htype]; decide)
  case h_12 htype | h_13 htype | h_14 htype | h_15 htype =>
    exact hprimitive (hround _) (by rw [htype]; decide)
  case h_16 htype => exact hprimitive hline (by rw [htype]; decide)
  case h_17 htype => exact hprimitive hsphere (by rw [htype]; decide)
  case h_18 htype => exact hprimitive reads_cone (by rw [htype]; decide)
  case h_19 htype => exact hprimitive hquadric (by rw [htype]; decide)
  case h_20 htype | h_21 htype | h_22 htype => exact hprimitive (htorus _) (by rw [htype]; decide)
  case h_23 => exact .unknownType card.name card.type

theorem ofType_of_ofCard {shape : Shape K} (h : ofCard card = .ok shape) :
    shape.OfType card.type := by
  have hreads : Reads (OfType card.type) (ofCard card) := reads_ofCard
  rw [h] at hreads
  exact hreads

end Cards

end Shape

end SerpentCsg
