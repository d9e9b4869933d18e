import SerpentCsg.Draft.Basic
import SerpentCsg.Shape.Types

/-! # Working in Surface Cards

  A surface card is worked in completely or not at all. The faces of a composite become surfaces of
  their own, named after it and counted from zero.

  Two things are checked only when the surfaces of a card are registered already: that the faces
  are as many as the type of the card asks for, and that the name of the card is still free. Either
  check would leave the surfaces behind if it failed. Both are settled before the first surface is
  registered, so neither does.
-/

namespace SerpentCsg.Draft

variable {K : Type}

/-! ### Registering what a card describes -/

/-- Name of a face of a composite. -/
def faceName (name : String) (index : Nat) : String := name ++ "_sub_" ++ index.repr

/-- The draft with one more face of a composite, given how many there are already. -/
def addFace (name : String) (state : Draft K × Nat) (kind : SurfaceKind K) :
    (Draft K × Nat) × Nat :=
  let (d, id) := state.1.addSurface (faceName name state.2) kind
  ((d, state.2 + 1), id)

/-- What would be found wrong with a card when its surfaces are registered already. -/
inductive LateFault where
  /-- Something stands under the name of the card. -/
  | nameTaken (name : String)
  /-- The faces are not as many as the type of the card asks for. -/
  | faceCount (name : String)
  deriving Repr, DecidableEq

/-- The report on a late fault. -/
def LateFault.message : LateFault → String
  | nameTaken name => (Fault.duplicate .surface name).message
  | faceCount name => Fault.compositeSurface name "unexpected number of faces"

/-- The draft with what a name stands for, if nothing stands under the name. -/
def bindEntry (d : Draft K) (name : String) (entry : SurfaceEntry) : Draft K × Option LateFault :=
  if d.entries.contains name then (d, some (.nameTaken name)) else (d.addEntry name entry, none)

/-- The draft with the surfaces of a card, and with its name bound to them unless a late check
    fails. -/
def registerShape (d : Draft K) (name type : String) : Shape K → Draft K × Option LateFault
  | .infinite => d.bindEntry name .infinite
  | .primitive kind =>
    let (d, id) := d.addSurface name kind
    d.bindEntry name (.primitive id)
  | .composite kinds =>
    let (state, faces) := kinds.mapAccum (addFace name) (d, 0)
    match Composite.ofFaces? type faces.faces with
    | none => (state.1, some (.faceCount name))
    | some faces => state.1.bindEntry name (.composite faces)

/-! ### The late checks -/

/-- The draft with what a card describes, under a name that is free. -/
def addShape (d : Draft K) (name : String) : Shape K → Draft K
  | .infinite => d.addEntry name .infinite
  | .primitive kind =>
    let (d, id) := d.addSurface name kind
    d.addEntry name (.primitive id)
  | .composite kinds =>
    let (state, faces) := kinds.mapAccum (addFace name) (d, 0)
    state.1.addEntry name (.composite faces)

theorem bindEntry_of_free {d : Draft K} {name : String} (h : d.entries.contains name = false)
    (entry : SurfaceEntry) : d.bindEntry name entry = (d.addEntry name entry, none) := by
  simp [bindEntry, h]

/-- No late check fails on what a card of the type describes, under a name that is free. -/
theorem registerShape_eq {d : Draft K} {name type : String} {shape : Shape K}
    (htype : shape.OfType type) (hname : d.entries.contains name = false) :
    d.registerShape name type shape = (d.addShape name shape, none) := by
  cases shape with
  | infinite => exact bindEntry_of_free hname _
  | primitive kind => exact bindEntry_of_free (d := (d.addSurface name kind).1) hname _
  | composite kinds =>
    obtain ⟨-, -, hfaces⟩ := htype
    -- Registering faces binds no names, and the numbers are as many as the faces.
    have hentries : (kinds.mapAccum (addFace name) (d, 0)).1.1.entries = d.entries := by
      cases kinds <;> rfl
    have hcount := Composite.ofFaces?_faces hfaces
      (Composite.outline_mapAccum (addFace name) (d, 0) kinds)
    unfold registerShape
    dsimp only
    rw [hcount]
    apply bindEntry_of_free
    rw [hentries]
    exact hname

/-- A card that describes a shape under a free name has no late fault. -/
theorem registerShape_ne_fault [Scalar K] {d : Draft K} {card : Card.SurfaceCard K}
    {shape : Shape K} {late : LateFault} (hshape : Shape.ofCard card = .ok shape)
    (hname : ¬ d.entries.contains card.name) (d' : Draft K) :
    d.registerShape card.name card.type shape ≠ (d', some late) := by
  rw [registerShape_eq (Shape.ofType_of_ofCard hshape) (Bool.not_eq_true _ ▸ hname)]
  intro h
  cases h

/-! ### Surface cards -/

variable [Scalar K]

/-- The draft with a surface card. -/
def addSurfaceCard (d : Draft K) (text : String) : Except Fault (Draft K) :=
  match Card.readSurface (K := K) text.toList with
  | none => .error (.unreadableSurface text)
  | some card =>
    if hname : d.entries.contains card.name then .error (.duplicate .surface card.name)
    else
      match hshape : Shape.ofCard card with
      | .error fault => .error fault
      | .ok shape =>
        match hlate : d.registerShape card.name card.type shape with
        | (d, none) => .ok d
        -- The name has been looked up above, and the shape is one of its type.
        | (d, some _) => absurd hlate (registerShape_ne_fault hshape hname d)

theorem addSurfaceCard_of_unreadable {d : Draft K} {text : String}
    (hread : Card.readSurface (K := K) text.toList = none) :
    d.addSurfaceCard text = .error (.unreadableSurface text) := by
  unfold addSurfaceCard
  rw [hread]

theorem addSurfaceCard_of_taken {d : Draft K} {text : String} {card : Card.SurfaceCard K}
    (hread : Card.readSurface text.toList = some card)
    (hname : d.entries.contains card.name = true) :
    d.addSurfaceCard text = .error (.duplicate .surface card.name) := by
  unfold addSurfaceCard
  rw [hread]
  exact dif_pos hname

/-- A card under a free name is worked in if it describes a shape. -/
theorem addSurfaceCard_of_free {d : Draft K} {text : String} {card : Card.SurfaceCard K}
    (hread : Card.readSurface text.toList = some card)
    (hname : d.entries.contains card.name = false) :
    d.addSurfaceCard text = (Shape.ofCard card).map (d.addShape card.name) := by
  unfold addSurfaceCard
  rw [hread]
  dsimp only
  rw [dif_neg (by simp [hname])]
  split
  · next fault hshape =>
    rw [hshape]
    rfl
  · next shape hshape =>
    have hmap : (Shape.ofCard card).map (d.addShape card.name) =
        .ok (d.addShape card.name shape) := by
      rw [hshape]
      rfl
    rw [hmap]
    split
    · next d' hdone =>
      rw [registerShape_eq (Shape.ofType_of_ofCard hshape) hname] at hdone
      rw [(Prod.mk.inj hdone).1]
    · next d' late hlate =>
      exact absurd hlate (registerShape_ne_fault hshape (by simp [hname]) d')

/-- A card cannot be read, its name is taken, or it is worked in if it describes a shape. -/
theorem addSurfaceCard_cases (d : Draft K) (text : String) :
    d.addSurfaceCard text = .error (.unreadableSurface text) ∨
    ∃ card : Card.SurfaceCard K, Card.readSurface text.toList = some card ∧
      (d.addSurfaceCard text = .error (.duplicate .surface card.name) ∨
        d.entries.contains card.name = false ∧
          d.addSurfaceCard text = (Shape.ofCard card).map (d.addShape card.name)) := by
  cases hread : Card.readSurface (K := K) text.toList with
  | none => exact .inl (addSurfaceCard_of_unreadable hread)
  | some card =>
    refine .inr ⟨card, rfl, ?_⟩
    cases hname : d.entries.contains card.name with
    | true => exact .inl (addSurfaceCard_of_taken hread hname)
    | false => exact .inr ⟨rfl, addSurfaceCard_of_free hread hname⟩

end SerpentCsg.Draft
