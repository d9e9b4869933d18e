import SerpentCsg.Proofs.Draft.Effects
import SerpentCsg.Proofs.Draft.Rearranging

/-! # Surface Cards in Any Order

  A list of surface cards can be worked in if each of them describes something and no two have the
  same name, which does not depend on their order. If moreover every surface gets the number that
  its name asks for, the surfaces and what the names stand for do not depend on it either,
  but for the order of the two tables.
-/

namespace SerpentCsg

open Identifier (wanted allocate)

variable {K : Type}

/-! ### What a card describes -/

namespace Shape

/-- Some faces of a composite of a certain name, by their own names, the first of which is counted
    by `i`. -/
def faceParts (name : String) : Nat → List (SurfaceKind K) → List (String × SurfaceKind K)
  | _, [] => []
  | i, kind :: kinds => (Draft.faceName name i, kind) :: faceParts name (i + 1) kinds

/-- The surfaces that a shape of a certain name is made of, by their names. -/
def parts (name : String) : Shape K → List (String × SurfaceKind K)
  | .infinite => []
  | .primitive kind => [(name, kind)]
  | .composite kinds => faceParts name 0 kinds.faces

/-- The kinds of surfaces that a shape is made of. -/
def kinds : Shape K → List (SurfaceKind K)
  | .infinite => []
  | .primitive kind => [kind]
  | .composite kinds => kinds.faces

theorem map_snd_faceParts (name : String) (i : Nat) (kinds : List (SurfaceKind K)) :
    (faceParts name i kinds).map (·.2) = kinds := by
  induction kinds generalizing i with
  | nil => rfl
  | cons kind kinds ih => rw [faceParts, List.map_cons, ih]

theorem map_snd_parts (name : String) (shape : Shape K) :
    (shape.parts name).map (·.2) = shape.kinds := by
  cases shape with
  | infinite => rfl
  | primitive kind => rfl
  | composite kinds => exact map_snd_faceParts name 0 kinds.faces

/-- What the name stands for, if every surface has the number that its name asks for. -/
def entry (name : String) : Shape K → SurfaceEntry
  | .infinite => .infinite
  | .primitive _ => .primitive (wanted name)
  | .composite kinds =>
    .composite (kinds.mapAccum (fun i _ => (i + 1, wanted (Draft.faceName name i))) 0).2

/-- The name and the shape that a surface card describes. -/
def described (K : Type) [Scalar K] (card : Card) : Option (String × Shape K) :=
  (Card.readSurface (K := K) card.text.toList).bind fun described =>
    (Shape.ofCard described).toOption.map fun shape => (described.name, shape)

end Shape

/-- A surface under the number that its name asks for. -/
def Surface.underWanted (part : String × SurfaceKind K) : Nat × Surface K :=
  (wanted part.1, { id := wanted part.1, name := part.1, kind := part.2 })

namespace Composite

variable {α β σ τ : Type}

/-- A composite is determined by its faces, as long as they come from the same composite. -/
theorem mapAccum_eq_of_faces {step : σ → α → σ × β} {other : τ → α → τ × β} {s : σ} {t : τ}
    {c : Composite α} (h : (c.mapAccum step s).2.faces = (c.mapAccum other t).2.faces) :
    (c.mapAccum step s).2 = (c.mapAccum other t).2 := by
  revert h
  cases c with
  | rectPrism => simp [mapAccum, faces, sides]
  | hexPrism flats => cases flats <;> simp [mapAccum, faces, sides]
  | cuboid => simp [mapAccum, faces, sides]

end Composite

namespace Draft

/-! ### One surface -/

theorem addSurface_wanted {d : Draft K} {name : String} (hfree : wanted name ∉ d.surfaces.keys)
    (kind : SurfaceKind K) :
    d.addSurface name kind =
      ({ d with surfaces := ⟨d.surfaces.entries ++ [Surface.underWanted (name, kind)]⟩ },
        wanted name) := by
  have hnew : d.surfaces.contains (wanted name) = false := by
    rw [← Bool.not_eq_true, ← Table.mem_keys_iff]
    exact hfree
  unfold addSurface
  rw [Identifier.allocate_eq_wanted hfree]
  simp [Table.insert, hnew, Surface.underWanted]

/-- Surfaces with certain names and of certain kinds have been put after those that were there. -/
def Registers (d : Draft K) (parts : List (String × SurfaceKind K)) (d' : Draft K) : Prop :=
  ∃ added : List (Surface K), d'.surfaces.values = d.surfaces.values ++ added ∧
    added.map (fun s => (s.name, s.kind)) = parts

theorem registers_nil (d : Draft K) : d.Registers [] d :=
  ⟨[], (List.append_nil _).symm, rfl⟩

theorem Registers.trans {d d₁ d₂ : Draft K} {parts others : List (String × SurfaceKind K)}
    (h : d.Registers parts d₁) (h' : d₁.Registers others d₂) :
    d.Registers (parts ++ others) d₂ := by
  obtain ⟨added, hvalues, rfl⟩ := h
  obtain ⟨further, hvalues', rfl⟩ := h'
  exact ⟨added ++ further, by rw [hvalues', hvalues, List.append_assoc], List.map_append⟩

theorem Registers.names {d d' : Draft K} {parts : List (String × SurfaceKind K)}
    (h : d.Registers parts d') :
    d'.surfaces.values.map (·.name) = d.surfaces.values.map (·.name) ++ parts.map (·.1) := by
  obtain ⟨added, hvalues, rfl⟩ := h
  rw [hvalues, List.map_append, List.map_map]
  rfl

theorem addSurface_registers (d : Draft K) (name : String) (kind : SurfaceKind K) :
    d.Registers [(name, kind)] (d.addSurface name kind).1 := by
  have hnew := addSurface_fresh d name kind
  exact ⟨[_], Table.values_insert _ hnew, rfl⟩

/-! ### The faces of a composite -/

theorem accumulate_addFace_registers (name : String) (kinds : List (SurfaceKind K)) (d : Draft K)
    (i : Nat) :
    d.Registers (Shape.faceParts name i kinds)
      (Composite.accumulate (addFace name) (d, i) kinds).1.1 := by
  induction kinds generalizing d i with
  | nil => exact registers_nil d
  | cons kind kinds ih =>
    have hfirst := addSurface_registers d (faceName name i) kind
    exact hfirst.trans (ih (d.addSurface (faceName name i) kind).1 (i + 1))

theorem accumulate_addFace (name : String) (kinds : List (SurfaceKind K)) {d : Draft K} {i : Nat}
    (hfree : (d.surfaces.keys ++ (Shape.faceParts name i kinds).map (wanted ·.1)).Nodup) :
    (Composite.accumulate (addFace name) (d, i) kinds).1.1 =
        { d with surfaces :=
          ⟨d.surfaces.entries ++ (Shape.faceParts name i kinds).map Surface.underWanted⟩ } ∧
      (Composite.accumulate (addFace name) (d, i) kinds).2 =
        (Shape.faceParts name i kinds).map (wanted ·.1) := by
  induction kinds generalizing d i with
  | nil => simp [Composite.accumulate, Shape.faceParts]
  | cons kind kinds ih =>
    have hfirst : wanted (faceName name i) ∉ d.surfaces.keys := by
      intro hmem
      exact List.disjoint_of_nodup_append hfree hmem (by simp [Shape.faceParts])
    have hsurface := addSurface_wanted hfirst kind
    show (Composite.accumulate (addFace name)
        ((d.addSurface (faceName name i) kind).1, i + 1) kinds).1.1 = _ ∧
      (d.addSurface (faceName name i) kind).2 :: (Composite.accumulate (addFace name)
        ((d.addSurface (faceName name i) kind).1, i + 1) kinds).2 = _
    rw [hsurface]
    have hrest := ih (d := { d with surfaces :=
      ⟨d.surfaces.entries ++ [Surface.underWanted (faceName name i, kind)]⟩ }) (i := i + 1) ?_
    · rw [hrest.1, hrest.2]
      simp [Shape.faceParts]
    · -- The first face has joined those that are there.
      simpa [Table.keys, Shape.faceParts, Surface.underWanted] using hfree

/-- The faces of a composite, numbered as their names ask for. -/
theorem accumulate_wanted (name : String) (kinds : List (SurfaceKind K)) (i : Nat) :
    (Composite.accumulate (fun i (_ : SurfaceKind K) => (i + 1, wanted (faceName name i))) i
      kinds).2 = (Shape.faceParts name i kinds).map (wanted ·.1) := by
  induction kinds generalizing i with
  | nil => rfl
  | cons kind kinds ih =>
    show wanted (faceName name i) :: (Composite.accumulate _ (i + 1) kinds).2 = _
    rw [ih]
    rfl

/-! ### Shapes -/

/-- A shape puts its parts after the surfaces that are there. -/
theorem addShape_registers (d : Draft K) (name : String) (shape : Shape K) :
    d.Registers (shape.parts name) (d.addShape name shape) := by
  cases shape with
  | infinite => exact registers_nil d
  | primitive kind => exact addSurface_registers d name kind
  | composite kinds =>
    obtain ⟨hstate, -⟩ := Prod.mk.inj (Composite.mapAccum_eq_accumulate (addFace name) (d, 0) kinds)
    show d.Registers _ ((kinds.mapAccum (addFace name) (d, 0)).1.1.addEntry name _)
    rw [hstate]
    exact accumulate_addFace_registers name kinds.faces d 0

theorem addShape_entries (d : Draft K) (name : String) (shape : Shape K) :
    ∃ entry, (d.addShape name shape).entries = d.entries.insert name entry := by
  cases shape with
  | infinite => exact ⟨_, rfl⟩
  | primitive kind => exact ⟨_, rfl⟩
  | composite kinds =>
    let P (s : Draft K × Nat) := s.1.entries = d.entries
    have hnew (s : Draft K × Nat) (kind : SurfaceKind K) (hs : P s) :
        P (addFace name s kind).1 ∧ True := ⟨hs, trivial⟩
    have hfaces := Composite.mapAccum_invariant (Q := fun _ _ => True) hnew
      (fun _ _ _ _ _ => trivial) (s := (d, 0)) rfl kinds
    let entry := SurfaceEntry.composite (kinds.mapAccum (addFace name) (d, 0)).2
    exact ⟨entry, congrArg (fun entries => entries.insert name entry) hfaces.1⟩

/-- With the numbers that the names ask for, a shape adds its parts to the surfaces. -/
theorem addShape_wanted {d : Draft K} {name : String} {shape : Shape K}
    (hname : d.entries.contains name = false)
    (hfree : (d.surfaces.keys ++ (shape.parts name).map (wanted ·.1)).Nodup) :
    d.addShape name shape = { d with
      surfaces := ⟨d.surfaces.entries ++ (shape.parts name).map Surface.underWanted⟩
      entries := ⟨d.entries.entries ++ [(name, shape.entry name)]⟩ } := by
  cases shape with
  | infinite => simp [addShape, addEntry, Shape.parts, Shape.entry, Table.insert, hname]
  | primitive kind =>
    have hfirst : wanted name ∉ d.surfaces.keys := by
      intro hmem
      exact List.disjoint_of_nodup_append hfree hmem (by simp [Shape.parts])
    have hsurface := addSurface_wanted hfirst kind
    show (d.addSurface name kind).1.addEntry name (.primitive (d.addSurface name kind).2) = _
    rw [hsurface]
    simp [addEntry, Shape.parts, Shape.entry, Table.insert, hname]
  | composite kinds =>
    obtain ⟨hstate, hfaces⟩ :=
      Prod.mk.inj (Composite.mapAccum_eq_accumulate (addFace name) (d, 0) kinds)
    obtain ⟨hsurfaces, hnumbers⟩ := accumulate_addFace name kinds.faces (i := 0) hfree
    have hentry : (kinds.mapAccum (addFace name) (d, 0)).2 =
        (kinds.mapAccum (fun i _ => (i + 1, wanted (faceName name i))) 0).2 := by
      apply Composite.mapAccum_eq_of_faces
      have hcounted := (Prod.mk.inj (Composite.mapAccum_eq_accumulate
        (fun i (_ : SurfaceKind K) => (i + 1, wanted (faceName name i))) 0 kinds)).2
      rw [hfaces, hnumbers, hcounted, accumulate_wanted]
    show (kinds.mapAccum (addFace name) (d, 0)).1.1.addEntry name
      (.composite (kinds.mapAccum (addFace name) (d, 0)).2) = _
    rw [hstate, hsurfaces, hentry]
    simp [addEntry, Shape.parts, Shape.entry, Table.insert, hname]

/-! ### Several shapes -/

/-- The draft with some shapes, each under its name. -/
def addShapes (d : Draft K) (items : List (String × Shape K)) : Draft K :=
  items.foldl (fun d item => d.addShape item.1 item.2) d

theorem addShapes_registers (items : List (String × Shape K)) (d : Draft K) :
    d.Registers (items.flatMap fun item => item.2.parts item.1) (d.addShapes items) := by
  induction items generalizing d with
  | nil => exact registers_nil d
  | cons item items ih => exact (addShape_registers d item.1 item.2).trans (ih _)

theorem addShapes_wanted (items : List (String × Shape K)) {d : Draft K}
    (hnames : (d.entries.keys ++ items.map (·.1)).Nodup)
    (hfree : (d.surfaces.keys ++
      items.flatMap fun item => (item.2.parts item.1).map (wanted ·.1)).Nodup) :
    d.addShapes items = { d with
      surfaces := ⟨d.surfaces.entries ++
        items.flatMap fun item => (item.2.parts item.1).map Surface.underWanted⟩
      entries := ⟨d.entries.entries ++ items.map fun item => (item.1, item.2.entry item.1)⟩ } := by
  induction items generalizing d with
  | nil => simp [addShapes]
  | cons item items ih =>
    have hname : d.entries.contains item.1 = false := by
      rw [← Bool.not_eq_true, ← Table.mem_keys_iff]
      intro hmem
      exact List.disjoint_of_nodup_append hnames hmem (by simp)
    rw [List.flatMap_cons, ← List.append_assoc] at hfree
    have hfirst := addShape_wanted hname hfree.of_append_left
    show (d.addShape item.1 item.2).addShapes items = _
    -- Afterwards the names and numbers of the first shape have joined those that are there.
    rw [hfirst, ih]
    · simp
    · simpa [Table.keys] using hnames
    · simpa [Table.keys, Surface.underWanted, Function.comp_def] using hfree

/-! ### Cards -/

variable [Scalar K]

theorem addSurfaceCard_eq_ok_iff {d d' : Draft K} {card : Card} :
    d.addSurfaceCard card.text = .ok d' ↔ ∃ item, Shape.described K card = some item ∧
      d.entries.contains item.1 = false ∧ d.addShape item.1 item.2 = d' := by
  unfold Shape.described
  constructor
  · intro h
    obtain ⟨described, shape, hread, hname, hshape, -, rfl⟩ := addSurfaceCard_describes h
    refine ⟨(described.name, shape), ?_, hname, rfl⟩
    rw [hread, Option.bind_some, hshape]
    rfl
  · rintro ⟨item, hitem, hname, rfl⟩
    obtain ⟨described, hread, hshape⟩ := Option.bind_eq_some_iff.1 hitem
    obtain ⟨shape, hof, rfl⟩ := exists_ok_of_map_eq_some hshape
    rw [addSurfaceCard_of_free hread hname, hof]
    rfl

theorem addCards_cons_surface_iff {d d' : Draft K} {card : Card} {cards : List Card}
    (hkind : card.kind = .surface) :
    d.addCards (card :: cards) = (d', none) ↔
      ∃ d₁, d.addSurfaceCard card.text = .ok d₁ ∧ d₁.addCards cards = (d', none) := by
  have hcard : d.addCard card = Outcome.ofStep d (d.addSurfaceCard card.text) := by
    unfold addCard
    rw [hkind]
  rw [addCards, hcard]
  cases d.addSurfaceCard card.text with
  | error fault => simp [Outcome.ofStep, Outcome.stopped]
  | ok d₁ => simp [Outcome.ofStep, Outcome.done]

/-- Surface cards can be worked in if each of them describes something, under a name that is free
    and that no other card has. -/
theorem addCards_surfaces_iff {cards : List Card} (hkinds : ∀ card ∈ cards, card.kind = .surface)
    {d d' : Draft K} (hdistinct : d.entries.keys.Nodup) :
    d.addCards cards = (d', none) ↔
      (∀ card ∈ cards, (Shape.described K card).isSome = true) ∧
      (d.entries.keys ++ (cards.filterMap (Shape.described K)).map (·.1)).Nodup ∧
      d.addShapes (cards.filterMap (Shape.described K)) = d' := by
  induction cards generalizing d with
  | nil => simp [addCards, addShapes, hdistinct]
  | cons card cards ih =>
    rw [List.forall_mem_cons] at hkinds
    rw [addCards_cons_surface_iff hkinds.1, List.forall_mem_cons]
    simp only [addSurfaceCard_eq_ok_iff]
    cases hitem : Shape.described K card with
    | none => simp
    | some item =>
      rw [List.filterMap_cons_some hitem]
      by_cases hname : d.entries.contains item.1 = true
      · -- The name is taken already.
        refine iff_of_false ?_ ?_
        · rintro ⟨_, ⟨_, heq, hfree, -⟩, -⟩
          obtain rfl := Option.some.inj heq
          rw [hname] at hfree
          cases hfree
        · rintro ⟨-, hnodup, -⟩
          exact List.disjoint_of_nodup_append hnodup (Table.mem_keys_iff.2 hname) (by simp)
      · obtain ⟨entry, hentries⟩ := addShape_entries d item.1 item.2
        have hkeys : (d.addShape item.1 item.2).entries.keys = d.entries.keys ++ [item.1] := by
          rw [hentries, Table.keys_insert, if_neg hname]
        have hnext : (d.addShape item.1 item.2).entries.keys.Nodup := by
          rw [hentries]
          exact Table.nodup_keys_insert hdistinct _ _
        have hrest := ih hkinds.2 hnext
        rw [hkeys] at hrest
        simp only [Option.some.injEq, Bool.not_eq_true] at hname ⊢
        constructor
        · rintro ⟨_, ⟨_, rfl, -, rfl⟩, hdone⟩
          obtain ⟨hall, hnodup, hd'⟩ := hrest.1 hdone
          exact ⟨⟨rfl, hall⟩, by simpa using hnodup, hd'⟩
        · rintro ⟨⟨-, hall⟩, hnodup, hd'⟩
          exact ⟨_, ⟨item, rfl, hname, rfl⟩, hrest.2 ⟨hall, by simpa using hnodup, hd'⟩⟩

/-- Surface cards in another order can be worked in if they can be in the first one. If the names
    of all surfaces ask for distinct numbers, the tables that come out have the same entries. -/
theorem rearranged_surfaces {cards others : List Card} (hperm : cards.Perm others)
    (hkinds : ∀ card ∈ cards, card.kind = .surface) {d d₁ : Draft K}
    (hsurfaces : d.surfaces = .empty) (hentries : d.entries = .empty)
    (hdone : d.addCards cards = (d₁, none)) :
    ∃ d₂, d.addCards others = (d₂, none) ∧
      ((d₁.surfaces.values.map (wanted ·.name)).Nodup → d₁.Rearranged d₂) := by
  have hkeys : d.entries.keys = [] := by rw [hentries]; rfl
  have hdistinct : d.entries.keys.Nodup := by rw [hkeys]; exact List.nodup_nil
  have hitems := hperm.filterMap (Shape.described K)
  have hother : ∀ card ∈ others, card.kind = .surface :=
    fun card hcard => hkinds card (hperm.mem_iff.2 hcard)
  obtain ⟨hall, hnames, rfl⟩ := (addCards_surfaces_iff hkinds hdistinct).1 hdone
  generalize cards.filterMap (Shape.described K) = items at hitems hnames ⊢
  have hnames' : (d.entries.keys ++ (others.filterMap (Shape.described K)).map (·.1)).Nodup :=
    ((hitems.map _).append_left _).nodup_iff.1 hnames
  refine ⟨_, (addCards_surfaces_iff hother hdistinct).2
    ⟨fun card hcard => hall card (hperm.mem_iff.2 hcard), hnames', rfl⟩, fun hwanted => ?_⟩
  -- No numbers but those that the names ask for are given.
  have hfree : (d.surfaces.keys ++
      items.flatMap fun item => (item.2.parts item.1).map (wanted ·.1)).Nodup := by
    have hlist : (d.addShapes items).surfaces.values.map (wanted ·.name) =
        items.flatMap fun item => (item.2.parts item.1).map (wanted ·.1) := by
      have hregistered := (addShapes_registers items d).names
      rw [hsurfaces] at hregistered
      have hnumbers := congrArg (List.map wanted) hregistered
      simpa [Table.values, Table.empty, List.map_flatMap, Function.comp_def] using hnumbers
    rw [hsurfaces, ← hlist]
    exact hwanted
  have hfree' : (d.surfaces.keys ++ (others.filterMap (Shape.described K)).flatMap fun item =>
      (item.2.parts item.1).map (wanted ·.1)).Nodup :=
    ((hitems.flatMap_right _).append_left _).nodup_iff.1 hfree
  rw [addShapes_wanted _ hnames hfree, addShapes_wanted _ hnames' hfree']
  refine ⟨⟨(hitems.flatMap_right _).append_left _, ?_⟩, ⟨(hitems.map _).append_left _, ?_⟩, rfl⟩
  · simpa [Table.keys, Surface.underWanted, List.map_flatMap, Function.comp_def] using hfree
  · simpa [Table.keys, Function.comp_def] using hnames

end Draft

end SerpentCsg
