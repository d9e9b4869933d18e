import SerpentCsg.Proofs.Draft.Putting
import SerpentCsg.Scalar.Binary64

/-! # Surface Cards, Completely or Not at All

  A surface card that fails changes nothing. One that succeeds adds a single name, and under it as
  many surfaces as its type has faces, behind everything that is there and under numbers that were
  free.

  - `SurfaceEntry.OfType` says what the names of a type of cards stand for.
  - `Fault.OfSurfaceCard.message_ne`: nothing that can be wrong with a surface card is reported as
    the late check of the faces would report it.
  - `Draft.SurfaceAdded` says what a surface card that is worked in adds.
-/

namespace SerpentCsg

variable {K : Type}

open Card (compositeTypes surfacesOfType)

/-- A card of the type makes its name stand for this. -/
def SurfaceEntry.OfType (type : String) : SurfaceEntry → Prop
  | .infinite => type = "inf"
  | .primitive _ => type ≠ "inf" ∧ type ∉ compositeTypes
  | .composite faces => type ∈ compositeTypes ∧ Composite.ofFaces? type faces.faces = some faces

/-- Name of a surface that a name stands for: a face counted from zero, or the name itself. -/
def SurfaceEntry.surfaceName (name : String) (i : Nat) : SurfaceEntry → String
  | .composite _ => name ++ "_sub_" ++ i.repr
  | .primitive _ | .infinite => name

namespace Fault

/-- A character at the beginning of a text stays where it is when more follows. -/
private theorem getElem?_toList_append {s : String} {i : Nat} {c : Char}
    (h : s.toList[i]? = some c) (rest : String) : (s ++ rest).toList[i]? = some c := by
  obtain ⟨hlt, -⟩ := List.getElem?_eq_some_iff.1 h
  rw [String.toList_append, List.getElem?_append_left hlt, h]

/-- A text ends as its last part does. -/
private theorem getLast?_toList_append {s : String} {c : Char} (h : s.toList.getLast? = some c)
    (first : String) : (first ++ s).toList.getLast? = some c := by
  rw [String.toList_append, List.getLast?_append, h]
  rfl

theorem compositeSurface_getElem? {i : Nat} {c : Char}
    (h : "erroneous composite surface ".toList[i]? = some c) (name complaint : String) :
    (compositeSurface name complaint).toList[i]? = some c :=
  getElem?_toList_append (getElem?_toList_append (getElem?_toList_append h name) ": ") complaint

theorem surfaceCard_getElem? {i : Nat} {c : Char}
    (h : "erroneous surface card: ".toList[i]? = some c) (complaint : String) :
    (surfaceCard complaint).toList[i]? = some c :=
  getElem?_toList_append h complaint

theorem compositeSurface_getLast? {complaint : String} {c : Char}
    (h : complaint.toList.getLast? = some c) (name : String) :
    (compositeSurface name complaint).toList.getLast? = some c :=
  getLast?_toList_append h _

/-- None of the faults of a surface card is reported as the late check of the faces would report a
    wrong number of them. -/
theorem OfSurfaceCard.message_ne {fault : Fault} (h : fault.OfSurfaceCard) (name : String) :
    fault.message ≠ (Draft.LateFault.faceCount name).message := by
  have hfirst := compositeSurface_getElem? (i := 0) (c := 'e') (by decide +kernel) name
    "unexpected number of faces"
  have hplace := compositeSurface_getElem? (i := 10) (c := 'c') (by decide +kernel) name
    "unexpected number of faces"
  have hfaces : "unexpected number of faces".toList.getLast? = some 's' := by decide +kernel
  have hlast := compositeSurface_getLast? hfaces name
  intro heq
  have heq : fault.message = compositeSurface name "unexpected number of faces" := heq
  rw [← heq] at hfirst hplace hlast
  -- Other reports start otherwise, and those on composites end otherwise.
  have hword {i : Nat} {c c' : Char} (hc : fault.message.toList[i]? = some c)
      (hc' : fault.message.toList[i]? = some c') (hne : c ≠ c') : False :=
    hne (Option.some.inj (hc.symm.trans hc'))
  have hend {c : Char} (hc : fault.message.toList.getLast? = some c) (hne : c ≠ 's') : False :=
    hne (Option.some.inj (hc.symm.trans hlast))
  have hcard (complaint : String) : (surfaceCard complaint).toList[10]? = some 's' :=
    surfaceCard_getElem? (by decide +kernel) complaint
  cases h with
  | unreadable text => exact hword (hcard text) hplace (by decide)
  | collinear other => exact hword (hcard _) hplace (by decide)
  | flat other => exact hword (hcard _) hplace (by decide)
  | duplicate other =>
    have hs : "surface".toList[0]? = some 's' := by decide +kernel
    have hreport := getElem?_toList_append (getElem?_toList_append (getElem?_toList_append hs " ")
      (quoted other)) " is declared more than once"
    exact hword hreport hfirst (by decide)
  | unknownType other type =>
    have hs : "surfaces of type ".toList[0]? = some 's' := by decide +kernel
    have hreport := getElem?_toList_append (getElem?_toList_append (getElem?_toList_append
      (getElem?_toList_append hs (quoted type)) " are not supported (surface ") other) ")"
    exact hword hreport hfirst (by decide)
  | count other type expected found =>
    have hs : "surface ".toList[0]? = some 's' := by decide +kernel
    have hreport := getElem?_toList_append (getElem?_toList_append (getElem?_toList_append
      (getElem?_toList_append (getElem?_toList_append (getElem?_toList_append
      (getElem?_toList_append hs other) " of type ") (quoted type)) " expects ") expected)
      " parameters, found ") found.repr
    exact hword hreport hfirst (by decide)
  | prism other =>
    exact hend (compositeSurface_getLast? (c := 'h') (by decide +kernel) other) (by decide)
  | hexagon other =>
    exact hend (compositeSurface_getLast? (c := 'e') (by decide +kernel) other) (by decide)
  | cuboid other =>
    exact hend (compositeSurface_getLast? (c := 'h') (by decide +kernel) other) (by decide)

end Fault

/-! ### From shapes to what names stand for -/

namespace Shape

/-- A name stands for as many surfaces as the type of its card says. -/
theorem OfType.entry {type : String} {shape : Shape K} {entry : SurfaceEntry}
    (h : shape.OfType type) (hform : shape.IsEntry entry) :
    entry.OfType type ∧ entry.surfaces.length = surfacesOfType type := by
  match shape, entry with
  | .infinite, .infinite =>
    obtain rfl : type = "inf" := h
    exact ⟨rfl, by decide⟩
  | .primitive _, .primitive _ =>
    obtain ⟨hinf, hcomposite⟩ := h
    have hprism : ¬ (type = "sqc" ∨ type = "rect") := by
      intro htype
      rcases htype with rfl | rfl
      · exact hcomposite (by decide)
      · exact hcomposite (by decide)
    refine ⟨⟨hinf, hcomposite⟩, ?_⟩
    unfold surfacesOfType
    rw [if_neg hinf, if_neg hprism, if_neg hcomposite]
    rfl
  | .composite kinds, .composite faces =>
    obtain ⟨hcomposite, hcount, hfaces⟩ := h
    refine ⟨⟨hcomposite, Composite.ofFaces?_faces hfaces hform⟩, ?_⟩
    show faces.faces.length = surfacesOfType type
    rw [← hcount, ← Composite.length_faces_outline, ← Composite.length_faces_outline kinds,
      show faces.outline = kinds.outline from hform]

theorem getElem?_faceParts (name : String) (kinds : List (SurfaceKind K)) (j i : Nat) :
    (faceParts name j kinds)[i]? =
      kinds[i]?.map fun kind => (Draft.faceName name (j + i), kind) := by
  induction kinds generalizing j i with
  | nil => rfl
  | cons kind kinds ih =>
    cases i with
    | zero => rfl
    | succ i =>
      rw [faceParts, List.getElem?_cons_succ, ih, List.getElem?_cons_succ]
      rw [show j + 1 + i = j + (i + 1) by omega]

/-- The surfaces of a shape have the names of faces, or that of the shape. -/
theorem getElem?_parts {name : String} {shape : Shape K} {entry : SurfaceEntry}
    (hform : shape.IsEntry entry) {i : Nat} {part : String × SurfaceKind K}
    (hpart : (shape.parts name)[i]? = some part) : part.1 = entry.surfaceName name i := by
  match shape, entry with
  | .infinite, .infinite => cases hpart
  | .primitive kind, .primitive _ =>
    have hmem : part ∈ [(name, kind)] := List.mem_of_getElem? hpart
    rw [List.mem_singleton.1 hmem]
    rfl
  | .composite kinds, .composite _ =>
    have hnamed := getElem?_faceParts name kinds.faces 0 i
    rw [show (faceParts name 0 kinds.faces)[i]? = some part from hpart, Nat.zero_add] at hnamed
    obtain ⟨kind, -, rfl⟩ := Option.map_eq_some_iff.1 hnamed.symm
    rfl

end Shape

/-! ### Surface cards -/

namespace Draft

/-- A draft in which a surface card has been worked in. -/
structure SurfaceAdded (d : Draft K) (card : Card.SurfaceCard K) (entry : SurfaceEntry)
    (d' : Draft K) : Prop where
  /-- Nothing had the name before. -/
  free : d.entries.contains card.name = false
  form : entry.OfType card.type
  count : entry.surfaces.length = surfacesOfType card.type
  distinct : entry.surfaces.Nodup
  unused : ∀ id ∈ entry.surfaces, d.surfaces.contains id = false
  /-- The surfaces are there in the order of their faces. -/
  present : ∀ i id, entry.surfaces[i]? = some id → ∃ kind : SurfaceKind K,
    d'.surfaces.find? id = some { id, name := entry.surfaceName card.name i, kind }
  /-- They come behind the surfaces that were there, and nothing else does. -/
  behind : ∃ added, d'.surfaces.entries = d.surfaces.entries ++ added ∧
    added.map (·.1) = entry.surfaces
  /-- Nothing but surfaces is added to, and the name. -/
  frame : d' = { d with
    entries := ⟨d.entries.entries ++ [(card.name, entry)]⟩
    surfaces := d'.surfaces }

namespace SurfaceAdded

variable {d d' : Draft K} {card : Card.SurfaceCard K} {entry : SurfaceEntry}

theorem entries_kept (h : d.SurfaceAdded card entry d') (name : String) (e : SurfaceEntry)
    (he : d.entries.find? name = some e) : d'.entries.find? name = some e := by
  rw [h.frame]
  exact Table.find?_of_append rfl he

theorem surfaces_kept (h : d.SurfaceAdded card entry d') (id : Nat) (s : Surface K)
    (hs : d.surfaces.find? id = some s) : d'.surfaces.find? id = some s := by
  obtain ⟨added, hadded, -⟩ := h.behind
  exact Table.find?_of_append hadded hs

end SurfaceAdded

variable [Scalar K]

theorem addSurfaceCard_eq_error {d : Draft K} {text : String} {fault : Fault}
    (h : d.addSurfaceCard text = .error fault) : fault.OfSurfaceCard := by
  rcases addSurfaceCard_cases d text with heq | ⟨card, -, heq | ⟨-, heq⟩⟩
  · rw [heq] at h
    cases h
    exact .unreadable text
  · rw [heq] at h
    cases h
    exact .duplicate card.name
  · rw [heq] at h
    have hreads : Shape.Reads _ ((Shape.ofCard card).map (d.addShape card.name)) :=
      Shape.reads_ofCard.map (Q := fun _ => True) fun _ _ => trivial
    rw [h] at hreads
    exact hreads

theorem addSurfaceCard_of_describes {d : Draft K} {text : String} {card : Card.SurfaceCard K}
    {shape : Shape K} (hread : Card.readSurface text.toList = some card)
    (hname : d.entries.contains card.name = false) (hshape : Shape.ofCard card = .ok shape) :
    d.addSurfaceCard text = .ok (d.addShape card.name shape) := by
  rw [addSurfaceCard_of_free hread hname, hshape]
  rfl

theorem addSurfaceCard_added {d d' : Draft K} {text : String} (h : d.addSurfaceCard text = .ok d') :
    ∃ card entry, Card.readSurface text.toList = some card ∧ d.SurfaceAdded card entry d' := by
  obtain ⟨card, shape, hcard, hname, -, htype, rfl⟩ := addSurfaceCard_describes h
  obtain ⟨entry, hframe, hform, hputs⟩ := addShape_puts d card.name shape
  obtain ⟨hentry, hcount⟩ := htype.entry hform
  refine ⟨card, entry, hcard, ?_⟩
  constructor
  case free => exact hname
  case form => exact hentry
  case count => exact hcount
  case distinct => exact hputs.distinct
  case unused => exact hputs.free
  case present =>
    intro i id hid
    obtain ⟨part, hpart, hfound⟩ := hputs.find?_of_getElem? hid
    rw [← Shape.getElem?_parts hform hpart]
    exact ⟨part.2, hfound⟩
  case behind => exact ⟨_, hputs.entries, Puts.keys_zipWith hputs.count⟩
  case frame =>
    have hentries := Table.entries_insert entry hname
    rw [← hentries]
    exact hframe

/-- A surface card is worked in completely or not at all. -/
theorem addCard_surface_whole (d : Draft K) (line : Nat) (text : String) :
    let o := d.addCard ⟨line, .surface, text⟩
    (∀ fault, o.fault = some fault → o.draft = d ∧
      ∀ name, fault.message ≠ Fault.compositeSurface name "unexpected number of faces") ∧
    (o.fault = none → ∃ card entry,
      Card.readSurface text.toList = some card ∧ d.SurfaceAdded card entry o.draft ∧
      (∀ name e, d.entries.find? name = some e → o.draft.entries.find? name = some e) ∧
      ∀ id s, d.surfaces.find? id = some s → o.draft.surfaces.find? id = some s) := by
  intro o
  have ho : o = Outcome.ofStep d (d.addSurfaceCard text) := rfl
  cases hcard : d.addSurfaceCard text with
  | error fault =>
    rw [hcard] at ho
    rw [ho]
    constructor
    · intro other hother
      obtain rfl : fault = other := Option.some.inj hother
      exact ⟨rfl, (addSurfaceCard_eq_error hcard).message_ne⟩
    · intro hnone
      cases hnone
  | ok d' =>
    rw [hcard] at ho
    rw [ho]
    constructor
    · intro other hother
      cases hother
    · intro _
      obtain ⟨card, entry, hread, hadded⟩ := addSurfaceCard_added hcard
      exact ⟨card, entry, hread, hadded, hadded.entries_kept, hadded.surfaces_kept⟩

/-- A cube has six faces, with their names in order. -/
theorem addCard_surface_whole_cube :
    let o := (new .empty : Draft Float).addCard ⟨1, .surface, "surf b cube 0 0 0 1"⟩
    ∃ card entry, Card.readSurface "surf b cube 0 0 0 1".toList = some card ∧
      (new .empty : Draft Float).SurfaceAdded card entry o.draft ∧
      entry.surfaces.length = 6 ∧
      o.draft.surfaces.values.map (·.name) =
        ["b_sub_0", "b_sub_1", "b_sub_2", "b_sub_3", "b_sub_4", "b_sub_5"] := by
  have hdone : ((new .empty : Draft Float).addCard
      ⟨1, .surface, "surf b cube 0 0 0 1"⟩).fault = none := by
    decide +kernel
  have htype : (Card.readSurface (K := Float) "surf b cube 0 0 0 1".toList).map (·.type) =
      some "cube" := by
    decide +kernel
  obtain ⟨card, entry, hread, hadded, -, -⟩ :=
    (addCard_surface_whole (new .empty : Draft Float) 1 "surf b cube 0 0 0 1").2 hdone
  rw [hread, Option.map_some, Option.some.injEq] at htype
  have hcount : entry.surfaces.length = 6 := by
    rw [hadded.count, htype]
    decide
  exact ⟨card, entry, hread, hadded, hcount, by decide +kernel⟩

end Draft

end SerpentCsg
