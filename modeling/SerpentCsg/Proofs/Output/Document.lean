import SerpentCsg.Proofs.Conversion.Root
import SerpentCsg.Proofs.Draft.Numbering
import SerpentCsg.Proofs.Exact.Rational
import SerpentCsg.Proofs.Output.Elements

/-! # What the Document Refers To

  The document of a geometry has one element for every cell, for every universe that holds a
  lattice and for every surface, in the order of the tables. Wherever one of them refers to
  another, it does so by the number of exactly that one, and the number zero, which stands for
  names that are not declared, is written nowhere.

  The relations of the first part say what the tag of a thing holds without looking anything up by
  number, and a document is the texts of tags, one after another. That the document satisfies them
  is shown for sound drafts first.
-/

namespace SerpentCsg

open Identifier (IsNumbering largest)

variable {K : Type}

namespace Output

/-! ### What is written -/

/-- There is a universe of a name, and it has a certain number. -/
structure UniverseWritten (g : Geometry K) (name : String) (n : Nat) : Prop where
  there : ∃ u, g.universes.find? name = some u ∧ u.name = name ∧ u.id = n
  pos : 1 ≤ n

/-- The attribute for what fills a cell. -/
inductive FillWritten (g : Geometry K) : Fill → String × String → Prop where
  | material {name : String} {m : Material} :
      g.materials.find? name = some m → FillWritten g (.material name) ("material", m.id.repr)
  | void : FillWritten g .void ("material", "void")
  | outside : FillWritten g .outside ("material", "void")
  | universe {name : String} {n : Nat} :
      UniverseWritten g name n → FillWritten g (.universe name) ("fill", n.repr)

/-- The text of a region. It is read as the region again, and every number in it is that of a
    surface. -/
structure RegionWritten (g : Geometry K) (r : Region) (text : String) : Prop where
  read : Region.ofExpression text = .ok r
  surfaces : ∀ id ∈ r.surfaces, 1 ≤ id ∧ ∃ s, g.surfaces.find? id = some s ∧ s.id = id

/-- The tag of a cell. -/
structure CellWritten [Scalar K] (g : Geometry K) (c : Cell K) (tag : CellTag K) : Prop where
  id : tag.id = c.id
  name : NameWritten c.name tag.name
  parent : UniverseWritten g c.parent tag.parent
  fill : FillWritten g c.fill tag.fill
  region : Option.Rel (RegionWritten g) c.region tag.region
  translation : tag.translation = c.shift
  rotation : tag.rotation = c.inwardRotation

/-- The tag of a lattice on a universe, with the numbers of its universes row by row from the
    top. -/
structure LatticeWritten [Scalar K] (g : Geometry K) (held : Universe K × Lattice K)
    (tag : LatticeTag K) : Prop where
  id : tag.id = held.1.id
  name : NameWritten held.1.name tag.name
  pitch : tag.pitch = held.2.pitch
  columns : tag.columns = held.2.columns
  rows : tag.rows = held.2.rows
  lowerLeft : tag.lowerLeft = held.2.lowerLeft
  universes :
    List.Forall₂ (List.Forall₂ (UniverseWritten g)) held.2.universes.reverse tag.universes

/-- The tag of a surface. -/
structure SurfaceWritten [Scalar K] (s : Surface K) (tag : SurfaceTag K) : Prop where
  id : tag.id = s.id
  name : NameWritten s.name tag.name
  type : tag.type = s.kind.openmcType
  coefficients : tag.coefficients = s.kind.openmcCoefficients
  boundary : tag.boundary = if s.boundary = .transmission then none else some s.boundary.word

/-- Universes that hold a lattice, each with its lattice. -/
def lattices (g : Geometry K) : List (Universe K × Lattice K) :=
  g.universes.values.filterMap fun u => u.lattice.map fun l => (u, l)

/-- The whole document: one element for every cell, every lattice and every surface. -/
inductive DocumentWritten [Scalar K] (g : Geometry K) : String → Prop where
  | mk {cells : List (CellTag K)} {held : List (LatticeTag K)} {surfaces : List (SurfaceTag K)} :
      List.Forall₂ (CellWritten g) g.cells.values cells →
      List.Forall₂ (LatticeWritten g) (lattices g) held →
      List.Forall₂ SurfaceWritten g.surfaces.values surfaces →
      DocumentWritten g
        ("<?xml version='1.0' encoding='utf-8'?>\n<geometry>\n" ++
          String.join (cells.map CellTag.text) ++ String.join (held.map LatticeTag.text) ++
          String.join (surfaces.map SurfaceTag.text) ++ "</geometry>\n")

end Output

/-! ### Numbers of a geometry -/

namespace Geometry

/-- There are no more things of a kind than numbers for them. With one more, the search for a free
    number would not end, and there would be no geometry. -/
structure FitsNumbers (g : Geometry K) : Prop where
  surfaces : g.surfaces.size ≤ largest
  cells : g.cells.size ≤ largest
  universes : g.universes.size ≤ largest

/-- Everything has been numbered, each kind apart from the others, with numbers from one up to the
    largest. -/
structure WellNumbered (g : Geometry K) : Prop where
  surfaces : IsNumbering g.surfaceNumbers
  cells : IsNumbering g.cellNumbers
  universes : IsNumbering g.universeNumbers
  range : ∀ entry ∈ g.surfaceNumbers ++ g.cellNumbers ++ g.universeNumbers,
    1 ≤ entry.2 ∧ entry.2 ≤ largest

theorem WellNumbered.surface_range {g : Geometry K} (h : g.WellNumbered) {id : Nat} {s : Surface K}
    (hs : g.surfaces.find? id = some s) : 1 ≤ s.id ∧ s.id ≤ largest := by
  have hmem : (s.name, s.id) ∈ g.surfaceNumbers :=
    List.mem_map_of_mem (f := fun s => (s.name, s.id)) (Table.mem_values_of_find? hs)
  exact h.range (s.name, s.id) (by simp [hmem])

theorem WellNumbered.universe_range {g : Geometry K} (h : g.WellNumbered) {name : String}
    {u : Universe K} (hu : g.universes.find? name = some u) : 1 ≤ u.id ∧ u.id ≤ largest := by
  have hmem : (u.name, u.id) ∈ g.universeNumbers :=
    List.mem_map_of_mem (f := fun u => (u.name, u.id)) (Table.mem_values_of_find? hu)
  exact h.range (u.name, u.id) (by simp [hmem])

end Geometry

namespace Draft

theorem wellNumbered {d : Draft K} (h : d.Numbered) (hcells : d.CellsNumbered)
    (hfits : d.geometry.FitsNumbers) : d.geometry.WellNumbered := by
  refine ⟨h.surfaces, hcells.cells, h.universes, fun entry hentry => ?_⟩
  have hsurfaces : d.geometry.surfaceNumbers.length ≤ largest := by
    simpa [Geometry.surfaceNumbers, Table.values, Table.size] using hfits.surfaces
  have hcells' : d.geometry.cellNumbers.length ≤ largest := by
    simpa [Geometry.cellNumbers, Table.values, Table.size] using hfits.cells
  have huniverses : d.geometry.universeNumbers.length ≤ largest := by
    simpa [Geometry.universeNumbers, Table.values, Table.size] using hfits.universes
  rw [List.mem_append, List.mem_append] at hentry
  rcases hentry with (hmem | hmem) | hmem
  · exact ⟨h.surfaces.pos entry hmem, h.surfaces.le_largest hsurfaces entry hmem⟩
  · exact ⟨hcells.cells.pos entry hmem, hcells.cells.le_largest hcells' entry hmem⟩
  · exact ⟨h.universes.pos entry hmem, h.universes.le_largest huniverses entry hmem⟩

/-! ### Regions that can be read -/

/-- Every combination in a region has two parts or more, so what is written of the region is read
    as the region again. -/
def Legible (d : Draft K) : Prop :=
  d.cells.All fun _ c => ∀ r, c.region = some r → r.hasParts 2 = true

theorem legible_new (materials : MaterialLibrary) : (new materials : Draft K).Legible :=
  Table.all_empty _

theorem Legible.changes [Scalar K] {d d' : Draft K} (h : d.Legible) (hc : Changes d d') :
    d'.Legible := by
  induction hc with
  | refl => exact h
  | tail _ hlast ih =>
    cases hlast with
    | sets hs => cases hs <;> exact ih
    | declares hd =>
      cases hd with
      | mention name =>
        unfold Legible
        rw [ensureUniverse_cells]
        exact ih
      | cell hadd _ _ _ _ hparts =>
        unfold Legible
        rw [cells_addCell hadd]
        exact ih.insert hparts
      | _ => exact ih
    | moves hm =>
      cases hm with
      | surface => exact ih
      | copy _ _ _ hcopy =>
        obtain ⟨s, -, -, rfl⟩ := copySurface_eq_some hcopy
        exact ih
      | renumber =>
        -- Other numbers make no difference to the form of a region.
        refine ih.modify fun c hc r hr => ?_
        obtain ⟨q, hq, rfl⟩ := Option.map_eq_some_iff.1 hr
        rw [Region.hasParts_renumber]
        exact ih.find? hc q hq
      | filling moves =>
        refine ih.modify fun c hc r hr => ?_
        rw [(fillMovedAll_keeps c moves).2.2.2] at hr
        exact ih.find? hc r hr

end Draft

namespace Output

/-! ### Looking up by number -/

section Elements

variable {d : Draft K} (hsound : d.Sound) (hnumbered : d.geometry.WellNumbered)

include hsound hnumbered

theorem universeWritten {name : String} (hname : d.universes.contains name = true) :
    UniverseWritten d.geometry name (universeNumber d.geometry name) := by
  obtain ⟨u, hu⟩ := Table.contains_iff.1 hname
  have hu : d.geometry.universes.find? name = some u := hu
  have hnumber : universeNumber d.geometry name = u.id := by simp only [universeNumber, hu]
  rw [hnumber]
  exact ⟨⟨u, hu, (hsound.universes.find? hu).1, rfl⟩, (hnumbered.universe_range hu).1⟩

theorem fillWritten {fill : Fill} (hfill : d.FillResolved fill) :
    FillWritten d.geometry fill (fillAttribute d.geometry fill) := by
  match fill with
  | .material name =>
    obtain ⟨m, hm⟩ := Table.contains_iff.1 hfill
    have hm : d.geometry.materials.find? name = some m := hm
    have hnumber : materialNumber d.geometry name = m.id := by simp only [materialNumber, hm]
    rw [fillAttribute, hnumber]
    exact .material hm
  | .universe name => exact .universe (universeWritten hsound hnumbered hfill)
  | .void => exact .void
  | .outside => exact .outside

theorem regionWritten {r : Region} (hparts : r.hasParts 2 = true)
    (hthere : ∀ id ∈ r.surfaces, d.surfaces.contains id = true) :
    RegionWritten d.geometry r r.unsignedText := by
  have hsurfaces (id : Nat) (hid : id ∈ r.surfaces) :
      (1 ≤ id ∧ id ≤ largest) ∧ ∃ s, d.geometry.surfaces.find? id = some s ∧ s.id = id := by
    obtain ⟨s, hs⟩ := Table.contains_iff.1 (hthere id hid)
    have hkey : s.id = id := hsound.surfaces.find? hs
    exact ⟨hkey ▸ hnumbered.surface_range hs, s, hs, hkey⟩
  have hunsigned : Region.KeepsAllButPlus (· != '+') := fun c hc => by simpa using hc
  have hfits (id : Nat) (hid : id ∈ r.surfaces) : id ≤ Text.max32 :=
    (hsurfaces id hid).1.2.trans (by decide)
  have hread := Region.read_chars hunsigned (Region.hasParts_of_le (by decide) hparts) hfits
  rw [Region.collapsed_eq_self hparts] at hread
  refine ⟨?_, fun id hid => ⟨(hsurfaces id hid).1.1, (hsurfaces id hid).2⟩⟩
  rw [Region.ofExpression_eq_ok_iff, Region.unsignedText, String.toList_ofList]
  exact hread

variable [Scalar K]

theorem cellWritten {c : Cell K} (hresolved : d.CellResolved c)
    (hparts : ∀ r, c.region = some r → r.hasParts 2 = true) :
    CellWritten d.geometry c (cellTag d.geometry c) where
  id := rfl
  name := nameWritten c.name
  parent := universeWritten hsound hnumbered hresolved.parent
  fill := fillWritten hsound hnumbered hresolved.fill
  region := by
    unfold cellTag
    cases hr : c.region with
    | none => exact .none
    | some r => exact .some (regionWritten hsound hnumbered (hparts r hr) (hresolved.region r hr))
  translation := rfl
  rotation := rfl

theorem latticeWritten {u : Universe K} {l : Lattice K}
    (hnames : ∀ name ∈ l.names, d.universes.contains name = true) :
    LatticeWritten d.geometry (u, l) (latticeTag d.geometry u l) where
  id := rfl
  name := nameWritten u.name
  pitch := rfl
  columns := rfl
  rows := rfl
  lowerLeft := rfl
  universes := by
    unfold latticeTag latticeNumbers
    rw [List.forall₂_map_right_iff, List.forall₂_same]
    intro row hrow
    rw [List.forall₂_map_right_iff, List.forall₂_same]
    intro name hname
    refine universeWritten hsound hnumbered (hnames name ?_)
    exact List.mem_flatten.2 ⟨row, List.mem_reverse.1 hrow, hname⟩

end Elements

theorem surfaceWritten [Scalar K] (s : Surface K) : SurfaceWritten s (surfaceTag s) where
  id := rfl
  name := nameWritten s.name
  type := rfl
  coefficients := rfl
  boundary := rfl

/-! ### The document -/

variable [Scalar K]

/-- Universes without a lattice have no element. -/
theorem join_universeElements (g : Geometry K) :
    String.join (g.universes.values.map (universeElement g)) =
      String.join (((lattices g).map fun (u, l) => latticeTag g u l).map LatticeTag.text) := by
  unfold lattices
  induction g.universes.values with
  | nil => rfl
  | cons u us ih =>
    rw [List.map_cons, String.join_cons, ih]
    cases hl : u.lattice with
    | none => simp [universeElement, hl]
    | some l => simp [universeElement, hl, String.join_cons, latticeElement_eq]

/-- The document consists of the texts of tags. -/
theorem geometryDocument_eq (g : Geometry K) :
    geometryDocument g = "<?xml version='1.0' encoding='utf-8'?>\n<geometry>\n" ++
      String.join ((g.cells.values.map (cellTag g)).map CellTag.text) ++
      String.join (((lattices g).map fun (u, l) => latticeTag g u l).map LatticeTag.text) ++
      String.join ((g.surfaces.values.map surfaceTag).map SurfaceTag.text) ++ "</geometry>\n" := by
  have hcells : g.cells.values.map (cellElement g) =
      (g.cells.values.map (cellTag g)).map CellTag.text := by
    rw [List.map_map]
    exact List.map_congr_left fun c _ => cellElement_eq g c
  have hsurfaces : g.surfaces.values.map surfaceElement =
      (g.surfaces.values.map surfaceTag).map SurfaceTag.text := by
    rw [List.map_map]
    exact List.map_congr_left fun s _ => surfaceElement_eq s
  unfold geometryDocument
  rw [join_universeElements, hcells, hsurfaces]

theorem documentWritten {d : Draft K} (hsound : d.Sound) (hlegible : d.Legible)
    (hnumbered : d.geometry.WellNumbered) :
    DocumentWritten d.geometry (geometryDocument d.geometry) := by
  rw [geometryDocument_eq]
  refine .mk ?_ ?_ ?_
  · rw [List.forall₂_map_right_iff, List.forall₂_same]
    intro c hc
    obtain ⟨entry, hentry, rfl⟩ := List.mem_map.1 hc
    exact cellWritten hsound hnumbered (hsound.cells entry hentry).2 (hlegible entry hentry)
  · rw [List.forall₂_map_right_iff, List.forall₂_same]
    intro (u, l) hmem
    obtain ⟨v, hv, hl⟩ := List.mem_filterMap.1 hmem
    obtain ⟨l', hl', heq⟩ := Option.map_eq_some_iff.1 hl
    obtain ⟨rfl, rfl⟩ := Prod.mk.inj heq
    obtain ⟨name, -, hresolved⟩ := hsound.universes.of_mem_values hv
    exact latticeWritten hsound hnumbered (hresolved.lattice l' hl')
  · rw [List.forall₂_map_right_iff, List.forall₂_same]
    exact fun s _ => surfaceWritten s

end Output

/-! ### Geometries of lines -/

namespace Conversion

open Draft

variable [Scalar K]

/-- In a geometry that is made of lines, the numbers of a kind are distinct and in the allowed
    range, and a name has the number that it asks for unless that was given away before. In the
    document everything is referred to by its number. -/
theorem ofLines_numbered {lines : List String} {materials : MaterialLibrary} {c : Conversion K}
    (h : ofLines lines materials = .ok c) (hfits : c.geometry.FitsNumbers) :
    c.geometry.WellNumbered ∧
      Output.DocumentWritten c.geometry (Output.geometryDocument c.geometry) := by
  obtain ⟨d, hdeck, hfinish⟩ := ofLines_eq_ok h
  have hnew := sound_new (K := K) materials
  have hchanges := changes_of_addCards hnew hdeck
  have hsound := hnew.changes hchanges
  obtain rfl := ofDraft_eq_ok hsound hfinish
  have hcells := (cellsNumbered_new (K := K) materials).addCards hnew hdeck
  have hnumbered := wellNumbered ((numbered_new materials).changes hnew hchanges) hcells hfits
  exact ⟨hnumbered, Output.documentWritten hsound ((legible_new materials).changes hchanges)
    hnumbered⟩

/-- Universes whose names ask for the same number, a lattice of two of them, and a surface at the
    boundary. -/
def collidingLines : List String :=
  ["surf 5 sph 0 0 0 2", "cell 10 0 fill 1 -5", "cell 11 1 void -5", "cell 12 01 void 5",
    "cell 13 0 outside 5", "lat 9 1 0 0 2 1 10 01 1"]

/-- The elements of their cells. -/
def collidingCells : String :=
  "  <cell id=\"10\" name=\"10\" universe=\"2\" fill=\"1\" region=\"-5\" />\n" ++
  "  <cell id=\"11\" name=\"11\" universe=\"1\" material=\"void\" region=\"-5\" />\n" ++
  "  <cell id=\"12\" name=\"12\" universe=\"3\" material=\"void\" region=\"5\" />\n" ++
  "  <cell id=\"13\" name=\"13\" universe=\"2\" material=\"void\" region=\"5\" />\n"

/-- The element of their lattice. -/
def collidingLattice : String :=
  "  <lattice id=\"9\" name=\"9\">\n" ++
  "    <pitch>10 10</pitch>\n" ++
  "    <dimension>2 1</dimension>\n" ++
  "    <lower_left>-10 -5</lower_left>\n" ++
  "    <universes>\n3 1\n    </universes>\n" ++
  "  </lattice>\n"

/-- The element of their surface. -/
def collidingSurface : String :=
  "  <surface id=\"5\" name=\"5\" type=\"sphere\" coeffs=\"0 0 0 2\" boundary=\"vacuum\" />\n"

/-- The first of the universes gets the number, and the others get the next ones. -/
theorem ofLines_numbered_colliding :
    ∃ c : Conversion Rat, ofLines collidingLines .empty = .ok c ∧ c.geometry.FitsNumbers ∧
      c.geometry.universeNumbers = [("1", 1), ("0", 2), ("01", 3), ("9", 9)] ∧
      c.geometry.WellNumbered ∧
      Output.DocumentWritten c.geometry (Output.geometryDocument c.geometry) ∧
      Output.geometryDocument c.geometry =
        "<?xml version='1.0' encoding='utf-8'?>\n<geometry>\n" ++ collidingCells ++
          collidingLattice ++ collidingSurface ++ "</geometry>\n" := by
  have hrun : ((ofLines (K := Rat) collidingLines .empty).toOption.map fun c =>
      (c.geometry.surfaces.size, c.geometry.cells.size, c.geometry.universes.size,
        c.geometry.universeNumbers)) =
      some (1, 4, 4, [("1", 1), ("0", 2), ("01", 3), ("9", 9)]) := by
    decide +kernel
  have hdocument : ((ofLines (K := Rat) collidingLines .empty).toOption.map fun c =>
      (String.join (c.geometry.cells.values.map (Output.cellElement c.geometry)),
        String.join (c.geometry.universes.values.map (Output.universeElement c.geometry)),
        String.join (c.geometry.surfaces.values.map Output.surfaceElement))) =
      some (collidingCells, collidingLattice, collidingSurface) := by
    decide +kernel
  cases h : ofLines (K := Rat) collidingLines .empty with
  | error report => simp [h, Except.toOption] at hrun
  | ok c =>
    simp only [h, Except.toOption, Option.map_some, Option.some.injEq, Prod.mk.injEq] at hrun
    simp only [h, Except.toOption, Option.map_some, Option.some.injEq, Prod.mk.injEq] at hdocument
    obtain ⟨hsurfaces, hcells, huniverses, hnumbers⟩ := hrun
    have hfits : c.geometry.FitsNumbers :=
      ⟨by rw [hsurfaces]; decide, by rw [hcells]; decide, by rw [huniverses]; decide⟩
    obtain ⟨hnumbered, hwritten⟩ := ofLines_numbered h hfits
    refine ⟨c, rfl, hfits, hnumbers, hnumbered, hwritten, ?_⟩
    unfold Output.geometryDocument
    rw [hdocument.1, hdocument.2.1, hdocument.2.2]

end Conversion

end SerpentCsg
