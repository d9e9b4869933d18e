import SerpentCsg.Geometry.Basic
import SerpentCsg.Proofs.Fallible
import SerpentCsg.Proofs.Region.Surfaces

/-! # What the Check of a Geometry Finds

  A geometry refers to its parts from its root, from its cells and regions, from the arrays of its
  lattices and from the lists of cells of its universes. `Refers` has one rule for each of these
  places, and `Declares` says that what is referred to is there.

  The check accepts a geometry exactly if all is declared that it refers to from anywhere but the
  lists of cells. The lists are not looked at, so a universe can list a cell that does not exist.
-/

namespace SerpentCsg

/-! ### Half-spaces of a region -/

/-- A half-space occurs in a region. -/
inductive Region.Has (h : Halfspace) : Region → Prop
  | here : Has h (.halfspace h)
  | intersection {parts part} (mem : part ∈ parts) (occurs : Has h part) :
      Has h (.intersection parts)
  | union {parts part} (mem : part ∈ parts) (occurs : Has h part) : Has h (.union parts)
  | complement {part} (occurs : Has h part) : Has h (.complement part)

theorem Region.mem_halfspaces_iff {r : Region} {h : Halfspace} :
    h ∈ r.halfspaces ↔ r.Has h := by
  induction r using Region.induction_parts with
  | halfspace other =>
    rw [halfspaces, List.mem_singleton]
    constructor
    · rintro rfl
      exact .here
    · rintro ⟨⟩
      rfl
  | intersection parts ih =>
    rw [halfspaces, halfspacesOf_eq_flatMap, List.mem_flatMap]
    constructor
    · rintro ⟨part, hpart, hmem⟩
      exact .intersection hpart ((ih part hpart).1 hmem)
    · rintro (_ | ⟨hpart, hoccurs⟩)
      exact ⟨_, hpart, (ih _ hpart).2 hoccurs⟩
  | union parts ih =>
    rw [halfspaces, halfspacesOf_eq_flatMap, List.mem_flatMap]
    constructor
    · rintro ⟨part, hpart, hmem⟩
      exact .union hpart ((ih part hpart).1 hmem)
    · rintro (_ | _ | ⟨hpart, hoccurs⟩)
      exact ⟨_, hpart, (ih _ hpart).2 hoccurs⟩
  | complement part ih =>
    rw [halfspaces, ih]
    constructor
    · exact .complement
    · rintro (_ | _ | _ | hoccurs)
      exact hoccurs

namespace Geometry

variable {K : Type}

/-! ### References -/

/-- What a geometry can refer to. -/
inductive Reference where
  | surface (id : Nat)
  | cell (name : String)
  | universe (name : String)
  | material (name : String)

/-- A geometry refers to something, in one of the places where it does so. -/
inductive Refers (g : Geometry K) : Reference → Prop
  /-- The universe that everything hangs off. -/
  | root : Refers g (.universe g.root)
  /-- The universe that a cell belongs to. -/
  | parent {c} (mem : c ∈ g.cells.values) : Refers g (.universe c.parent)
  | material {c name} (mem : c ∈ g.cells.values) (fill : c.fill = .material name) :
      Refers g (.material name)
  | filling {c name} (mem : c ∈ g.cells.values) (fill : c.fill = .universe name) :
      Refers g (.universe name)
  | surface {c region h} (mem : c ∈ g.cells.values) (region_eq : c.region = some region)
      (occurs : region.Has h) : Refers g (.surface h.surface)
  /-- An element of the array of a lattice. -/
  | element {u lattice row name} (mem : u ∈ g.universes.values)
      (lattice_eq : u.lattice = some lattice) (row_mem : row ∈ lattice.universes)
      (name_mem : name ∈ row) : Refers g (.universe name)
  /-- A cell in the list of a universe. -/
  | member {u name} (mem : u ∈ g.universes.values) (name_mem : name ∈ u.cells) :
      Refers g (.cell name)

/-- What is referred to is in the tables. -/
def Declares (g : Geometry K) : Reference → Prop
  | .surface id => id ∈ g.surfaces.keys
  | .cell name => name ∈ g.cells.keys
  | .universe name => name ∈ g.universes.keys
  | .material name => name ∈ g.materials.table.keys

/-! ### The checks -/

theorem checkUniverse_eq_ok_iff {g : Geometry K} {name : String} :
    g.checkUniverse name = .ok () ↔ g.Declares (.universe name) := by
  have hcontains : g.Declares (.universe name) ↔ g.universes.contains name = true :=
    Table.mem_keys_iff
  unfold checkUniverse
  split <;> simp [*]

theorem checkFill_eq_ok_iff {g : Geometry K} {fill : Fill} :
    g.checkFill fill = .ok () ↔
      (∀ name, fill = .material name → g.Declares (.material name)) ∧
      ∀ name, fill = .universe name → g.Declares (.universe name) := by
  match fill with
  | .material name =>
    have hcontains : g.Declares (.material name) ↔ g.materials.contains name = true :=
      Table.mem_keys_iff
    simp only [checkFill]
    split <;> simp [*]
  | .universe name =>
    have hcheck : g.checkFill (.universe name) = .ok () ↔ g.Declares (.universe name) :=
      checkUniverse_eq_ok_iff
    simp [hcheck]
  | .void | .outside => simp [checkFill]

theorem checkRegion_eq_ok_iff {g : Geometry K} {c : Cell K} :
    g.checkRegion c = .ok () ↔
      ∀ region, c.region = some region → ∀ h, region.Has h → g.Declares (.surface h.surface) := by
  unfold checkRegion
  cases hregion : c.region with
  | none => simp
  | some region =>
    -- No surface is missing: in terms of the numbers and of the half-spaces.
    have hmissing : (region.surfaces.find? fun id => !g.surfaces.contains id) = none ↔
        ∀ h, region.Has h → g.Declares (.surface h.surface) := by
      rw [List.find?_eq_none]
      constructor
      · intro hids h hhas
        have hid : h.surface ∈ region.surfaces :=
          Region.mem_surfaces.2 ⟨h, Region.mem_halfspaces_iff.2 hhas, rfl⟩
        exact Table.mem_keys_iff.2 (by simpa using hids h.surface hid)
      · intro hdeclared id hid
        obtain ⟨h, hmem, rfl⟩ := Region.mem_surfaces.1 hid
        have hcontains := Table.mem_keys_iff.1 (hdeclared h (Region.mem_halfspaces_iff.1 hmem))
        simp [hcontains]
    simp only [Option.bind_some, Option.some.injEq, forall_eq', ← hmissing]
    split <;> simp [*]

theorem checkCell_eq_ok_iff {g : Geometry K} {c : Cell K} :
    g.checkCell c = .ok () ↔
      g.checkUniverse c.parent = .ok () ∧ g.checkFill c.fill = .ok () ∧
      g.checkRegion c = .ok () := by
  unfold checkCell
  rw [seq_eq_ok_iff, seq_eq_ok_iff]

theorem checkLattice_eq_ok_iff {g : Geometry K} {u : Universe K} :
    g.checkLattice u = .ok () ↔
      ∀ lattice, u.lattice = some lattice →
        ∀ row ∈ lattice.universes, ∀ name ∈ row, g.Declares (.universe name) := by
  unfold checkLattice
  cases hlattice : u.lattice with
  | none => simp
  | some lattice =>
    simp only [forM_eq_ok_iff, checkUniverse_eq_ok_iff, Lattice.names, List.mem_flatten,
      Option.some.injEq, forall_eq']
    constructor
    · intro h row hrow name hname
      exact h name ⟨row, hrow, hname⟩
    · rintro h name ⟨row, hrow, hname⟩
      exact h row hrow name hname

theorem check_eq_ok_iff_parts {g : Geometry K} :
    g.check = .ok () ↔
      g.checkUniverse g.root = .ok () ∧ (∀ c ∈ g.cells.values, g.checkCell c = .ok ()) ∧
      ∀ u ∈ g.universes.values, g.checkLattice u = .ok () := by
  unfold check
  rw [seq_eq_ok_iff, seq_eq_ok_iff, forM_eq_ok_iff, forM_eq_ok_iff]

/-- The check accepts a geometry exactly if everything is declared that it refers to, the cells
    in the lists of its universes aside. -/
theorem check_eq_ok_iff (g : Geometry K) :
    g.check = .ok () ↔
      ∀ r, g.Refers r → (∀ name, r ≠ .cell name) → g.Declares r := by
  simp only [check_eq_ok_iff_parts, checkUniverse_eq_ok_iff, checkCell_eq_ok_iff,
    checkFill_eq_ok_iff, checkRegion_eq_ok_iff, checkLattice_eq_ok_iff]
  -- Every rule of `Refers` is seen to by one check, that of the lists of cells aside.
  constructor
  · intro h r hrefers hcell
    obtain ⟨hroot, hcells, hlattices⟩ := h
    cases hrefers with
    | root => exact hroot
    | parent mem => exact (hcells _ mem).1
    | material mem fill => exact (hcells _ mem).2.1.1 _ fill
    | filling mem fill => exact (hcells _ mem).2.1.2 _ fill
    | surface mem region_eq occurs => exact (hcells _ mem).2.2 _ region_eq _ occurs
    | element mem lattice_eq row_mem name_mem =>
      exact hlattices _ mem _ lattice_eq _ row_mem _ name_mem
    | member mem name_mem => exact absurd rfl (hcell _)
  · intro h
    refine ⟨h _ .root (by simp), fun c hc => ⟨?_, ⟨?_, ?_⟩, ?_⟩, ?_⟩
    · exact h _ (.parent hc) (by simp)
    · exact fun name hfill => h _ (.material hc hfill) (by simp)
    · exact fun name hfill => h _ (.filling hc hfill) (by simp)
    · exact fun region hregion half hhas => h _ (.surface hc hregion hhas) (by simp)
    · exact fun u hu lattice hlattice row hrow name hname =>
        h _ (.element hu hlattice hrow hname) (by simp)

/-! ### The lists of cells -/

/-- A root universe that lists a cell, which does not exist. -/
def listingUnknown : Geometry Float where
  root := "0"
  surfaces := .empty
  cells := .empty
  universes := ⟨[("0", { id := 1, name := "0", cells := ["gone"] })]⟩
  materials := .empty

/-- The check accepts a geometry that refers to an undeclared cell. -/
theorem check_accepts_unknown_cell :
    listingUnknown.check = .ok () ∧
    ¬ (listingUnknown.check = .ok () ↔
      ∀ r, listingUnknown.Refers r → listingUnknown.Declares r) := by
  have hcheck : listingUnknown.check = .ok () := by decide
  refine ⟨hcheck, fun hiff => ?_⟩
  have hmember : listingUnknown.Refers (.cell "gone") :=
    .member List.mem_cons_self List.mem_cons_self
  exact List.not_mem_nil (hiff.1 hcheck _ hmember)

end Geometry

end SerpentCsg
