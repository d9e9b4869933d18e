import Mathlib.Data.Finset.Card
import Mathlib.Data.List.Dedup
import Mathlib.Logic.Relation
import SerpentCsg.Geometry.Location
import SerpentCsg.Proofs.Table
import SerpentCsg.Scalar.Binary64

/-! # Locating Points Without a Limit

  The search for the cell at a point passes through a limited number of universes. Where no
  universe is nested in itself, a walk down comes through no universe twice, so that it ends without
  any limit. `descent` is that walk. It is the search if the geometry has no more
  universes than the search may pass through.

  The number of universes that can be reached from a universe (`reach`) goes down with every step
  and is the bound for both.
-/

namespace SerpentCsg.Geometry

open Relation (ReflTransGen TransGen)

variable {K : Type}

/-! ### Nesting -/

/-- A universe leads on to another one: the lattice on it lists the other one, or it has no lattice
    and one of the cells in its list is filled with the other one. -/
inductive LeadsTo (g : Geometry K) : String → String → Prop where
  | element {name inner : String} {u : Universe K} {lattice : Lattice K} :
      g.universes.find? name = some u → u.lattice = some lattice → inner ∈ lattice.names →
      LeadsTo g name inner
  | filling {name inner member : String} {u : Universe K} {c : Cell K} :
      g.universes.find? name = some u → u.lattice = none → member ∈ u.cells →
      g.cells.find? member = some c → c.fill = .universe inner → LeadsTo g name inner

/-- No universe leads back to itself. -/
def Acyclic (g : Geometry K) : Prop := ∀ name, ¬ TransGen g.LeadsTo name name

variable {g : Geometry K}

/-- Only universes of the geometry lead on. -/
theorem LeadsTo.mem_keys {name inner : String} (h : g.LeadsTo name inner) :
    name ∈ g.universes.keys := by
  cases h with
  | element hfound => exact Table.mem_keys_iff.2 (Table.contains_of_find? hfound)
  | filling hfound => exact Table.mem_keys_iff.2 (Table.contains_of_find? hfound)

open Classical in
/-- Number of universes of the geometry that a universe leads to, itself included. -/
noncomputable def reach (g : Geometry K) (name : String) : Nat :=
  (g.universes.keys.toFinset.filter fun other => ReflTransGen g.LeadsTo name other).card

theorem reach_le_size (g : Geometry K) (name : String) : g.reach name ≤ g.universes.size := by
  classical
  refine (Finset.card_filter_le _ _).trans ((List.toFinset_card_le _).trans ?_)
  rw [Table.keys, List.length_map]
  rfl

theorem reach_pos {name : String} (h : name ∈ g.universes.keys) : 0 < g.reach name := by
  classical
  exact Finset.card_pos.2 ⟨name, Finset.mem_filter.2 ⟨List.mem_toFinset.2 h, .refl⟩⟩

/-- Every step leaves a universe behind. -/
theorem LeadsTo.reach_lt (hacyclic : g.Acyclic) {name inner : String}
    (h : g.LeadsTo name inner) : g.reach inner < g.reach name := by
  classical
  refine Finset.card_lt_card (Finset.ssubset_iff_of_subset ?_ |>.2 ⟨name, ?_, ?_⟩)
  · intro other hother
    rw [Finset.mem_filter] at hother ⊢
    exact ⟨hother.1, .head h hother.2⟩
  · exact Finset.mem_filter.2 ⟨List.mem_toFinset.2 h.mem_keys, .refl⟩
  -- The inner universe does not lead back.
  · intro hback
    exact hacyclic name (.head' h (Finset.mem_filter.1 hback).2)

/-- Where no universe leads back to itself, walks end. -/
theorem Acyclic.wellFounded (hacyclic : g.Acyclic) :
    WellFounded fun inner name => g.LeadsTo name inner :=
  Subrelation.wf (fun h => h.reach_lt hacyclic) (measure g.reach).wf

/-- A geometry in which universes lead on to universes of smaller rank only. -/
theorem acyclic_of_rank (rank : String → Nat)
    (h : ∀ name inner, g.LeadsTo name inner → rank inner < rank name) : g.Acyclic := by
  have hlt {name inner : String} (hchain : TransGen g.LeadsTo name inner) :
      rank inner < rank name := by
    induction hchain with
    | single hstep => exact h _ _ hstep
    | tail _ hstep ih => exact (h _ _ hstep).trans ih
  exact fun name hcycle => Nat.lt_irrefl _ (hlt hcycle)

/-! ### The walk -/

variable [Scalar K]

/-- The first of some cells, given by their names, that contains a point. Names without a cell are
    passed over. -/
def firstAt? (g : Geometry K) (p : Vec3 K) : List String → Option (Cell K)
  | [] => none
  | name :: rest =>
    match g.cells.find? name with
    | none => firstAt? g p rest
    | some c => if c.contains g.surfaces p then some c else firstAt? g p rest

theorem firstAt?_eq_find? (p : Vec3 K) (names : List String) :
    g.firstAt? p names =
      (names.filterMap g.cells.find?).find? fun c => c.contains g.surfaces p := by
  fun_induction firstAt? g p names with
  | case1 => rfl
  | case2 name rest hcell ih => rw [List.filterMap_cons_none hcell, ih]
  | case3 name rest c hcell hcontains => simp [List.filterMap_cons_some hcell, hcontains]
  | case4 name rest c hcell hcontains ih => simp [List.filterMap_cons_some hcell, hcontains, ih]

theorem exists_of_firstAt? {p : Vec3 K} {names : List String} {c : Cell K}
    (h : g.firstAt? p names = some c) : ∃ name ∈ names, g.cells.find? name = some c := by
  rw [firstAt?_eq_find?] at h
  exact List.mem_filterMap.1 (List.mem_of_find?_eq_some h)

/-- Why there is no cell at a point. -/
inductive Loss where
  /-- There is no universe of a name. -/
  | noUniverse
  /-- No element of a lattice holds the point, or none of its array. -/
  | noElement
  /-- No cell of a universe contains the point. -/
  | noCell
  deriving Repr, DecidableEq

/-- What a walk meets in a universe. -/
inductive Sight (K : Type) where
  | lost (loss : Loss)
  /-- A cell that is not filled with a universe. -/
  | cell (c : Cell K)
  /-- A further universe, and the point as it is seen there. -/
  | inner (name : String) (p : Vec3 K)

/-- What a walk meets in the universe of a name. -/
def look (g : Geometry K) (name : String) (p : Vec3 K) : Sight K :=
  match g.universes.find? name with
  | none => .lost .noUniverse
  | some u =>
    match u.lattice with
    | some lattice =>
      match (lattice.elementAt? p).bind lattice.universe? with
      | none => .lost .noElement
      | some inner => .inner inner (lattice.toLocal p)
    | none =>
      match g.firstAt? p u.cells with
      | none => .lost .noCell
      | some c =>
        match c.fill with
        | .universe inner => .inner inner (c.toLocal p)
        | _ => .cell c

/-- A walk goes where universes lead on to. -/
theorem leadsTo_of_look {name inner : String} {p q : Vec3 K}
    (h : g.look name p = .inner inner q) : g.LeadsTo name inner := by
  unfold look at h
  split at h
  · simp at h
  next u hfound =>
    split at h
    next lattice hlattice =>
      split at h
      · simp at h
      next other helement =>
        obtain ⟨rfl, -⟩ := Sight.inner.inj h
        obtain ⟨e, -, hname⟩ := Option.bind_eq_some_iff.1 helement
        obtain ⟨row, hrow, hmem⟩ := Option.bind_eq_some_iff.1 hname
        refine .element hfound hlattice (List.mem_flatten.2 ⟨row, ?_, ?_⟩)
        · exact List.mem_of_getElem? hrow
        · exact List.mem_of_getElem? hmem
    next hlattice =>
      split at h
      · simp at h
      next c hcell =>
        obtain ⟨member, hmember, hc⟩ := exists_of_firstAt? hcell
        split at h
        next other hfill =>
          obtain ⟨rfl, -⟩ := Sight.inner.inj h
          exact .filling hfound hlattice hmember hc hfill
        · simp at h

set_option linter.unusedVariables false in
/-- The walk from a universe down to the cell at a point, however deep it goes. -/
def descent (g : Geometry K) (wf : WellFounded fun inner name => g.LeadsTo name inner)
    (name : String) (p : Vec3 K) : Except Loss (Cell K) :=
  match h : g.look name p with
  | .lost loss => .error loss
  | .cell c => .ok c
  | .inner inner q => descent g wf inner q
termination_by wf.wrap name
decreasing_by exact leadsTo_of_look h

section Descent

variable {wf : WellFounded fun inner name => g.LeadsTo name inner} {name inner : String}
  {p q : Vec3 K} {loss : Loss} {c : Cell K}

theorem descent_of_lost (h : g.look name p = .lost loss) :
    g.descent wf name p = .error loss := by
  rw [descent]
  split <;> simp_all

theorem descent_of_cell (h : g.look name p = .cell c) : g.descent wf name p = .ok c := by
  rw [descent]
  split <;> simp_all

theorem descent_of_inner (h : g.look name p = .inner inner q) :
    g.descent wf name p = g.descent wf inner q := by
  rw [descent]
  split <;> simp_all

end Descent

/-! ### The search -/

/-- What a search ends with that meets something and then goes on as given. -/
def Sight.follow (next : String → Vec3 K → Option (Cell K)) : Sight K → Option (Cell K)
  | .lost _ => none
  | .cell c => some c
  | .inner name p => next name p

/-- The search from the universe of a name, through at most so many universes. -/
def search (g : Geometry K) (depth : Nat) (name : String) (p : Vec3 K) : Option (Cell K) :=
  (g.universes.find? name).bind fun u => g.descend depth u p

/-- The search looks where the walk does. -/
theorem search_succ (depth : Nat) (name : String) (p : Vec3 K) :
    g.search (depth + 1) name p = (g.look name p).follow (g.search depth) := by
  unfold search look
  cases hfound : g.universes.find? name with
  | none => rfl
  | some u =>
    rw [Option.bind_some, descend]
    cases hlattice : u.lattice with
    | some lattice =>
      cases helement : (lattice.elementAt? p).bind lattice.universe? with
      | none => simp [elementUniverse?, hlattice, helement, Sight.follow]
      | some inner => simp [elementUniverse?, hlattice, helement, Sight.follow]
    | none =>
      simp only [memberAt?, ← firstAt?_eq_find?, hlattice]
      cases g.firstAt? p u.cells with
      | none => rfl
      | some c => cases hfill : c.fill <;> simp [hfill, Sight.follow]

/-- A search through as many universes as there are to reach is the walk. -/
theorem search_eq_descent (hacyclic : g.Acyclic)
    (wf : WellFounded fun inner name => g.LeadsTo name inner) {depth : Nat} {name : String}
    (hdepth : g.reach name ≤ depth) (p : Vec3 K) :
    g.search depth name p = (g.descent wf name p).toOption := by
  -- Every step takes one off the limit, and at least one off the universes to reach.
  induction depth generalizing name p with
  | zero =>
    have hunknown : g.universes.find? name = none := by
      by_contra hknown
      obtain ⟨u, hu⟩ := Option.ne_none_iff_exists'.1 hknown
      have hpos := reach_pos (Table.mem_keys_iff.2 (Table.contains_of_find? hu))
      omega
    have hlook : g.look name p = .lost .noUniverse := by rw [look, hunknown]
    rw [search, hunknown, descent_of_lost hlook]
    rfl
  | succ depth ih =>
    rw [search_succ]
    cases hlook : g.look name p with
    | lost loss =>
      rw [descent_of_lost hlook]
      rfl
    | cell c =>
      rw [descent_of_cell hlook]
      rfl
    | inner inner q =>
      have hlt := (leadsTo_of_look hlook).reach_lt hacyclic
      rw [descent_of_inner hlook]
      exact ih (by omega) q

/-- In a geometry in which no universe leads back to itself, and which has no more than 64 of them,
    the search finds the cell that the walk comes to, and none only where the walk is lost. -/
theorem cellAt?_eq_descent (hacyclic : g.Acyclic) (hsize : g.universes.size ≤ 64) (p : Vec3 K) :
    g.cellAt? p = (g.descent hacyclic.wellFounded g.root p).toOption :=
  search_eq_descent hacyclic _ ((g.reach_le_size g.root).trans hsize) p

/-- Two places in the root universe that are filled with the same universe, and that universe with
    another one. -/
def sharedPin : Geometry Float where
  root := "0"
  surfaces := .empty
  cells := ⟨[("left", ⟨1, "left", "0", .universe "pin", none, some ⟨2, 0, 0⟩, none⟩),
    ("right", ⟨2, "right", "0", .universe "pin", none, none, none⟩),
    ("tube", ⟨3, "tube", "pin", .universe "rod", none, none, none⟩),
    ("fuel", ⟨4, "fuel", "rod", .void, none, none, none⟩)]⟩
  universes := ⟨[("0", { id := 1, name := "0", cells := ["gone", "left", "right"] }),
    ("pin", { id := 2, name := "pin", cells := ["tube"] }),
    ("rod", { id := 3, name := "rod", cells := ["fuel"] })]⟩
  materials := .empty

theorem acyclic_sharedPin : sharedPin.Acyclic := by
  refine acyclic_of_rank (fun name => if name = "0" then 2 else if name = "pin" then 1 else 0) ?_
  intro name inner h
  cases h with
  | element hfound hlattice _ =>
    have hknown := Table.mem_of_find? hfound
    simp only [sharedPin, List.mem_cons, Prod.mk.injEq, List.not_mem_nil, or_false] at hknown
    rcases hknown with ⟨-, rfl⟩ | ⟨-, rfl⟩ | ⟨-, rfl⟩ <;> simp at hlattice
  | filling hfound _ hmember hcell hfill =>
    -- Of all universes and cells, only those matter where the universe lists the cell.
    have hknown := Table.mem_of_find? hfound
    have hlisted := Table.mem_of_find? hcell
    simp only [sharedPin, List.mem_cons, Prod.mk.injEq, List.not_mem_nil, or_false] at hknown hlisted
    rcases hknown with ⟨rfl, rfl⟩ | ⟨rfl, rfl⟩ | ⟨rfl, rfl⟩ <;>
      rcases hlisted with ⟨rfl, rfl⟩ | ⟨rfl, rfl⟩ | ⟨rfl, rfl⟩ | ⟨rfl, rfl⟩ <;>
      simp_all <;> subst hfill <;> decide

theorem cellAt?_eq_descent_sharedPin :
    sharedPin.Acyclic ∧ sharedPin.universes.size ≤ 64 ∧
      (sharedPin.cellAt? ⟨2.5, 0, 0⟩).map (·.name) = some "fuel" ∧
      sharedPin.cellAt? ⟨2.5, 0, 0⟩ =
        (sharedPin.descent acyclic_sharedPin.wellFounded "0" ⟨2.5, 0, 0⟩).toOption :=
  ⟨acyclic_sharedPin, by decide, by decide +kernel,
    cellAt?_eq_descent acyclic_sharedPin (by decide) ⟨2.5, 0, 0⟩⟩

end SerpentCsg.Geometry
