import SerpentCsg.Proofs.Cell.Blocks
import SerpentCsg.Proofs.Draft.Sound
import SerpentCsg.Proofs.Fallible

/-! # Declaring, Change by Change

  Cards of surfaces, cells and lattices are worked in as chains of declaring changes. For each of
  them it is shown that what the changes ask for holds where they happen: the faces of a composite
  are surfaces that no cell owns, the region of a cell is bounded by surfaces that have names, and
  a lattice comes after the universes that it lists. A card that sets something is a single change
  of the setting.
-/

namespace SerpentCsg

/-! ### Visiting the faces of a composite -/

namespace Composite

variable {α β σ : Type}

/-- Values changed one after another by a step that also carries a state along. -/
def accumulate (step : σ → α → σ × β) (s : σ) : List α → σ × List β
  | [] => (s, [])
  | a :: as =>
    ((accumulate step (step s a).1 as).1, (step s a).2 :: (accumulate step (step s a).1 as).2)

theorem mapAccum_eq_accumulate (step : σ → α → σ × β) (s : σ) (c : Composite α) :
    ((c.mapAccum step s).1, (c.mapAccum step s).2.faces) = accumulate step s c.faces := by
  cases c with
  | hexPrism flats => cases flats <;> rfl
  | _ => rfl

/-- An invariant of the state holds after every face, and what holds of a face once it is there
    holds of it in the end. -/
theorem mapAccum_invariant {step : σ → α → σ × β} {P : σ → Prop} {Q : σ → β → Prop}
    (hnew : ∀ s a, P s → P (step s a).1 ∧ Q (step s a).1 (step s a).2)
    (hold : ∀ s a b, P s → Q s b → Q (step s a).1 b) {s : σ} (hs : P s) (c : Composite α) :
    P (c.mapAccum step s).1 ∧ ∀ b ∈ (c.mapAccum step s).2.faces, Q (c.mapAccum step s).1 b := by
  -- Over a list of faces, with what holds of a face kept while further faces are visited.
  have hlist : ∀ (as : List α) (s : σ), P s → P (accumulate step s as).1 ∧
      (∀ b, Q s b → Q (accumulate step s as).1 b) ∧
      ∀ b ∈ (accumulate step s as).2, Q (accumulate step s as).1 b := by
    intro as
    induction as with
    | nil => exact fun s hs => ⟨hs, fun _ hb => hb, by simp [accumulate]⟩
    | cons a as ih =>
      intro s hs
      obtain ⟨hP, hQ⟩ := hnew s a hs
      obtain ⟨hlast, hkeep, hall⟩ := ih _ hP
      refine ⟨hlast, fun b hb => hkeep b (hold s a b hs hb), fun b hb => ?_⟩
      rcases List.mem_cons.1 hb with rfl | hb
      · exact hkeep _ hQ
      · exact hall b hb
  obtain ⟨hP, -, hQ⟩ := hlist c.faces s hs
  obtain ⟨hstate, hfaces⟩ := Prod.mk.inj (mapAccum_eq_accumulate step s c)
  rw [hstate, hfaces]
  exact ⟨hP, hQ⟩

end Composite

namespace Draft

open Card (CellCard CellToken)
open Relation (ReflTransGen)

variable {K : Type}

theorem Sound.declaring {d d' : Draft K} (h : d.Sound) (hd : Declaring d d') : d'.Sound := by
  induction hd with
  | refl => exact h
  | tail _ hlast ih => exact ih.declares hlast

theorem Declares.root {d d' : Draft K} (h : Declares d d') : d'.root = d.root := by
  cases h with
  | mention name => exact ensureUniverse_root d name
  | @cell _ cell hadd =>
    obtain ⟨-, -, rfl⟩ := addCell_eq_ok hadd
    exact ensureUniverse_root d cell.parent
  | _ => rfl

theorem Declaring.root {d d' : Draft K} (hd : Declaring d d') : d'.root = d.root := by
  induction hd with
  | refl => rfl
  | tail _ hlast ih => exact hlast.root.trans ih

theorem Declaring.extends {d d' : Draft K} (hd : Declaring d d') : Extends d d' := by
  induction hd with
  | refl => exact Extends.refl d
  | tail _ hlast ih => exact ih.trans hlast.extends

/-- The draft that a step leaves behind is the old one if the step fails. -/
theorem draft_ofStep {P : Draft K → Prop} {d : Draft K} {step : Except Fault (Draft K)}
    (hstopped : P d) (hdone : ∀ d', step = .ok d' → P d') :
    P (Outcome.ofStep d step).draft := by
  cases step with
  | ok d' => exact hdone d' rfl
  | error fault => exact hstopped

/-! ### Surfaces -/

/-- The faces of a composite become surfaces that no cell owns. -/
theorem addFaces_declaring {d : Draft K} (h : d.Sound) (name : String)
    (kinds : Composite (SurfaceKind K)) :
    let result := kinds.mapAccum (addFace name) (d, 0)
    Declaring d result.1.1 ∧ result.1.1.entries = d.entries ∧
      ∀ id ∈ result.2.faces,
        result.1.1.surfaces.contains id = true ∧ result.1.1.owners.contains id = false := by
  let P (s : Draft K × Nat) := Declaring d s.1 ∧ s.1.entries = d.entries
  let Q (s : Draft K × Nat) (id : Nat) :=
    s.1.surfaces.contains id = true ∧ s.1.owners.contains id = false
  have hnew (s : Draft K × Nat) (kind : SurfaceKind K) (hs : P s) :
      P (addFace name s kind).1 ∧ Q (addFace name s kind).1 (addFace name s kind).2 := by
    have hfresh := addSurface_fresh s.1 (faceName name s.2) kind
    refine ⟨⟨hs.1.tail (.surface s.1 _ kind), hs.2⟩, addSurface_contains s.1 _ kind, ?_⟩
    exact (h.declaring hs.1).not_owned hfresh
  have hold (s : Draft K × Nat) (kind : SurfaceKind K) (id : Nat) (_ : P s) (hid : Q s id) :
      Q (addFace name s kind).1 id :=
    ⟨Table.contains_insert_of_contains _ _ hid.1, hid.2⟩
  obtain ⟨⟨hchain, hentries⟩, hfaces⟩ :=
    Composite.mapAccum_invariant hnew hold (s := (d, 0)) ⟨.refl, rfl⟩ kinds
  exact ⟨hchain, hentries, hfaces⟩

theorem addShape_declaring {d : Draft K} (h : d.Sound) {name : String}
    (hnew : d.entries.contains name = false) (shape : Shape K) :
    Declaring d (d.addShape name shape) := by
  cases shape with
  | infinite =>
    refine .single (.entry hnew ?_)
    simp [SurfaceEntry.surfaces]
  | primitive kind =>
    refine (ReflTransGen.single (.surface d name kind)).tail (.entry hnew ?_)
    intro id hid
    obtain rfl := List.mem_singleton.1 hid
    exact ⟨addSurface_contains d name kind, h.not_owned (addSurface_fresh d name kind)⟩
  | composite kinds =>
    obtain ⟨hchain, hentries, hfaces⟩ := addFaces_declaring h name kinds
    rw [← hentries] at hnew
    exact hchain.tail (.entry hnew hfaces)

/-- A surface card that is worked in describes a shape of its type, and its name was free. -/
theorem addSurfaceCard_describes [Scalar K] {d d' : Draft K} {text : String}
    (h : d.addSurfaceCard text = .ok d') :
    ∃ card shape, Card.readSurface text.toList = some card ∧
      d.entries.contains card.name = false ∧ Shape.ofCard card = .ok shape ∧
      shape.OfType card.type ∧ d' = d.addShape card.name shape := by
  rcases addSurfaceCard_cases d text with heq | ⟨card, hread, heq | ⟨hname, heq⟩⟩
  · rw [heq] at h
    cases h
  · rw [heq] at h
    cases h
  · rw [heq] at h
    obtain ⟨shape, hshape, rfl⟩ := map_eq_ok_iff.1 h
    exact ⟨card, shape, hread, hname, hshape, Shape.ofType_of_ofCard hshape, rfl⟩

/-- A surface card that succeeds declares a shape under a name that is free. -/
theorem addSurfaceCard_eq_ok [Scalar K] {d d' : Draft K} {text : String}
    (hadd : d.addSurfaceCard text = .ok d') :
    ∃ name shape, d.entries.contains name = false ∧ d' = d.addShape name shape := by
  obtain ⟨card, shape, -, hname, -, -, hd'⟩ := addSurfaceCard_describes hadd
  exact ⟨card.name, shape, hname, hd'⟩

theorem addSurfaceCard_declaring [Scalar K] {d d' : Draft K} (h : d.Sound) {text : String}
    (hadd : d.addSurfaceCard text = .ok d') : Declaring d d' := by
  obtain ⟨name, shape, hnew, rfl⟩ := addSurfaceCard_eq_ok hadd
  exact addShape_declaring h hnew shape

/-! ### Cells -/

theorem markSurfaces_declaring (d : Draft K) (tokens : List CellToken) :
    Declaring d (d.markSurfaces tokens) := by
  have hlist : ∀ (ids : List Nat) (d : Draft K), (∀ id ∈ ids, d.Named id) →
      Declaring d (ids.foldl markSurface d) := by
    intro ids
    induction ids with
    | nil => exact fun d _ => .refl
    | cons id ids ih =>
      intro d hnamed
      rw [List.forall_mem_cons] at hnamed
      -- Marking changes no name, so what is named stays so.
      exact .head (.mark hnamed.1) (ih (d.markSurface id) hnamed.2)
  exact hlist _ d fun id hid => named_of_mem_surfacesNamed hid

theorem ensureFill_declaring (d : Draft K) (fill : Fill) :
    Declaring d (d.ensureFill fill) ∧ (d.ensureFill fill).entries = d.entries := by
  match fill with
  | .universe name => exact ⟨.single (.mention d name), ensureUniverse_entries d name⟩
  | .material _ | .void | .outside => exact ⟨.refl, rfl⟩

/-- What is known of a plan for a cell. -/
structure Allows (d : Draft K) (plan : CellPlan) : Prop where
  parent : Card.IsName plan.card.parent
  material : ∀ name, plan.fill = .material name → d.materials.contains name = true
  /-- No cell is filled with the root universe. -/
  root : plan.fill ≠ .universe d.root

theorem planCell_eq_ok {d : Draft K} {text : String} {plan : CellPlan}
    (h : d.planCell text = .ok plan) :
    Card.readCell text.toList = some plan.card ∧ d.fillOf plan.card = .ok plan.fill := by
  unfold planCell at h
  split at h
  · simp at h
  · next card hcard =>
    split at h
    · simp at h
    · next fill hfill =>
      split at h
      · simp at h
      · split at h
        · simp at h
        · simp at h
        · split at h
          · simp at h
          · obtain rfl := Except.ok.inj h
            exact ⟨hcard, hfill⟩

/-- A filling that is settled is a material of the library, a universe other than the root and the
    cell's own, or neither. -/
theorem fillOf_eq_ok {d : Draft K} {card : CellCard} {fill : Fill} (h : d.fillOf card = .ok fill) :
    (∀ name, fill = .material name → d.materials.contains name = true) ∧
      ∀ name, fill = .universe name → name ≠ d.root ∧ name ≠ card.parent := by
  unfold fillOf at h
  split at h
  · obtain rfl := Except.ok.inj h
    simp
  · split at h
    · obtain rfl := Except.ok.inj h
      simp
    · split at h
      · next hcontains =>
        obtain rfl := Except.ok.inj h
        exact ⟨fun _ hname => Fill.material.inj hname ▸ hcontains, by simp⟩
      · simp at h
  · split at h
    · simp at h
    · next hallowed =>
      obtain rfl := Except.ok.inj h
      rw [not_or] at hallowed
      exact ⟨by simp, fun _ hname => Fill.universe.inj hname ▸ hallowed⟩

theorem allows_of_planCell {d : Draft K} {text : String} {plan : CellPlan}
    (h : d.planCell text = .ok plan) : d.Allows plan := by
  obtain ⟨hcard, hfill⟩ := planCell_eq_ok h
  obtain ⟨hmaterial, huniverse⟩ := fillOf_eq_ok hfill
  exact ⟨Card.isName_parent hcard, hmaterial, fun hroot => (huniverse d.root hroot).1 rfl⟩

theorem Allows.declaring {d d' : Draft K} {plan : CellPlan} (h : d.Allows plan)
    (hd : Declaring d d') : d'.Allows plan := by
  refine ⟨h.parent, fun name hname => ?_, ?_⟩
  · rw [hd.extends.materials]
    exact h.material name hname
  · rw [hd.root]
    exact h.root

theorem registerCell_declaring {d : Draft K} {plan : CellPlan} {region : Option Region}
    (hplan : d.Allows plan) (hregion : ∀ r, region = some r → ∀ id ∈ r.surfaces, d.Named id)
    (hparts : ∀ r, region = some r → r.hasParts 2 = true) :
    Declaring d (d.registerCell plan region).draft := by
  obtain ⟨hensure, hentries⟩ := ensureFill_declaring d plan.fill
  have hreserve := hensure.tail (.cellId (d.ensureFill plan.fill) plan.card.name)
  have hfill : ((d.ensureFill plan.fill).reserveCellId plan.card.name).1.FillResolved
      plan.fill := by
    match hof : plan.fill with
    | .material name => exact hplan.material name hof
    | .universe name => exact ensureUniverse_contains_self d name
    | .void | .outside => trivial
  refine draft_ofStep hreserve fun d' hadd => hreserve.tail ?_
  refine .cell hadd hplan.parent hfill (hplan.declaring hreserve).root ?_ hparts
  intro r hr id hid
  -- Mentioning a universe and giving a number change no names.
  obtain ⟨name, entry, hentry, hmem⟩ := hregion r hr id hid
  exact ⟨name, entry, by rw [← hentry]; exact congrArg (·.find? name) hentries, hmem⟩

theorem addCellCard_declaring (d : Draft K) (text : String) :
    Declaring d (d.addCellCard text).draft := by
  unfold addCellCard
  split
  · exact .refl
  · next plan hplan =>
    have hallows := allows_of_planCell hplan
    unfold addPlannedCell
    split
    · exact registerCell_declaring hallows (by simp) (by simp)
    · have hmark : Declaring d
          (if plan.fill == .outside then d.markSurfaces plan.tokens else d) := by
        split
        · exact markSurfaces_declaring d plan.tokens
        · exact .refl
      dsimp only
      generalize (if plan.fill == .outside then d.markSurfaces plan.tokens else d) = marked
        at hmark ⊢
      -- A region that cannot be read leaves the marks behind.
      split
      · exact hmark
      · next region hregion =>
        have hmarked := hallows.declaring hmark
        refine hmark.trans (registerCell_declaring hmarked ?_ ?_)
        · intro r hr id hid
          obtain rfl := Option.some.inj hr
          exact named_of_regionOf hregion hid
        · intro r hr
          obtain rfl := Option.some.inj hr
          exact (regionOf_eq_ok hregion).2.hasParts

/-! ### Lattices -/

theorem ensureUniverses_declaring (names : List String) (d : Draft K) :
    Declaring d (names.foldl ensureUniverse d) ∧
      ∀ name ∈ names, (names.foldl ensureUniverse d).universes.contains name = true := by
  induction names generalizing d with
  | nil => exact ⟨.refl, by simp⟩
  | cons first names ih =>
    obtain ⟨hchain, hall⟩ := ih (d.ensureUniverse first)
    refine ⟨.head (.mention d first) hchain, fun name hname => ?_⟩
    rcases List.mem_cons.1 hname with rfl | hname
    · exact hchain.extends.universes _ (ensureUniverse_contains_self d name)
    · exact hall name hname

theorem addLattice_declaring (d : Draft K) {name : String} (hname : Card.IsName name)
    (lattice : Lattice K) : Declaring d (d.addLattice name lattice).draft := by
  obtain ⟨hchain, hnames⟩ := ensureUniverses_declaring lattice.names d
  have hmention := hchain.tail (.mention _ name)
  unfold addLattice
  dsimp only
  split
  · next u hu =>
    split
    · -- The universes that the lattice lists have been mentioned, so they are there.
      next hplaceholder =>
      refine hmention.tail (.lattice hu hplaceholder hname fun n hn => ?_)
      exact (ensureUniverse_extends _ name).universes n (hnames n hn)
    · exact hmention
  · exact hmention

theorem addLatticeCard_declaring [Scalar K] (d : Draft K) (text : String) :
    Declaring d (d.addLatticeCard text).draft := by
  unfold addLatticeCard
  split
  · exact .refl
  · next card hcard =>
    split
    · exact .refl
    · next lattice _ => exact addLattice_declaring d (Card.isName_lattice hcard) lattice

/-! ### Settings -/

theorem addBoundaryCard_sets {d d' : Draft K} {text : String}
    (hadd : d.addBoundaryCard text = .ok d') : Sets d d' := by
  unfold addBoundaryCard at hadd
  split at hadd
  · simp at hadd
  · next words _ =>
    cases hwords : Boundary.ofWords words with
    | error fault => simp [hwords, Except.map] at hadd
    | ok boundaries =>
      simp only [hwords, Except.map, Except.ok.injEq] at hadd
      obtain rfl := hadd
      exact .boundaries d boundaries

theorem addRootCard_sets {d d' : Draft K} {text : String} (hadd : d.addRootCard text = .ok d') :
    Sets d d' := by
  unfold addRootCard at hadd
  split at hadd
  · simp at hadd
  · next root _ =>
    obtain rfl := Except.ok.inj hadd
    exact .root d root

/-! ### Cards -/

/-- The card sets something. -/
def IsSetting (card : Card) : Prop := card.kind = .boundaries ∨ card.kind = .root

variable [Scalar K]

/-- A card that sets something is a single change, or it fails and changes nothing. -/
theorem addCard_sets (d : Draft K) {card : Card} (hkind : IsSetting card) :
    (d.addCard card).draft = d ∨ Sets d (d.addCard card).draft := by
  let P (d' : Draft K) := d' = d ∨ Sets d d'
  unfold addCard
  rcases hkind with hkind | hkind <;> rw [hkind]
  · exact draft_ofStep (P := P) (.inl rfl) fun _ hadd => .inr (addBoundaryCard_sets hadd)
  · exact draft_ofStep (P := P) (.inl rfl) fun _ hadd => .inr (addRootCard_sets hadd)

/-- A card that neither sets nor moves anything is worked in by declaring, however far it gets. -/
theorem addCard_declaring {d : Draft K} (h : d.Sound) {card : Card} (hsetting : ¬ IsSetting card)
    (hmotion : card.kind ≠ .motion) : Declaring d (d.addCard card).draft := by
  unfold addCard
  split
  · next hkind => exact absurd (.inl hkind) hsetting
  · next hkind => exact absurd (.inr hkind) hsetting
  · exact draft_ofStep .refl fun _ hadd => addSurfaceCard_declaring h hadd
  · exact addCellCard_declaring d card.text
  · exact addCellCard_declaring d card.text
  · exact addCellCard_declaring d card.text
  · exact addLatticeCard_declaring d card.text
  · next hkind => exact absurd hkind hmotion
  · exact .refl

end Draft

end SerpentCsg
