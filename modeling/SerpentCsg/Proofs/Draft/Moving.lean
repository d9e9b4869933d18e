import SerpentCsg.Proofs.Draft.Sound

/-! # Moving, Change by Change

  A cell that is bounded by surfaces is moved surface by surface: a copy that it owns is moved in
  place, of any other surface a copy is made and moved. In the end the cell is bound to the copies.

  `Rebound` is the invariant of this loop, over the surfaces that have been dealt with so far. It
  says what the copies are, and that nothing else has changed since the loop began. `Carries` is
  beside it and says where the copies lie: each where its original is moved to.
-/

namespace SerpentCsg.Draft

variable {K : Type} [Scalar K]

/-! ### Outcomes -/

/-- The work is done by changes of a draft, and if nothing stops it, what it leaves behind has a
    property. -/
structure Reaches (d₀ : Draft K) (P : Draft K → Prop) (o : Outcome K) : Prop where
  moving : Moving d₀ o.draft
  done : o.fault = none → P o.draft

theorem Reaches.andThen {d₀ : Draft K} {P Q : Draft K → Prop} {o : Outcome K}
    {next : Draft K → Outcome K} (h : Reaches d₀ P o) (hnext : ∀ d, P d → Reaches d₀ Q (next d)) :
    Reaches d₀ Q (o.andThen next) := by
  obtain ⟨d, fault⟩ := o
  cases fault with
  | none => exact hnext d (h.done rfl)
  | some fault => exact ⟨h.moving, by simp [Outcome.andThen]⟩

theorem reaches_stopped {d₀ d : Draft K} {P : Draft K → Prop} (h : Moving d₀ d) (fault : Fault) :
    Reaches d₀ P (.stopped d fault) :=
  ⟨h, by simp [Outcome.stopped]⟩

theorem reaches_done {d₀ d : Draft K} {P : Draft K → Prop} (h : Moving d₀ d) (hd : P d) :
    Reaches d₀ P (.done d) :=
  ⟨h, fun _ => hd⟩

theorem Reaches.after {d₀ d₁ : Draft K} {P Q : Draft K → Prop} {o : Outcome K}
    (h : Reaches d₁ P o) (hmoving : Moving d₀ d₁) (himp : ∀ d, P d → Q d) : Reaches d₀ Q o :=
  ⟨hmoving.trans h.moving, fun hfault => himp _ (h.done hfault)⟩

/-! ### One surface -/

theorem moveSurface_eq {d : Draft K} {id : Nat} {s : Surface K} (moves : List (Move K))
    (hs : d.surfaces.find? id = some s) :
    d.moveSurface moves id =
      ⟨{ d with surfaces := d.surfaces.modify id fun _ => (s.movedAll moves).1 },
        (s.movedAll moves).2⟩ := by
  simp only [moveSurface, hs]

theorem moveSurface_moving (d : Draft K) (moves : List (Move K)) (id : Nat) :
    Moving d (d.moveSurface moves id).draft := by
  cases hs : d.surfaces.find? id with
  | none =>
    simp only [moveSurface, hs]
    exact .refl
  | some s =>
    rw [moveSurface_eq moves hs]
    exact .single (.surface moves hs)

theorem moveNamedSurface_moving (d : Draft K) (moves : List (Move K)) (name : String) :
    Moving d (d.moveNamedSurface moves name).draft := by
  unfold moveNamedSurface
  split
  · exact moveSurface_moving d moves _
  · exact .refl
  · exact .refl

/-- A surface comes to lie where another one is moved to by all steps, and has its boundary
    condition. -/
def Becomes (moves : List (Move K)) (s s' : Surface K) : Prop :=
  ∃ copy : Surface K, copy.kind = s.kind ∧ copy.boundary = s.boundary ∧
    copy.movedAll moves = (s', none)

/-- A surface, or a copy of it, that is moved without a fault. -/
theorem becomes_movedAll {moves : List (Move K)} {s copy : Surface K} (hkind : copy.kind = s.kind)
    (hboundary : copy.boundary = s.boundary) (hdone : (copy.movedAll moves).2 = none) :
    Becomes moves s (copy.movedAll moves).1 :=
  ⟨copy, hkind, hboundary, Prod.ext rfl hdone⟩

/-! ### The surfaces of one cell -/

/-- Some surfaces of a cell have been dealt with: `f` gives what they are replaced by, a copy that
    the cell owns. -/
structure Rebound (name : String) (d₀ d : Draft K) (f : Nat → Nat) (finished : List Nat) :
    Prop where
  moving : Moving d₀ d
  /-- Nothing but surfaces and the record of copies has changed. -/
  frame : d = { d₀ with surfaces := d.surfaces, owners := d.owners }
  /-- Nothing is replaced that has not been dealt with. -/
  others : ∀ id, id ∉ finished → f id = id
  owned : ∀ id ∈ finished, d.owners.find? (f id) = some name
  apart : ∀ a ∈ finished, ∀ b ∈ finished, f a = f b → a = b
  /-- A copy is kept if there was one, and otherwise it is new. -/
  kept : ∀ id ∈ finished, d₀.owners.find? id = some name → f id = id
  fresh : ∀ id ∈ finished, d₀.owners.find? id ≠ some name → d₀.surfaces.contains (f id) = false
  /-- Surfaces of others are not moved. -/
  surfaces : ∀ id s, d₀.surfaces.find? id = some s → d₀.owners.find? id ≠ some name →
    d.surfaces.find? id = some s
  owners : ∀ id owner, d₀.owners.find? id = some owner → d.owners.find? id = some owner
  made : ∀ id owner, d.owners.find? id = some owner → d₀.owners.find? id = some owner ∨
    owner = name ∧ ∃ old ∈ finished, f old = id

theorem rebound_nil (name : String) (d : Draft K) : Rebound name d d id [] where
  moving := .refl
  frame := rfl
  others _ _ := rfl
  owned := by simp
  apart := by simp
  kept := by simp
  fresh := by simp
  surfaces _ _ hs _ := hs
  owners _ _ howner := howner
  made _ _ howner := .inl howner

/-- Some surfaces of a cell have been moved: what replaces them has come to lie where they are moved
    to, and the others lie where they were. -/
structure Carries (moves : List (Move K)) (d₀ d : Draft K) (f : Nat → Nat) (finished : List Nat) :
    Prop where
  waiting : ∀ id s, id ∉ finished → d₀.surfaces.find? id = some s → d.surfaces.find? id = some s
  carried : ∀ id ∈ finished, ∀ s, d₀.surfaces.find? id = some s →
    ∃ s', d.surfaces.find? (f id) = some s' ∧ Becomes moves s s'

theorem carries_nil (moves : List (Move K)) (d : Draft K) : Carries moves d d id [] where
  waiting _ _ _ hs := hs
  carried := by simp

section Loop

variable {name : String} {d₀ d : Draft K} {f : Nat → Nat} {finished : List Nat} {id : Nat}

theorem Rebound.cells (h : Rebound name d₀ d f finished) : d.cells = d₀.cells := by
  rw [h.frame]

theorem Rebound.entries (h : Rebound name d₀ d f finished) : d.entries = d₀.entries := by
  rw [h.frame]

theorem Rebound.universes (h : Rebound name d₀ d f finished) : d.universes = d₀.universes := by
  rw [h.frame]

/-- What has been dealt with is replaced by something else than a surface that is not yet. -/
theorem Rebound.ne_of_mem (h : Rebound name d₀ d f finished) (hid : id ∉ finished)
    (hthere : d₀.surfaces.contains id = true) {a : Nat} (ha : a ∈ finished) : f a ≠ id := by
  intro heq
  by_cases hbefore : d₀.owners.find? a = some name
  · rw [h.kept a ha hbefore] at heq
    exact hid (heq ▸ ha)
  · have hfresh := h.fresh a ha hbefore
    rw [heq, hthere] at hfresh
    exact absurd hfresh (by simp)

/-- A copy that is there already belonged to the cell from the beginning. -/
theorem Rebound.owned_before (h : Rebound name d₀ d f finished) (hid : id ∉ finished)
    (hthere : d₀.surfaces.contains id = true) (howner : d.owners.find? id = some name) :
    d₀.owners.find? id = some name := by
  rcases h.made id name howner with hbefore | ⟨-, old, hold, heq⟩
  · exact hbefore
  · exact absurd heq (h.ne_of_mem hid hthere hold)

/-- A copy of the cell is moved in place. -/
theorem Rebound.inPlace (h : Rebound name d₀ d f finished) (hid : id ∉ finished)
    (hthere : d₀.surfaces.contains id = true) (howner : d.owners.find? id = some name)
    {s : Surface K} (hs : d.surfaces.find? id = some s) (moves : List (Move K)) :
    Rebound name d₀ { d with surfaces := d.surfaces.modify id fun _ => (s.movedAll moves).1 } f
      (id :: finished) := by
  have hbefore := h.owned_before hid hthere howner
  have hfixed := h.others id hid
  constructor
  case moving => exact h.moving.tail (.surface moves hs)
  case frame => rw [h.frame]
  case others =>
    intro n hn
    exact h.others n fun hmem => hn (List.mem_cons_of_mem _ hmem)
  case owned =>
    intro n hn
    rcases List.mem_cons.1 hn with rfl | hn
    · rw [hfixed]
      exact howner
    · exact h.owned n hn
  case apart =>
    intro a ha b hb heq
    -- The copy stays what it is, and nothing that has been dealt with is replaced by it.
    rcases List.mem_cons.1 ha with rfl | ha' <;> rcases List.mem_cons.1 hb with rfl | hb'
    · rfl
    · exact absurd (heq.symm.trans hfixed) (h.ne_of_mem hid hthere hb')
    · exact absurd (heq.trans hfixed) (h.ne_of_mem hid hthere ha')
    · exact h.apart a ha' b hb' heq
  case kept =>
    intro n hn hown
    rcases List.mem_cons.1 hn with rfl | hn
    · exact hfixed
    · exact h.kept n hn hown
  case fresh =>
    intro n hn hown
    rcases List.mem_cons.1 hn with rfl | hn
    · exact absurd hbefore hown
    · exact h.fresh n hn hown
  case surfaces =>
    intro n s' hn hown
    have hne : id ≠ n := by
      rintro rfl
      exact hown hbefore
    show (d.surfaces.modify id _).find? n = some s'
    rw [Table.find?_modify, if_neg hne]
    exact h.surfaces n s' hn hown
  case owners => exact h.owners
  case made =>
    intro n owner hn
    rcases h.made n owner hn with hn | ⟨howner, old, hold, heq⟩
    · exact .inl hn
    · exact .inr ⟨howner, old, List.mem_cons_of_mem _ hold, heq⟩

/-- A copy is made of a surface, and moved. -/
theorem Rebound.copied (h : Rebound name d₀ d f finished) (hsound : d₀.Sound) {cell : Cell K}
    {r : Region} (hc : d₀.cells.find? name = some cell) (hr : cell.region = some r)
    (hmem : id ∈ r.surfaces) (hid : id ∉ finished) (howner : d.owners.find? id ≠ some name)
    {d₁ : Draft K} {copy : Nat} (hcopy : d.copySurface name id = some (d₁, copy))
    {s : Surface K} (hs : d₁.surfaces.find? copy = some s) (moves : List (Move K)) :
    Rebound name d₀
      { d₁ with surfaces := d₁.surfaces.modify copy fun _ => (s.movedAll moves).1 }
      (fun n => if n = id then copy else f n) (id :: finished) := by
  have hsound' := hsound.moving h.moving
  have hc' : d.cells.find? name = some cell := by
    rw [h.cells]
    exact hc
  have hmove := Moves.copy hc' hr hmem hcopy
  obtain ⟨old, hold, hfresh, rfl⟩ := copySurface_eq_some hcopy
  -- The number of the copy is free, so nothing that is there is named by it.
  have hnew {n : Nat} (hn : d.surfaces.contains n = true) : copy ≠ n :=
    Table.ne_of_contains hfresh hn
  have hextends {n : Nat} (hn : d₀.surfaces.contains n = true) : copy ≠ n :=
    hnew (h.moving.extends.surfaces n hn)
  have hne {n : Nat} (hn : n ∈ finished) : n ≠ id := fun heq => hid (heq ▸ hn)
  constructor
  case moving => exact (h.moving.tail hmove).tail (.surface moves hs)
  case frame => rw [h.frame]
  case others =>
    intro n hn
    rw [List.mem_cons, not_or] at hn
    rw [if_neg hn.1]
    exact h.others n hn.2
  case owned =>
    intro n hn
    show (d.owners.insert copy name).find? _ = some name
    rw [Table.find?_insert]
    rcases List.mem_cons.1 hn with rfl | hn
    · simp
    · rw [if_neg (hne hn), h.owned n hn]
      simp
  case apart =>
    intro a ha b hb heq
    -- Copies made earlier are among the surfaces, the new one is not.
    have hother (n : Nat) (hn : n ∈ finished) : copy ≠ f n :=
      hnew (hsound'.owners.find? (h.owned n hn))
    rcases List.mem_cons.1 ha with rfl | ha' <;> rcases List.mem_cons.1 hb with rfl | hb'
    · rfl
    · rw [if_pos rfl, if_neg (hne hb')] at heq
      exact absurd heq (hother b hb')
    · rw [if_pos rfl, if_neg (hne ha')] at heq
      exact absurd heq.symm (hother a ha')
    · rw [if_neg (hne ha'), if_neg (hne hb')] at heq
      exact h.apart a ha' b hb' heq
  case kept =>
    intro n hn hown
    rcases List.mem_cons.1 hn with rfl | hn
    · exact absurd (h.owners n name hown) howner
    · rw [if_neg (hne hn)]
      exact h.kept n hn hown
  case fresh =>
    intro n hn hown
    rcases List.mem_cons.1 hn with rfl | hn
    · rw [if_pos rfl, Bool.eq_false_iff]
      exact fun hcontains => hextends hcontains rfl
    · rw [if_neg (hne hn)]
      exact h.fresh n hn hown
  case surfaces =>
    intro n s' hn hown
    have hne := hextends (Table.contains_of_find? hn)
    show ((d.surfaces.insert copy _).modify copy _).find? n = some s'
    rw [Table.find?_modify, if_neg hne, Table.find?_insert, if_neg hne]
    exact h.surfaces n s' hn hown
  case owners =>
    intro n owner hn
    have hne := hextends (hsound.owners.find? hn)
    show (d.owners.insert copy name).find? n = some owner
    rw [Table.find?_insert, if_neg hne]
    exact h.owners n owner hn
  case made =>
    intro n owner hn
    have hfound : (d.owners.insert copy name).find? n = some owner := hn
    rw [Table.find?_insert] at hfound
    by_cases heq : copy = n
    · rw [if_pos heq] at hfound
      exact .inr ⟨(Option.some.inj hfound).symm, id, List.mem_cons_self, (if_pos rfl).trans heq⟩
    · rw [if_neg heq] at hfound
      rcases h.made n owner hfound with hbefore | ⟨howner, a, ha, heq⟩
      · exact .inl hbefore
      · exact .inr ⟨howner, a, List.mem_cons_of_mem _ ha, (if_neg (hne ha)).trans heq⟩

theorem Rebound.of_mem_iff (h : Rebound name d₀ d f finished) {all : List Nat}
    (hall : ∀ id, id ∈ finished ↔ id ∈ all) : Rebound name d₀ d f all where
  moving := h.moving
  frame := h.frame
  others id hid := h.others id fun hmem => hid ((hall id).1 hmem)
  owned id hid := h.owned id ((hall id).2 hid)
  apart a ha b hb := h.apart a ((hall a).2 ha) b ((hall b).2 hb)
  kept id hid := h.kept id ((hall id).2 hid)
  fresh id hid := h.fresh id ((hall id).2 hid)
  surfaces := h.surfaces
  owners := h.owners
  made id owner howner := by
    rcases h.made id owner howner with hbefore | ⟨hname, old, hold, heq⟩
    · exact .inl hbefore
    · exact .inr ⟨hname, old, (hall old).1 hold, heq⟩

/-- A copy that is moved in place lies where it is moved to, and nothing else has changed. -/
theorem Carries.inPlace {moves : List (Move K)} (h : Carries moves d₀ d f finished)
    (hrebound : Rebound name d₀ d f finished) (hid : id ∉ finished) {s : Surface K}
    (hs : d₀.surfaces.find? id = some s) (hdone : (s.movedAll moves).2 = none) :
    Carries moves d₀ { d with surfaces := d.surfaces.modify id fun _ => (s.movedAll moves).1 } f
      (id :: finished) := by
  have hthere := Table.contains_of_find? hs
  constructor
  case waiting =>
    intro n s' hn hs'
    rw [List.mem_cons, not_or] at hn
    show (d.surfaces.modify id _).find? n = some s'
    rw [Table.find?_modify, if_neg (Ne.symm hn.1)]
    exact h.waiting n s' hn.2 hs'
  case carried =>
    intro n hn s₀ hs₀
    rcases List.mem_cons.1 hn with rfl | hn
    · obtain rfl : s = s₀ := Option.some.inj (hs.symm.trans hs₀)
      refine ⟨(s.movedAll moves).1, ?_, becomes_movedAll rfl rfl hdone⟩
      show (d.surfaces.modify n _).find? (f n) = _
      rw [hrebound.others n hid, Table.find?_modify, if_pos rfl, h.waiting n s hid hs]
      rfl
    · obtain ⟨s', hs', hbecomes⟩ := h.carried n hn s₀ hs₀
      refine ⟨s', ?_, hbecomes⟩
      have hne : id ≠ f n := (hrebound.ne_of_mem hid hthere hn).symm
      show (d.surfaces.modify id _).find? (f n) = some s'
      rw [Table.find?_modify, if_neg hne, hs']

/-- A copy that is made and moved lies where its original is moved to, and the original lies where
    it was. -/
theorem Carries.copied {moves : List (Move K)} (h : Carries moves d₀ d f finished)
    (hid : id ∉ finished) {d₁ : Draft K} {copy : Nat}
    (hcopy : d.copySurface name id = some (d₁, copy)) {s : Surface K}
    (hs : d₁.surfaces.find? copy = some s) (hdone : (s.movedAll moves).2 = none) :
    Carries moves d₀
      { d₁ with surfaces := d₁.surfaces.modify copy fun _ => (s.movedAll moves).1 }
      (fun n => if n = id then copy else f n) (id :: finished) := by
  obtain ⟨old, hold, hfresh, rfl⟩ := copySurface_eq_some hcopy
  -- Under other numbers than that of the copy the surfaces are as before.
  have hother {n : Nat} {s' : Surface K} (hs' : d.surfaces.find? n = some s') :
      ((d.surfaces.insert copy
        { old with id := copy, name := old.name ++ "_" ++ d.surfaces.size.repr }).modify copy
          fun _ => (s.movedAll moves).1).find? n = some s' := by
    have hne := Table.ne_of_contains hfresh (Table.contains_of_find? hs')
    rw [Table.find?_modify, if_neg hne, Table.find?_insert, if_neg hne, hs']
  constructor
  case waiting =>
    intro n s' hn hs'
    rw [List.mem_cons, not_or] at hn
    exact hother (h.waiting n s' hn.2 hs')
  case carried =>
    intro n hn s₀ hs₀
    rcases List.mem_cons.1 hn with rfl | hn
    · obtain rfl : old = s₀ := Option.some.inj (hold.symm.trans (h.waiting n s₀ hid hs₀))
      have hs : (d.surfaces.insert copy
          { old with id := copy, name := old.name ++ "_" ++ d.surfaces.size.repr }).find? copy =
            some s := hs
      rw [Table.find?_insert, if_pos rfl, Option.some.injEq] at hs
      refine ⟨(s.movedAll moves).1, ?_, becomes_movedAll (by rw [← hs]) (by rw [← hs]) hdone⟩
      rw [if_pos rfl]
      show ((d.surfaces.insert copy _).modify copy _).find? copy = _
      rw [Table.find?_modify, if_pos rfl, Table.find?_insert, if_pos rfl]
      rfl
    · obtain ⟨s', hs', hbecomes⟩ := h.carried n hn s₀ hs₀
      have hne : n ≠ id := fun heq => hid (heq ▸ hn)
      refine ⟨s', ?_, hbecomes⟩
      rw [if_neg hne]
      exact hother hs'

theorem Carries.of_mem_iff {moves : List (Move K)} (h : Carries moves d₀ d f finished)
    {all : List Nat} (hall : ∀ id, id ∈ finished ↔ id ∈ all) : Carries moves d₀ d f all where
  waiting id s hid hs := h.waiting id s (fun hmem => hid ((hall id).1 hmem)) hs
  carried id hid s hs := h.carried id ((hall id).2 hid) s hs

end Loop

/-- The surfaces of a cell are dealt with one after another, and then it is bound to its copies. -/
theorem moveBounds_reaches {name : String} {d₀ : Draft K} (h₀ : d₀.Sound) {cell : Cell K}
    {r : Region} (hc : d₀.cells.find? name = some cell) (hr : cell.region = some r)
    (moves : List (Move K)) (ids : List Nat) :
    ∀ {d : Draft K} {f : Nat → Nat} {finished : List Nat}, Rebound name d₀ d f finished →
      Carries moves d₀ d f finished → ids.Nodup → (∀ id ∈ ids, id ∉ finished) →
      (∀ id, id ∈ r.surfaces ↔ id ∈ ids ∨ id ∈ finished) →
      Reaches d₀ (fun d' => ∃ d₁ g, Rebound name d₀ d₁ g r.surfaces ∧
          Carries moves d₀ d₁ g r.surfaces ∧ d' = d₁.renumberCell name g)
        (moveBounds moves name ids f d) := by
  -- By induction on the surfaces that are left, with both invariants for those that are not.
  induction ids with
  | nil =>
    intro d f finished h hcarries _ _ hall
    have hall' : ∀ id, id ∈ finished ↔ id ∈ r.surfaces := fun id => by simp [hall id]
    have hfinished : Rebound name d₀ d f r.surfaces := h.of_mem_iff hall'
    have hc' : d.cells.find? name = some cell := by
      rw [h.cells]
      exact hc
    have hlast := Moves.renumber hc' hr hfinished.owned hfinished.apart
    exact reaches_done (hfinished.moving.tail hlast)
      ⟨d, f, hfinished, hcarries.of_mem_iff hall', rfl⟩
  | cons id ids ih =>
    intro d f finished h hcarries hnodup hdisjoint hall
    rw [List.nodup_cons] at hnodup
    rw [List.forall_mem_cons] at hdisjoint
    have hmem : id ∈ r.surfaces := (hall id).2 (.inl List.mem_cons_self)
    have hthere := (h₀.cells.find? hc).2.region r hr id hmem
    have hrest : ∀ n ∈ ids, n ∉ id :: finished := by
      intro n hn hcons
      rcases List.mem_cons.1 hcons with rfl | hcons
      · exact hnodup.1 hn
      · exact hdisjoint.2 n hn hcons
    have hall' : ∀ n, n ∈ r.surfaces ↔ n ∈ ids ∨ n ∈ id :: finished := by
      intro n
      rw [hall n, List.mem_cons, List.mem_cons]
      tauto
    unfold moveBounds
    split
    · -- The surface is a copy that the cell owns already.
      next howner =>
      have howner : d.owners.find? id = some name := by simpa [ownsCopy] using howner
      obtain ⟨s, hs⟩ := Table.contains_iff.1 hthere
      have hs' := hcarries.waiting id s hdisjoint.1 hs
      have hstep := h.inPlace hdisjoint.1 hthere howner hs' moves
      rw [moveSurface_eq moves hs']
      refine Reaches.andThen
        (P := fun d => Rebound name d₀ d f (id :: finished) ∧ Carries moves d₀ d f (id :: finished))
        ⟨hstep.moving, fun hdone => ⟨hstep, hcarries.inPlace h hdisjoint.1 hs hdone⟩⟩ ?_
      rintro d ⟨hd, hcarries⟩
      exact ih hd hcarries hnodup.2 hrest hall'
    · next howner =>
      have howner : d.owners.find? id ≠ some name := by simpa [ownsCopy] using howner
      split
      · exact reaches_stopped h.moving _
      · next d₁ copy hcopy =>
        obtain ⟨s, hs⟩ := Table.contains_iff.1 (contains_of_copySurface hcopy)
        have hstep := h.copied h₀ hc hr hmem hdisjoint.1 howner hcopy hs moves
        rw [moveSurface_eq moves hs]
        refine Reaches.andThen
          (P := fun d => Rebound name d₀ d _ (id :: finished) ∧
            Carries moves d₀ d _ (id :: finished))
          ⟨hstep.moving,
            fun hdone => ⟨hstep, hcarries.copied hdisjoint.1 hcopy hs hdone⟩⟩ ?_
        rintro d ⟨hd, hcarries⟩
        exact ih hd hcarries hnodup.2 hrest hall'

/-! ### Whole cells -/

/-- A region is bound to copies of its surfaces that a cell owns: those that it had before, and new
    ones. -/
structure Copied (name : String) (d d' : Draft K) (r : Region) (f : Nat → Nat) : Prop where
  owned : ∀ id ∈ r.surfaces, d'.owners.find? (f id) = some name
  apart : ∀ a ∈ r.surfaces, ∀ b ∈ r.surfaces, f a = f b → a = b
  kept : ∀ id ∈ r.surfaces, d.owners.find? id = some name → f id = id
  made : ∀ id, d'.owners.find? id = some name → d.owners.find? id = some name ∨
    ∃ old ∈ r.surfaces, f old = id

/-- What becomes of a cell that is moved. -/
inductive CellMoved (name : String) (d d' : Draft K) (c : Cell K) : Cell K → Prop where
  /-- The filling universe is placed anew. -/
  | filling {u : String} (moves : List (Move K)) :
      c.fill = .universe u →
      (∀ id, d'.owners.find? id = some name → d.owners.find? id = some name) →
      CellMoved name d d' c (c.fillMovedAll moves)
  /-- The region is bound to copies. -/
  | bounds {r : Region} {f : Nat → Nat} :
      (∀ u, c.fill ≠ .universe u) → c.region = some r → Copied name d d' r f →
      CellMoved name d d' c { c with region := some (r.renumber f) }

/-- What becomes of a draft in which some cells are moved. -/
structure Moved (names : List String) (d d' : Draft K) : Prop where
  entries : d'.entries = d.entries
  universes : d'.universes = d.universes
  others : ∀ name, name ∉ names → d'.cells.find? name = d.cells.find? name
  cells : ∀ name ∈ names, ∀ c, d.cells.find? name = some c →
    ∃ c', d'.cells.find? name = some c' ∧ CellMoved name d d' c c'
  /-- No surfaces are moved but copies that the cells own. -/
  surfaces : ∀ id s, d.surfaces.find? id = some s →
    (∀ owner, d.owners.find? id = some owner → owner ∉ names) → d'.surfaces.find? id = some s
  owners : ∀ id owner, d.owners.find? id = some owner → d'.owners.find? id = some owner
  /-- Copies are made for the cells only, and they are new surfaces. -/
  made : ∀ id owner, d'.owners.find? id = some owner → d.owners.find? id = some owner ∨
    owner ∈ names ∧ d.surfaces.contains id = false

theorem moved_refl (names : List String) {d : Draft K}
    (h : ∀ name ∈ names, d.cells.find? name = none) : Moved names d d where
  entries := rfl
  universes := rfl
  others _ _ := rfl
  cells name hname c hc := by
    rw [h name hname] at hc
    simp at hc
  surfaces _ _ hs _ := hs
  owners _ _ howner := howner
  made _ _ howner := .inl howner

/-- A cell whose surfaces have been dealt with is moved. -/
theorem Rebound.moved {name : String} {d d₁ : Draft K} {cell : Cell K} {r : Region} {f : Nat → Nat}
    (h : Rebound name d d₁ f r.surfaces) (hc : d.cells.find? name = some cell)
    (hr : cell.region = some r) (hfill : ∀ u, cell.fill ≠ .universe u) :
    Moved [name] d (d₁.renumberCell name f) := by
  have hmade : ∀ id owner, d₁.owners.find? id = some owner → d.owners.find? id = some owner ∨
      owner ∈ [name] ∧ d.surfaces.contains id = false := by
    intro id owner howner
    rcases h.made id owner howner with hbefore | ⟨rfl, old, hold, rfl⟩
    · exact .inl hbefore
    · by_cases hkept : d.owners.find? old = some owner
      · exact .inl (by rw [h.kept old hold hkept]; exact hkept)
      · exact .inr ⟨List.mem_singleton_self owner, h.fresh old hold hkept⟩
  constructor
  case entries => exact h.entries
  case universes => exact h.universes
  case others =>
    intro other hother
    have hne : name ≠ other := fun heq => hother (by simp [heq])
    show (d₁.cells.modify name _).find? other = _
    rw [Table.find?_modify, if_neg hne, h.cells]
  case cells =>
    intro other hother c hc'
    obtain rfl := List.mem_singleton.1 hother
    obtain rfl : cell = c := Option.some.inj (hc.symm.trans hc')
    refine ⟨{ cell with region := some (r.renumber f) }, ?_, .bounds hfill hr ?_⟩
    · show (d₁.cells.modify other _).find? other = _
      rw [Table.find?_modify, if_pos rfl, h.cells, hc]
      simp [hr]
    · refine ⟨h.owned, h.apart, h.kept, fun id howner => ?_⟩
      rcases h.made id other howner with hbefore | ⟨-, hold⟩
      · exact .inl hbefore
      · exact .inr hold
  case surfaces =>
    intro id s hs howner
    exact h.surfaces id s hs fun hname => howner name hname (List.mem_singleton_self name)
  case owners => exact h.owners
  case made => exact hmade

/-- A cell whose filling is moved. -/
theorem moved_filling {name : String} {d : Draft K} {cell : Cell K} {u : String}
    (moves : List (Move K)) (hc : d.cells.find? name = some cell)
    (hfill : cell.fill = .universe u) :
    Moved [name] d { d with cells := d.cells.modify name fun c => c.fillMovedAll moves } := by
  constructor
  case entries | universes => rfl
  case others =>
    intro other hother
    have hne : name ≠ other := fun heq => hother (by simp [heq])
    show (d.cells.modify name _).find? other = _
    rw [Table.find?_modify, if_neg hne]
  case cells =>
    intro other hother c hc'
    obtain rfl := List.mem_singleton.1 hother
    obtain rfl : cell = c := Option.some.inj (hc.symm.trans hc')
    refine ⟨cell.fillMovedAll moves, ?_, .filling moves hfill fun _ howner => howner⟩
    show (d.cells.modify other _).find? other = _
    rw [Table.find?_modify, if_pos rfl, hc]
    rfl
  case surfaces => exact fun _ _ hs _ => hs
  case owners => exact fun _ _ howner => howner
  case made => exact fun _ _ howner => .inl howner

/-- What is left behind when a cell has been moved. -/
inductive MovesCell (moves : List (Move K)) (name : String) (d : Draft K) : Draft K → Prop where
  | missing : d.cells.find? name = none → MovesCell moves name d d
  /-- The filling universe is placed anew. -/
  | filling {cell : Cell K} {u : String} :
      d.cells.find? name = some cell → cell.fill = .universe u →
      MovesCell moves name d
        { d with cells := d.cells.modify name fun c => c.fillMovedAll moves }
  /-- The region is bound to copies. -/
  | bounds {cell : Cell K} {r : Region} {d₁ : Draft K} {f : Nat → Nat} :
      d.cells.find? name = some cell → cell.region = some r → (∀ u, cell.fill ≠ .universe u) →
      Rebound name d d₁ f r.surfaces → Carries moves d d₁ f r.surfaces →
      MovesCell moves name d (d₁.renumberCell name f)

theorem moveCell_reaches {d : Draft K} (h : d.Sound) (moves : List (Move K)) (name : String) :
    Reaches d (MovesCell moves name d) (d.moveCell moves name) := by
  unfold moveCell
  split
  · next hnone => exact reaches_done .refl (.missing hnone)
  · next cell hc =>
    split
    · next u _ hfill =>
      exact reaches_done (.single (.filling moves hc hfill)) (.filling hc hfill)
    · next region hregion hfill =>
      have hbounds := moveBounds_reaches h hc hregion moves region.surfaces (rebound_nil name d)
        (carries_nil moves d) region.nodup_surfaces (by simp) (by simp)
      refine hbounds.after .refl ?_
      rintro _ ⟨d₁, f, hrebound, hcarries, rfl⟩
      exact .bounds hc hregion hfill hrebound hcarries
    · exact reaches_stopped .refl _

theorem MovesCell.moved {moves : List (Move K)} {name : String} {d d' : Draft K}
    (h : MovesCell moves name d d') : Moved [name] d d' := by
  cases h with
  | missing hnone => exact moved_refl _ (by simpa using hnone)
  | filling hc hfill => exact moved_filling moves hc hfill
  | bounds hc hr hfill hrebound => exact hrebound.moved hc hr hfill

/-! ### Several cells -/

theorem Moved.owner_iff {names : List String} {d d' : Draft K} (h : Moved names d d') {id : Nat}
    {owner : String} (hout : owner ∉ names) :
    d'.owners.find? id = some owner ↔ d.owners.find? id = some owner := by
  constructor
  · intro howner
    rcases h.made id owner howner with hbefore | ⟨hmem, -⟩
    · exact hbefore
    · exact absurd hmem hout
  · exact h.owners id owner

/-- What becomes of a cell depends on the drafts only through the copies that it owns. -/
theorem CellMoved.congr {name : String} {d d' e e' : Draft K} {c c' : Cell K}
    (h : CellMoved name d d' c c')
    (he : ∀ id, e.owners.find? id = some name ↔ d.owners.find? id = some name)
    (he' : ∀ id, e'.owners.find? id = some name ↔ d'.owners.find? id = some name) :
    CellMoved name e e' c c' := by
  cases h with
  | filling moves hfill hmade =>
    exact .filling moves hfill fun id howner => (he id).2 (hmade id ((he' id).1 howner))
  | bounds hfill hr hcopied =>
    refine .bounds hfill hr ⟨fun id hid => (he' _).2 (hcopied.owned id hid), hcopied.apart,
      fun id hid howner => hcopied.kept id hid ((he id).1 howner), fun id howner => ?_⟩
    rcases hcopied.made id ((he' id).1 howner) with hbefore | hold
    · exact .inl ((he id).2 hbefore)
    · exact .inr hold

/-- One cell is moved, and then others. -/
theorem Moved.cons {name : String} {names : List String} {d d₁ d' : Draft K}
    (h : Moved [name] d d₁) (h' : Moved names d₁ d') (he : Extends d d₁) (hnew : name ∉ names) :
    Moved (name :: names) d d' := by
  constructor
  case entries => exact h'.entries.trans h.entries
  case universes => exact h'.universes.trans h.universes
  case others =>
    intro other hother
    rw [List.mem_cons, not_or] at hother
    rw [h'.others other hother.2, h.others other (by simpa using hother.1)]
  case cells =>
    intro other hother c hc
    rcases List.mem_cons.1 hother with rfl | hmem
    · obtain ⟨c', hc', hmoved⟩ := h.cells other (List.mem_singleton_self other) c hc
      refine ⟨c', (h'.others other hnew).trans hc', ?_⟩
      exact hmoved.congr (fun _ => Iff.rfl) fun id => h'.owner_iff hnew
    · have hne : other ∉ [name] := by
        intro heq
        exact hnew (List.mem_singleton.1 heq ▸ hmem)
      rw [← h.others other hne] at hc
      obtain ⟨c', hc', hmoved⟩ := h'.cells other hmem c hc
      refine ⟨c', hc', ?_⟩
      exact hmoved.congr (fun id => (h.owner_iff hne).symm) fun _ => Iff.rfl
  case surfaces =>
    intro id s hs howner
    have hs₁ : d₁.surfaces.find? id = some s := by
      refine h.surfaces id s hs fun owner hown hmem => howner owner hown ?_
      rw [List.mem_singleton.1 hmem]
      exact List.mem_cons_self
    refine h'.surfaces id s hs₁ fun owner hown hmem => ?_
    -- A copy made for the first cell would be a new surface, and this one is not.
    rcases h.made id owner hown with hbefore | ⟨-, hfresh⟩
    · exact howner owner hbefore (List.mem_cons_of_mem _ hmem)
    · rw [Table.contains_of_find? hs] at hfresh
      simp at hfresh
  case owners =>
    intro id owner howner
    exact h'.owners id owner (h.owners id owner howner)
  case made =>
    intro id owner howner
    rcases h'.made id owner howner with hown | ⟨hmem, hfresh⟩
    · rcases h.made id owner hown with hbefore | ⟨hmem, hfresh⟩
      · exact .inl hbefore
      · rw [List.mem_singleton.1 hmem]
        exact .inr ⟨List.mem_cons_self, hfresh⟩
    · refine .inr ⟨List.mem_cons_of_mem _ hmem, ?_⟩
      rw [Bool.eq_false_iff] at hfresh ⊢
      exact fun hcontains => hfresh (he.surfaces id hcontains)

theorem moveCells_reaches (moves : List (Move K)) (names : List String) :
    ∀ {d : Draft K}, d.Sound → names.Nodup →
      Reaches d (Moved names d) (d.moveCells moves names) := by
  induction names with
  | nil => exact fun _ _ => reaches_done .refl (moved_refl [] (by simp))
  | cons name names ih =>
    intro d h hnodup
    rw [List.nodup_cons] at hnodup
    have hfirst := moveCell_reaches h moves name
    unfold moveCells
    refine Reaches.andThen (P := fun d₁ => Moving d d₁ ∧ Moved [name] d d₁)
      ⟨hfirst.moving, fun hfault => ⟨hfirst.moving, (hfirst.done hfault).moved⟩⟩ ?_
    rintro d₁ ⟨hmoving, hmoved⟩
    refine (ih (h.moving hmoving) hnodup.2).after hmoving fun d' hmoved' => ?_
    exact hmoved.cons hmoved' hmoving.extends hnodup.1

/-! ### Motion cards -/

theorem moveCells_moving (moves : List (Move K)) (names : List String) :
    ∀ {d : Draft K}, d.Sound → Moving d (d.moveCells moves names).draft := by
  intro d h
  suffices hreaches : Reaches d (fun _ => True) (d.moveCells moves names) from hreaches.moving
  induction names generalizing d with
  | nil => exact reaches_done .refl trivial
  | cons name names ih =>
    have hfirst := moveCell_reaches h moves name
    unfold moveCells
    refine Reaches.andThen (P := Moving d) ⟨hfirst.moving, fun _ => hfirst.moving⟩ ?_
    intro d₁ hmoving
    exact (ih (h.moving hmoving)).after hmoving fun _ _ => trivial

theorem addMotionCard_moving {d : Draft K} (h : d.Sound) (text : String) :
    Moving d (d.addMotionCard text).draft := by
  unfold addMotionCard
  split
  · exact .refl
  · next card _ =>
    split
    · exact .refl
    · next motion _ =>
      unfold move
      split
      · exact moveNamedSurface_moving d motion.moves motion.name
      · unfold moveUniverse
        split
        · exact .refl
        · next u _ =>
          split
          · exact .refl
          · exact moveCells_moving motion.moves u.cells h

end SerpentCsg.Draft
