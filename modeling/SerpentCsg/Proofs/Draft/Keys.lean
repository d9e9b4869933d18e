import SerpentCsg.Proofs.Draft.Sound

/-! # Keys of a Draft

  Whatever happens to a draft, no key comes twice in any of its tables. So every surface, cell and
  universe is the one that is found under its key, and what is known of all that can be looked up is
  known of every entry.
-/

namespace SerpentCsg.Draft

variable {K : Type}

/-- No key comes twice. -/
structure Distinct (d : Draft K) : Prop where
  surfaces : d.surfaces.keys.Nodup
  cells : d.cells.keys.Nodup
  universes : d.universes.keys.Nodup

theorem distinct_new (materials : MaterialLibrary) : (new materials : Draft K).Distinct :=
  ⟨List.nodup_nil, List.nodup_nil, List.nodup_nil⟩

theorem Distinct.ensureUniverse {d : Draft K} (h : d.Distinct) (name : String) :
    (d.ensureUniverse name).Distinct := by
  unfold Draft.ensureUniverse
  split
  · exact h
  · exact ⟨h.surfaces, h.cells, Table.nodup_keys_insert h.universes _ _⟩

theorem Distinct.addCell {d d' : Draft K} {cell : Cell K} (h : d.Distinct)
    (hadd : d.addCell cell = .ok d') : d'.Distinct := by
  have hmentioned := h.ensureUniverse cell.parent
  obtain ⟨-, -, rfl⟩ := addCell_eq_ok hadd
  exact ⟨hmentioned.surfaces, Table.nodup_keys_insert h.cells _ _,
    Table.nodup_keys_modify hmentioned.universes _ _⟩

/-! ### Single changes -/

theorem Distinct.sets {d d' : Draft K} (h : d.Distinct) (hs : Sets d d') : d'.Distinct := by
  cases hs <;> exact ⟨h.surfaces, h.cells, h.universes⟩

theorem Distinct.declares {d d' : Draft K} (h : d.Distinct) (hd : Declares d d') :
    d'.Distinct := by
  cases hd with
  | surface => exact ⟨Table.nodup_keys_insert h.surfaces _ _, h.cells, h.universes⟩
  | entry | cellId => exact ⟨h.surfaces, h.cells, h.universes⟩
  | mark => exact ⟨Table.nodup_keys_modify h.surfaces _ _, h.cells, h.universes⟩
  | mention name => exact h.ensureUniverse name
  | cell hadd => exact h.addCell hadd
  | lattice => exact ⟨h.surfaces, h.cells, Table.nodup_keys_modify h.universes _ _⟩

variable [Scalar K]

theorem Distinct.moves {d d' : Draft K} (h : d.Distinct) (hm : Moves d d') : d'.Distinct := by
  cases hm with
  | surface => exact ⟨Table.nodup_keys_modify h.surfaces _ _, h.cells, h.universes⟩
  | copy _ _ _ hcopy =>
    obtain ⟨s, -, -, rfl⟩ := copySurface_eq_some hcopy
    exact ⟨Table.nodup_keys_insert h.surfaces _ _, h.cells, h.universes⟩
  | renumber | filling =>
    exact ⟨h.surfaces, Table.nodup_keys_modify h.cells _ _, h.universes⟩

/-- Whatever happens, no key comes twice. -/
theorem Distinct.changes {d d' : Draft K} (h : d.Distinct) (hc : Changes d d') : d'.Distinct := by
  induction hc with
  | refl => exact h
  | tail _ hlast ih =>
    cases hlast with
    | sets hs => exact ih.sets hs
    | declares hd => exact ih.declares hd
    | moves hm => exact ih.moves hm

end SerpentCsg.Draft
