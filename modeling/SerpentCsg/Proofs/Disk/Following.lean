import SerpentCsg.Disk.Basic
import SerpentCsg.Proofs.Disk.Paths
import SerpentCsg.Proofs.Fallible

/-! # Following Paths beside a File

  On a disk without links a path that is seen from the directory of a file leads to the same place
  however the path of the file itself was written.
-/

namespace SerpentCsg.Disk

/-- Everything lies in a directory. -/
def IsTree (disk : Disk) : Prop :=
  ∀ place node, disk.node? place = some node → disk.node? place.dropLast = some .directory

/-- The place that a path leads to, seen from a directory. -/
def resolveFrom (disk : Disk) (directory : Place) (p : Path) : Except DiskFault Place := do
  checkPath p
  p.pieces.foldlM disk.step (if p.isAbsolute then [] else directory)

variable {disk : Disk}

theorem isTree_of_keys
    (h : ∀ place ∈ disk.nodes.keys, disk.node? place.dropLast = some .directory) : disk.IsTree := by
  intro place node hnode
  rcases List.mem_cons.1 (mem_places_of_node? hnode) with rfl | hkey
  · rfl
  · exact h place hkey

theorem resolve_eq (p : Path) : disk.resolve p = disk.resolveFrom disk.workingPlace p := rfl

/-! ### Paths that can be followed -/

theorem checkPath_eq_ok_iff {p : Path} :
    checkPath p = .ok () ↔
      p.pieces ≠ [""] ∧ ∀ piece ∈ p.pieces, Char.ofNat 0 ∉ piece.toList := by
  have hempty : p.text = "" ↔ p.pieces = [""] := by
    constructor
    · intro htext
      rw [Path.pieces, htext]
      rfl
    · intro hpieces
      rw [p.text_eq, hpieces]
      rfl
  have hnul : p.text.toList.contains (Char.ofNat 0) = true ↔
      ∃ piece ∈ p.pieces, Char.ofNat 0 ∈ piece.toList := by
    rw [List.contains_iff_mem]
    exact Path.mem_text_iff (by decide)
  unfold checkPath
  by_cases htext : p.text = ""
  · simp [htext, hempty.1 htext]
  · rw [if_neg htext]
    split
    · next h =>
      obtain ⟨piece, hpiece, hmem⟩ := hnul.1 h
      simp only [reduceCtorEq, false_iff, not_and, not_forall]
      exact fun _ => ⟨piece, hpiece, fun hnone => hnone hmem⟩
    · next h =>
      simp only [true_iff]
      refine ⟨fun hpieces => htext (hempty.2 hpieces), fun piece hpiece hmem => ?_⟩
      exact h (hnul.2 ⟨piece, hpiece, hmem⟩)

theorem resolveFrom_eq_ok_iff {directory place : Place} {p : Path} :
    disk.resolveFrom directory p = .ok place ↔ checkPath p = .ok () ∧
      p.pieces.foldlM disk.step (if p.isAbsolute then [] else directory) = .ok place := by
  unfold resolveFrom
  exact seq_eq_ok_iff

/-! ### Steps -/

/-- A step starts in a directory. It goes nowhere, to the directory around it, or to something in
    it. -/
theorem step_eq_ok {place next : Place} {piece : String} (h : disk.step place piece = .ok next) :
    disk.node? place = some .directory ∧
      ((piece = "" ∨ piece = ".") ∧ next = place ∨ piece = ".." ∧ next = place.dropLast ∨
        (piece ≠ "" ∧ piece ≠ ".") ∧ next = place ++ [piece]) := by
  unfold step at h
  obtain ⟨_, hdirectory, h⟩ := bind_eq_ok_iff.1 h
  have hnode : disk.node? place = some .directory := by
    unfold requireDirectory at hdirectory
    split at hdirectory
    · assumption
    · cases hdirectory
    · cases hdirectory
  refine ⟨hnode, ?_⟩
  by_cases hmeaningless : piece = "" ∨ piece = "."
  · rw [if_pos hmeaningless] at h
    exact .inl ⟨hmeaningless, (Except.ok.inj h).symm⟩
  · rw [if_neg hmeaningless] at h
    by_cases hup : piece = ".."
    · simp only [hup, if_true] at h
      exact .inr (.inl ⟨hup, (Except.ok.inj h).symm⟩)
    · simp only [hup, if_false] at h
      refine .inr (.inr ⟨not_or.1 hmeaningless, ?_⟩)
      by_cases hlong : nameLimit < piece.utf8ByteSize
      · simp [hlong] at h
        cases h
      · simp only [hlong, if_false] at h
        split at h
        · exact (Except.ok.inj h).symm
        · cases h

/-- A step to a file is made by its name. -/
theorem step_file (htree : disk.IsTree) {directory place : Place} {name : String}
    (h : disk.step directory name = .ok place) {content : ByteArray}
    (hfile : disk.node? place = some (.file content)) :
    (name ≠ "" ∧ name ≠ ".") ∧ place = directory ++ [name] := by
  obtain ⟨hdirectory, ⟨-, rfl⟩ | ⟨-, rfl⟩ | hinto⟩ := step_eq_ok h
  · simp [hdirectory] at hfile
  · simp [htree directory _ hdirectory] at hfile
  · exact hinto

theorem foldlM_append_eq_ok_iff {before after : List String} {place target : Place} :
    (before ++ after).foldlM disk.step place = .ok target ↔
      ∃ next, before.foldlM disk.step place = .ok next ∧
        after.foldlM disk.step next = .ok target := by
  rw [List.foldlM_append]
  exact bind_eq_ok_iff

theorem foldlM_cons_eq_ok_iff {piece : String} {pieces : List String} {place target : Place} :
    (piece :: pieces).foldlM disk.step place = .ok target ↔
      ∃ next, disk.step place piece = .ok next ∧ pieces.foldlM disk.step next = .ok target := by
  rw [List.foldlM_cons]
  exact bind_eq_ok_iff

/-- Pieces that mean nothing lead nowhere. -/
theorem foldlM_meaningless {pieces : List String}
    (hpieces : ∀ piece ∈ pieces, piece = "" ∨ piece = ".") {place target : Place}
    (h : pieces.foldlM disk.step place = .ok target) : target = place := by
  induction pieces generalizing place with
  | nil => exact (Except.ok.inj h).symm
  | cons piece pieces ih =>
    rw [List.forall_mem_cons] at hpieces
    obtain ⟨next, hstep, hrest⟩ := foldlM_cons_eq_ok_iff.1 h
    rw [ih hpieces.2 hrest]
    obtain ⟨-, ⟨-, hsame⟩ | ⟨rfl, -⟩ | ⟨hmeant, -⟩⟩ := step_eq_ok hstep
    · exact hsame
    · exact absurd hpieces.1 (by decide)
    · exact absurd hpieces.1 (not_or.2 hmeant)

/-! ### Beside a file -/

/-- A path to a file ends with its name, which follows on a path to its directory. -/
theorem pieces_of_resolve_file (htree : disk.IsTree) {p : Path} {place : Place}
    (hp : disk.resolve p = .ok place) {content : ByteArray}
    (hfile : disk.node? place = some (.file content)) :
    ∃ init name, p.pieces = init ++ [name] ∧ (name ≠ "" ∧ name ≠ ".") ∧
      init.foldlM disk.step (disk.start p) = .ok place.dropLast := by
  obtain ⟨-, hfollow⟩ := resolveFrom_eq_ok_iff.1 (disk.resolve_eq p ▸ hp)
  obtain ⟨init, name, hpieces⟩ := (List.eq_nil_or_concat p.pieces).resolve_left p.pieces_ne_nil
  rw [List.concat_eq_append] at hpieces
  rw [hpieces] at hfollow
  obtain ⟨directory, hinit, hlast⟩ := foldlM_append_eq_ok_iff.1 hfollow
  obtain ⟨next, hstep, hnext⟩ := foldlM_cons_eq_ok_iff.1 hlast
  obtain rfl := Except.ok.inj hnext
  obtain ⟨hname, rfl⟩ := step_file htree hstep hfile
  refine ⟨init, name, hpieces, hname, ?_⟩
  rw [List.dropLast_concat]
  exact hinit

/-- Whatever a file includes is found beside it, whichever path leads to the file. -/
theorem resolve_beside (htree : disk.IsTree) {p q : Path} {place target : Place}
    (hp : disk.resolve p = .ok place) {content : ByteArray}
    (hfile : disk.node? place = some (.file content))
    (hq : disk.resolveFrom place.dropLast q = .ok target) :
    disk.resolve (p.beside q) = .ok target := by
  obtain ⟨hcheckq, hfollow⟩ := resolveFrom_eq_ok_iff.1 hq
  obtain ⟨init, name, hpieces, hname, hinit⟩ := pieces_of_resolve_file htree hp hfile
  by_cases habsolute : q.isAbsolute = true
  · have hsame : p.beside q = q := by
      unfold Path.beside Path.join
      split <;> simp [habsolute]
    rw [hsame, resolve_eq, resolveFrom_eq_ok_iff]
    rw [if_pos habsolute] at hfollow ⊢
    exact ⟨hcheckq, hfollow⟩
  · rw [Bool.not_eq_true] at habsolute
    obtain ⟨kept, dropped, rfl, hdropped, hbeside, hsame⟩ :=
      Path.pieces_beside hpieces hname habsolute
    rw [if_neg (by simp [habsolute])] at hfollow
    obtain ⟨directory, hkept, hrest⟩ := foldlM_append_eq_ok_iff.1 hinit
    rw [foldlM_meaningless hdropped hrest] at hfollow
    obtain ⟨hcheckp, -⟩ := resolveFrom_eq_ok_iff.1 (disk.resolve_eq p ▸ hp)
    rw [checkPath_eq_ok_iff] at hcheckp hcheckq
    rw [resolve_eq, resolveFrom_eq_ok_iff, ← hsame, hbeside]
    refine ⟨checkPath_eq_ok_iff.2 ⟨?_, ?_⟩, foldlM_append_eq_ok_iff.2 ⟨directory, hkept, hfollow⟩⟩
    · rw [hbeside]
      intro hempty
      rcases List.append_eq_singleton_iff.1 hempty with ⟨-, hnone⟩ | ⟨-, hnil⟩
      · exact hcheckq.1 hnone
      · exact q.pieces_ne_nil hnil
    · rw [hbeside]
      intro piece hpiece
      rcases List.mem_append.1 hpiece with hmem | hmem
      · exact hcheckp.2 piece (by simp [hpieces, hmem])
      · exact hcheckq.2 piece hmem

end SerpentCsg.Disk
