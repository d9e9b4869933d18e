import SerpentCsg.Disk.Path
import Mathlib.Data.List.DropRight

/-! # Pieces of Paths

  A path is determined by its pieces. Seen from the directory of a file, a path has the pieces of
  the file without the last one, but for meaningless ones, and then its own.
-/

namespace SerpentCsg.Path

/-! ### Between slashes -/

theorem pieces_ne_nil (p : Path) : p.pieces ≠ [] := by
  simp [pieces]

/-- No slash is left in what a list is split into. -/
theorem notMem_of_mem_splitOn {c : Char} {s piece : List Char} (h : piece ∈ s.splitOn c) :
    c ∉ piece := by
  induction s generalizing piece with
  | nil =>
    obtain rfl : piece = [] := by simpa using h
    exact List.not_mem_nil
  | cons d s ih =>
    rw [List.splitOn_cons_eq_if_modifyHead] at h
    by_cases hd : (d == c) = true
    · rw [if_pos hd] at h
      rcases List.mem_cons.1 h with rfl | hmem
      · exact List.not_mem_nil
      · exact ih hmem
    · rw [if_neg hd] at h
      obtain ⟨first, rest, hsplit⟩ := List.exists_cons_of_ne_nil (List.splitOn_ne_nil c s)
      rw [hsplit] at h ih
      rcases List.mem_cons.1 h with rfl | hmem
      · have hne : c ≠ d := by
          intro heq
          simp [heq] at hd
        simp [hne, ih List.mem_cons_self]
      · exact ih (List.mem_cons_of_mem _ hmem)

theorem slash_notMem {p : Path} {piece : String} (h : piece ∈ p.pieces) : '/' ∉ piece.toList := by
  obtain ⟨chars, hchars, rfl⟩ := List.mem_map.1 h
  rw [String.toList_ofList]
  exact notMem_of_mem_splitOn hchars

theorem pieces_append_slash (before after : String) :
    (⟨before ++ "/" ++ after⟩ : Path).pieces =
      (⟨before⟩ : Path).pieces ++ (⟨after⟩ : Path).pieces := by
  unfold pieces
  rw [← List.map_append, ← List.splitOn_append_cons_self]
  simp

theorem pieces_slash (after : String) :
    (⟨"/" ++ after⟩ : Path).pieces = "" :: (⟨after⟩ : Path).pieces := by
  simpa [pieces] using pieces_append_slash "" after

theorem pieces_intercalate {l : List String} (hne : l ≠ [])
    (hslash : ∀ piece ∈ l, '/' ∉ piece.toList) :
    (⟨"/".intercalate l⟩ : Path).pieces = l := by
  unfold pieces
  rw [String.toList_intercalate]
  show (List.splitOn '/' (['/'].intercalate (l.map String.toList))).map String.ofList = l
  rw [List.splitOn_intercalate]
  · simp
  · simpa using hslash
  · simpa using hne

theorem text_eq (p : Path) : p.text = "/".intercalate p.pieces := by
  apply String.toList_inj.1
  rw [String.toList_intercalate]
  simp only [pieces, List.map_map]
  have hid : String.toList ∘ String.ofList = id := by
    funext s
    simp
  rw [hid, List.map_id]
  exact (List.intercalate_splitOn '/').symm

/-- What stands between the pieces are slashes only. -/
theorem mem_intercalate_iff {α : Type} {a sep : α} (ha : a ≠ sep) {pieces : List (List α)} :
    a ∈ [sep].intercalate pieces ↔ ∃ piece ∈ pieces, a ∈ piece := by
  induction pieces with
  | nil => simp [List.intercalate]
  | cons piece pieces ih =>
    cases pieces with
    | nil => simp [List.intercalate]
    | cons second rest =>
      rw [List.intercalate_cons_cons, List.mem_append, List.mem_append, ih]
      simp [ha]

theorem mem_text_iff {p : Path} {c : Char} (hc : c ≠ '/') :
    c ∈ p.text.toList ↔ ∃ piece ∈ p.pieces, c ∈ piece.toList := by
  rw [p.text_eq, String.toList_intercalate, show "/".toList = ['/'] from rfl,
    mem_intercalate_iff hc]
  simp

/-- A path is absolute if it starts with an empty piece and has others. -/
theorem isAbsolute_iff (p : Path) :
    p.isAbsolute = true ↔ ∃ piece rest, p.pieces = "" :: piece :: rest := by
  obtain ⟨text⟩ := p
  unfold isAbsolute pieces
  dsimp only
  cases htext : text.toList with
  | nil => simp
  | cons c s =>
    rw [List.splitOn_cons_eq_if_modifyHead]
    obtain ⟨first, rest, hsplit⟩ := List.exists_cons_of_ne_nil (List.splitOn_ne_nil '/' s)
    by_cases hc : c = '/'
    · simp [hc, hsplit]
    · simp [hc, hsplit]

/-- Whether a path is absolute can be told from any of its first pieces. -/
theorem isAbsolute_congr {p r : Path} {first rest other : List String} (hfirst : first ≠ [])
    (hp : p.pieces = first ++ rest) (hr : r.pieces = first ++ other) (hrest : rest ≠ [])
    (hother : other ≠ []) : p.isAbsolute = r.isAbsolute := by
  obtain ⟨piece, pieces, rfl⟩ := List.exists_cons_of_ne_nil hfirst
  have hhead {q : Path} {later : List String} (hlater : later ≠ [])
      (hq : q.pieces = piece :: pieces ++ later) : q.isAbsolute = true ↔ piece = "" := by
    rw [isAbsolute_iff, hq, List.cons_append]
    obtain ⟨second, others, hcons⟩ :=
      List.exists_cons_of_ne_nil (List.append_ne_nil_of_right_ne_nil pieces hlater)
    simp [hcons]
  rw [Bool.eq_iff_iff, hhead hrest hp, hhead hother hr]

/-! ### Pieces that mean nothing -/

/-- Nothing but empty pieces and points is left out at the end. -/
theorem meaningful_append (absolute : Bool) (entries : List (String × Nat)) :
    ∃ dropped, entries = meaningful absolute entries ++ dropped ∧
      (∀ entry ∈ dropped, entry.1 = "" ∨ entry.1 = ".") ∧
      ∀ entry, (meaningful absolute entries).getLast? = some entry → entry.1 ≠ "" := by
  let empty := fun entry => !isMeaningful absolute entry
  refine ⟨entries.rtakeWhile empty, List.rdropWhile_append_rtakeWhile.symm, ?_, ?_⟩
  · intro entry hentry
    have hmeaning := List.mem_rtakeWhile_imp hentry
    by_contra hnone
    simp only [not_or] at hnone
    simp [empty, isMeaningful, hnone] at hmeaning
  · intro entry hlast hempty
    have hne : entries.rdropWhile empty ≠ [] := by
      intro hnil
      rw [show meaningful absolute entries = _ from hnil] at hlast
      cases hlast
    have hmeaning := List.rdropWhile_last_not empty entries hne
    have hentry : (entries.rdropWhile empty).getLast hne = entry := by
      rw [← Option.some.injEq, ← List.getLast?_eq_getLast_of_ne_nil hne]
      exact hlast
    rw [hentry] at hmeaning
    simp [empty, isMeaningful, hempty] at hmeaning

/-! ### Beside a file -/

/-- The directory of a path that ends with a name has the pieces before that, but for meaningless
    ones. -/
theorem parent?_eq {p : Path} {init : List String} {name : String} (hp : p.pieces = init ++ [name])
    (hname : name ≠ "" ∧ name ≠ ".") :
    ∃ kept dropped, init = kept ++ dropped ∧ (∀ piece ∈ dropped, piece = "" ∨ piece = ".") ∧
      kept.getLast? ≠ some "" ∧
      p.parent? = some ⟨if p.isAbsolute && kept.length ≤ 1 then "/" else "/".intercalate kept⟩ := by
  obtain ⟨dropped, hsplit, hdropped, hlast⟩ := meaningful_append p.isAbsolute init.zipIdx
  refine ⟨(meaningful p.isAbsolute init.zipIdx).map (·.1), dropped.map (·.1), ?_, ?_, ?_, ?_⟩
  · rw [← List.map_append, ← hsplit, List.zipIdx_map_fst]
  · simpa using hdropped
  · intro hempty
    rw [List.getLast?_map] at hempty
    obtain ⟨entry, hentry, hname⟩ := Option.map_eq_some_iff.1 hempty
    exact hlast entry hentry hname
  · have hmeant : ¬ (!isMeaningful p.isAbsolute (name, 0 + init.length)) = true := by
      simp [isMeaningful, hname]
    have hwhole : meaningful p.isAbsolute p.pieces.zipIdx =
        init.zipIdx ++ [(name, 0 + init.length)] := by
      rw [hp, List.zipIdx_append, List.zipIdx_singleton]
      exact List.rdropWhile_concat_neg _ _ _ hmeant
    unfold parent?
    rw [hwhole, List.reverse_append]
    simp

/-- A path seen from a directory that does not end with a slash has the pieces of both. -/
theorem pieces_join {directory q : Path} (hlast : directory.pieces.getLast? ≠ some "")
    (hq : q.isAbsolute = false) : (directory.join q).pieces = directory.pieces ++ q.pieces := by
  have hempty : directory.text ≠ "" := by
    intro htext
    exact hlast (by rw [pieces, htext]; rfl)
  have hslash : directory.text.toList.getLast? ≠ some '/' := by
    intro hend
    obtain ⟨before, htext⟩ := List.getLast?_eq_some_iff.1 hend
    have hsplit : directory = ⟨String.ofList before ++ "/" ++ ""⟩ := by
      obtain ⟨text⟩ := directory
      rw [mk.injEq, ← String.toList_inj, htext]
      simp
    rw [hsplit, pieces_append_slash] at hlast
    exact hlast (by simp [pieces])
  unfold join
  simp only [hq, hempty, hslash, beq_iff_eq, Bool.or_eq_true, decide_eq_true_eq, or_self,
    Bool.false_eq_true, if_false]
  exact pieces_append_slash directory.text q.text

/-- A path beside a file has the pieces of the file before its name, but for meaningless ones, and
    then its own. Both are absolute or neither is. -/
theorem pieces_beside {p q : Path} {init : List String} {name : String}
    (hp : p.pieces = init ++ [name]) (hname : name ≠ "" ∧ name ≠ ".") (hq : q.isAbsolute = false) :
    ∃ kept dropped, init = kept ++ dropped ∧ (∀ piece ∈ dropped, piece = "" ∨ piece = ".") ∧
      (p.beside q).pieces = kept ++ q.pieces ∧ p.isAbsolute = (p.beside q).isAbsolute := by
  obtain ⟨kept, dropped, hsplit, hdropped, hlast, hparent⟩ := parent?_eq hp hname
  have hbeside : p.beside q = (⟨if p.isAbsolute && kept.length ≤ 1 then "/" else
      "/".intercalate kept⟩ : Path).join q := by
    unfold beside
    rw [hparent]
  by_cases hroot : (p.isAbsolute && decide (kept.length ≤ 1)) = true
  · -- The file lies in the root directory, from which the path starts with an empty piece.
    rw [if_pos hroot] at hbeside
    simp only [Bool.and_eq_true, decide_eq_true_eq] at hroot
    obtain ⟨piece, rest, habsolute⟩ := p.isAbsolute_iff.1 hroot.1
    obtain ⟨later, hfirst⟩ : ∃ later, init = "" :: later := by
      cases init with
      | nil => simp [hp] at habsolute
      | cons first later =>
        rw [hp, List.cons_append, List.cons.injEq] at habsolute
        exact ⟨later, by rw [habsolute.1]⟩
    have hkept : kept = [] := by
      match kept, hroot.2 with
      | [], _ => rfl
      | [first], _ =>
        have hnone : first = "" := (List.cons.inj (hsplit.symm.trans hfirst)).1
        exact absurd (by rw [hnone]; rfl) hlast
    have hpieces : (p.beside q).pieces = [""] ++ q.pieces := by
      rw [hbeside]
      unfold join
      rw [hq]
      exact pieces_slash q.text
    refine ⟨[""], later, hfirst, fun piece hpiece => hdropped piece ?_, hpieces, ?_⟩
    · rw [hkept, List.nil_append] at hsplit
      rw [← hsplit, hfirst]
      exact List.mem_cons_of_mem _ hpiece
    · exact isAbsolute_congr (List.cons_ne_nil _ _) habsolute hpieces (List.cons_ne_nil _ _)
        q.pieces_ne_nil
  · rw [if_neg hroot] at hbeside
    by_cases hkept : kept = []
    · have hsame : p.beside q = q := by
        rw [hbeside, hkept]
        unfold join
        rw [hq]
        simp
      have hrelative : p.isAbsolute = false := by simpa [hkept] using hroot
      exact ⟨[], dropped, by rw [hsplit, hkept], hdropped, by rw [hsame]; rfl,
        by rw [hsame, hrelative, hq]⟩
    · have hdirectory : (⟨"/".intercalate kept⟩ : Path).pieces = kept := by
        refine pieces_intercalate hkept fun piece hpiece => slash_notMem (p := p) ?_
        simp [hp, hsplit, hpiece]
      have hpieces : (p.beside q).pieces = kept ++ q.pieces := by
        rw [hbeside, pieces_join (by rwa [hdirectory]) hq, hdirectory]
      refine ⟨kept, dropped, hsplit, hdropped, hpieces, ?_⟩
      rw [hsplit, List.append_assoc] at hp
      exact isAbsolute_congr hkept hp hpieces (by simp) q.pieces_ne_nil

end SerpentCsg.Path
