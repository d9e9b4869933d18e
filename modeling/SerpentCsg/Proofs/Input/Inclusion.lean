import SerpentCsg.Input.Lines
import SerpentCsg.Proofs.Disk.Following
import Mathlib.Logic.Relation

/-! # Inclusion of Files

  The lines of a file are collected with every inclusion replaced by what the included file expands
  to. This fails only if a file includes itself, be it through other files: a file may well be
  included several times, and is expanded each time.

  Collecting ends, because it goes down only to files that are not on the trail yet. Whether a file
  on the trail is met again is told by its place, so all paths to it must be seen as one.
-/

namespace SerpentCsg

open Relation (ReflTransGen TransGen)

/-! ### Which files include which -/

namespace Disk

/-- There is a file at a place, and it has some lines, all of them text. -/
def HasLines (disk : Disk) (place : Place) (lines : List String) : Prop :=
  ∃ content, disk.node? place = some (.file content) ∧ fileLines content = lines.map some

/-- A line of a file names another file, as seen from its directory. -/
structure Names (disk : Disk) (place : Place) (line : String) (path : Path) (target : Place) :
    Prop where
  inclusion : includedPath? line = some path
  found : disk.resolveFrom place.dropLast path = .ok target

/-- A line of a file includes another file. -/
def Includes (disk : Disk) (place target : Place) : Prop :=
  ∃ lines, disk.HasLines place lines ∧ ∃ line ∈ lines, ∃ path, disk.Names place line path target

/-- A file includes, directly or through others, one that includes itself. -/
def LeadsToCycle (disk : Disk) (place : Place) : Prop :=
  ∃ file, ReflTransGen disk.Includes place file ∧ TransGen disk.Includes file file

variable {disk : Disk}

theorem HasLines.unique {place : Place} {lines other : List String}
    (h : disk.HasLines place lines) (h' : disk.HasLines place other) : lines = other := by
  obtain ⟨content, hnode, hlines⟩ := h
  obtain ⟨content', hnode', hlines'⟩ := h'
  obtain rfl : content = content' := by
    rw [hnode] at hnode'
    exact Node.file.inj (Option.some.inj hnode')
  have hinjective : Function.Injective (some : String → Option String) :=
    fun _ _ => Option.some.inj
  exact List.map_injective_iff.2 hinjective (hlines.symm.trans hlines')

theorem Names.unique {place target other : Place} {line : String} {path path' : Path}
    (h : disk.Names place line path target) (h' : disk.Names place line path' other) :
    path = path' ∧ target = other := by
  obtain rfl : path = path' := Option.some.inj (h.inclusion.symm.trans h'.inclusion)
  exact ⟨rfl, Except.ok.inj (h.found.symm.trans h'.found)⟩

theorem Names.ne_none {place target : Place} {line : String} {path : Path}
    (h : disk.Names place line path target) : includedPath? line ≠ none := by
  rw [h.inclusion]
  exact Option.some_ne_none path

/-- A cycle that a file leads to can be reached through a file that it includes. -/
theorem LeadsToCycle.next {place : Place} (h : disk.LeadsToCycle place) :
    ∃ target, disk.Includes place target ∧ disk.LeadsToCycle target := by
  obtain ⟨file, hreach, hcycle⟩ := h
  rcases hreach.cases_head with rfl | ⟨target, hfirst, hrest⟩
  · obtain ⟨target, hfirst, hback⟩ := TransGen.head'_iff.1 hcycle
    exact ⟨target, hfirst, place, hback, hcycle⟩
  · exact ⟨target, hfirst, file, hrest, hcycle⟩

theorem LeadsToCycle.head {place target : Place} (hfirst : disk.Includes place target)
    (h : disk.LeadsToCycle target) : disk.LeadsToCycle place := by
  obtain ⟨file, hreach, hcycle⟩ := h
  exact ⟨file, .head hfirst hreach, hcycle⟩

/-! ### Expansion -/

/-- What lines of a file expand to, each of them in its place. -/
inductive Expands (disk : Disk) : Place → List String → List String → Prop where
  | nil (place : Place) : Expands disk place [] []
  /-- A line that includes no file is kept. -/
  | kept {place : Place} {line : String} {rest out : List String} :
      includedPath? line = none → Expands disk place rest out →
      Expands disk place (line :: rest) (line :: out)
  /-- A line that includes a file is replaced by what that expands to. -/
  | included {place target : Place} {line : String} {path : Path}
      {rest out lines inner : List String} :
      disk.Names place line path target → disk.HasLines target lines →
      Expands disk target lines inner → Expands disk place rest out →
      Expands disk place (line :: rest) (inner ++ out)

/-- There is one expansion at most. -/
theorem Expands.unique {place : Place} {lines out other : List String}
    (h : disk.Expands place lines out) (h' : disk.Expands place lines other) : out = other := by
  induction h generalizing other with
  | nil =>
    cases h'
    rfl
  | kept hplain _ ih =>
    cases h' with
    | kept _ hrest => rw [ih hrest]
    | included hnames => exact absurd hplain hnames.ne_none
  | included hnames hlines _ _ ihinner ihrest =>
    cases h' with
    | kept hplain => exact absurd hplain hnames.ne_none
    | included hnames' hlines' hinner' hrest' =>
      obtain ⟨rfl, rfl⟩ := hnames.unique hnames'
      obtain rfl := hlines.unique hlines'
      rw [ihinner hinner', ihrest hrest']

/-- Files that can be expanded do not include each other endlessly. -/
theorem Expands.acc {place : Place} {lines out : List String} (h : disk.Expands place lines out) :
    ∀ line ∈ lines, ∀ path target, disk.Names place line path target →
      Acc (Function.swap disk.Includes) target := by
  induction h with
  | nil => simp
  | kept hplain _ ih =>
    intro line hline path target hnames
    rcases List.mem_cons.1 hline with rfl | hmem
    · exact absurd hplain hnames.ne_none
    · exact ih line hmem path target hnames
  | included hnames hlines _ _ ihinner ihrest =>
    intro line hline path target hnames'
    rcases List.mem_cons.1 hline with rfl | hmem
    · obtain ⟨rfl, rfl⟩ := hnames.unique hnames'
      refine Acc.intro _ fun next hnext => ?_
      obtain ⟨lines', hlines', line', hline', path', hnames''⟩ := hnext
      obtain rfl := hlines.unique hlines'
      exact ihinner line' hline' path' next hnames''
    · exact ihrest line hmem path target hnames'

theorem not_leadsToCycle_of_acc {place : Place} (h : Acc (Function.swap disk.Includes) place) :
    ¬ disk.LeadsToCycle place := by
  induction h with
  | intro place _ ih =>
    intro hcycle
    obtain ⟨target, hfirst, hnext⟩ := hcycle.next
    exact ih target hfirst hnext

/-- A file that can be expanded leads to no cycle. -/
theorem Expands.not_leadsToCycle {place : Place} {lines out : List String}
    (hlines : disk.HasLines place lines) (h : disk.Expands place lines out) :
    ¬ disk.LeadsToCycle place := by
  refine not_leadsToCycle_of_acc (Acc.intro place fun target htarget => ?_)
  obtain ⟨lines', hlines', line, hline, path, hnames⟩ := htarget
  obtain rfl := hlines.unique hlines'
  exact h.acc line hline path target hnames

/-! ### Trails -/

/-- A path that is met while the files of a trail are being read, and the place it leads to. None of
    those files comes twice, and each of them includes the one before it, the first of them
    the one at the path. -/
inductive Meets (disk : Disk) (start : Path) : List Place → Path → Place → Prop where
  | start {place : Place} : disk.resolve start = .ok place → Meets disk start [] start place
  | included {trail : List Place} {path included : Path} {place target : Place}
      {lines : List String} {line : String} :
      Meets disk start trail path place → place ∉ trail →
      disk.HasLines place lines → line ∈ lines → disk.Names place line included target →
      Meets disk start (place :: trail) (path.beside included) target

/-- From a path, all that inclusions lead to can be read: the disk has no links, the files that are
    included are there, their lines are text, and a file can be opened by a path by which
    it is met for the first time on a trail. -/
structure Readable (disk : Disk) (start : Path) (place : Place) : Prop where
  tree : disk.IsTree
  found : disk.resolve start = .ok place
  lines : ∀ file, ReflTransGen disk.Includes place file → ∃ lines, disk.HasLines file lines ∧
    ∀ line ∈ lines, ∀ path, includedPath? line = some path →
      ∃ target, disk.Names file line path target
  opens : ∀ trail path file, disk.Meets start trail path file → file ∉ trail →
    checkOpening path = .ok ()

namespace Meets

variable {start path : Path} {first place : Place} {trail : List Place}

/-- A path that is met leads to its place. -/
theorem resolve (h : disk.Meets start trail path place) (htree : disk.IsTree) :
    disk.resolve path = .ok place := by
  induction h with
  | start hfound => exact hfound
  | included _ _ hlines _ hnames ih =>
    obtain ⟨content, hnode, -⟩ := hlines
    exact resolve_beside htree ih hnode hnames.found

/-- Every file on the trail leads to the place that is met. -/
theorem transGen (h : disk.Meets start trail path place) :
    ∀ file ∈ trail, TransGen disk.Includes file place := by
  induction h with
  | start => simp
  | included _ _ hlines hline hnames ih =>
    intro file hfile
    have hlast := TransGen.single (r := disk.Includes) ⟨_, hlines, _, hline, _, hnames⟩
    rcases List.mem_cons.1 hfile with rfl | hmem
    · exact hlast
    · exact (ih file hmem).trans hlast

/-- Every place that is met can be reached from the first one. -/
theorem reaches (h : disk.Meets start trail path place) (hfirst : disk.resolve start = .ok first) :
    ReflTransGen disk.Includes first place := by
  induction h with
  | start hfound =>
    obtain rfl := Except.ok.inj (hfirst.symm.trans hfound)
    exact .refl
  | included _ _ hlines hline hnames ih => exact ih.tail ⟨_, hlines, _, hline, _, hnames⟩

end Meets

/-! ### Finitely many paths -/

/-- A file, a path by which it is met, and its lines. -/
structure Visit where
  path : Path
  place : Place
  lines : List String

/-- Finitely many paths can be read if each of them can be, and inclusions lead from one to another
    one only. -/
theorem Readable.of_visits {visits : List Visit} (first : Visit) (htree : disk.IsTree)
    (hfound : disk.resolve first.path = .ok first.place) (hfirst : first ∈ visits)
    (hlines : ∀ visit ∈ visits, disk.HasLines visit.place visit.lines)
    (hopens : ∀ visit ∈ visits, checkOpening visit.path = .ok ())
    (hclosed : ∀ visit ∈ visits, ∀ line ∈ visit.lines, ∀ path ∈ includedPath? line,
      ∃ next ∈ visits, next.path = visit.path.beside path ∧
        disk.resolveFrom visit.place.dropLast path = .ok next.place) :
    disk.Readable first.path first.place := by
  have hnext {visit : Visit} (hvisit : visit ∈ visits) {lines : List String} {line : String}
      {path : Path} {target : Place} (hread : disk.HasLines visit.place lines)
      (hline : line ∈ lines) (hnames : disk.Names visit.place line path target) :
      ∃ next ∈ visits, next.path = visit.path.beside path ∧ next.place = target := by
    obtain rfl := hread.unique (hlines visit hvisit)
    obtain ⟨next, hmem, hpath, hplace⟩ := hclosed visit hvisit line hline path hnames.inclusion
    exact ⟨next, hmem, hpath, Except.ok.inj (hplace.symm.trans hnames.found)⟩
  have hreach {file : Place} (h : ReflTransGen disk.Includes first.place file) :
      ∃ visit ∈ visits, visit.place = file := by
    induction h with
    | refl => exact ⟨first, hfirst, rfl⟩
    | tail _ hlast ih =>
      obtain ⟨visit, hvisit, rfl⟩ := ih
      obtain ⟨lines, hread, line, hline, path, hnames⟩ := hlast
      obtain ⟨next, hmem, -, hplace⟩ := hnext hvisit hread hline hnames
      exact ⟨next, hmem, hplace⟩
  have hmet {trail : List Place} {path : Path} {file : Place}
      (h : disk.Meets first.path trail path file) :
      ∃ visit ∈ visits, visit.path = path ∧ visit.place = file := by
    induction h with
    | start hstart => exact ⟨first, hfirst, rfl, Except.ok.inj (hfound.symm.trans hstart)⟩
    | included _ _ hread hline hnames ih =>
      obtain ⟨visit, hvisit, rfl, rfl⟩ := ih
      exact hnext hvisit hread hline hnames
  refine ⟨htree, hfound, fun file hfile => ?_, fun trail path file h _ => ?_⟩
  · obtain ⟨visit, hvisit, rfl⟩ := hreach hfile
    refine ⟨visit.lines, hlines visit hvisit, fun line hline path hpath => ?_⟩
    obtain ⟨next, -, -, hplace⟩ := hclosed visit hvisit line hline path hpath
    exact ⟨next.place, hpath, hplace⟩
  · obtain ⟨visit, hvisit, rfl, -⟩ := hmet h
    exact hopens visit hvisit

end Disk

/-! ### Collecting -/

open Disk

variable {disk : Disk}

/-- Collecting the lines of the file at a place, after whatever lines, either adds its expansion or
    fails, and then the file leads to a cycle. -/
inductive CollectsAt (disk : Disk) (place : Place) (collected : Array String → Collected) : Prop
    where
  | expanded {lines out : List String} : disk.HasLines place lines →
      disk.Expands place lines out →
      (∀ before, collected before = ⟨before ++ out.toArray, none⟩) → CollectsAt disk place collected
  | failed : disk.LeadsToCycle place → (∀ before, (collected before).stop ≠ none) →
      CollectsAt disk place collected

/-- The lines of a file are collected, if those of every file are that it includes. -/
theorem expandLines_collects {path : Path} (trail : List Place) {place : Place}
    {descend : Path → Array String → Collected} {lines : List String}
    (h : ∀ line ∈ lines, ∀ included, includedPath? line = some included →
      ∃ target, disk.Names place line included target ∧
        CollectsAt disk target (descend (path.beside included))) :
    (∃ out, disk.Expands place lines out ∧ ∀ before,
      expandLines path trail descend (lines.map some) before = ⟨before ++ out.toArray, none⟩) ∨
    ((∃ line ∈ lines, ∃ included target, disk.Names place line included target ∧
        disk.LeadsToCycle target) ∧
      ∀ before, (expandLines path trail descend (lines.map some) before).stop ≠ none) := by
  induction lines with
  | nil => exact .inl ⟨[], .nil place, fun before => by simp [expandLines]⟩
  | cons line rest ih =>
    rw [List.forall_mem_cons] at h
    specialize ih h.2
    cases hline : includedPath? line with
    | none =>
      -- The line is kept, and it is up to the rest.
      have hstep (before : Array String) : expandLines path trail descend
          ((line :: rest).map some) before =
            expandLines path trail descend (rest.map some) (before.push line) := by
        simp [expandLines, hline]
      rcases ih with ⟨out, hexpands, hrest⟩ | ⟨⟨other, hother, hcycle⟩, hrest⟩
      · refine .inl ⟨line :: out, .kept hline hexpands, fun before => ?_⟩
        rw [hstep, hrest]
        simp
      · refine .inr ⟨⟨other, List.mem_cons_of_mem line hother, hcycle⟩, fun before => ?_⟩
        rw [hstep]
        exact hrest _
    | some included =>
      obtain ⟨target, hnames, hcollects⟩ := h.1 included hline
      cases hcollects with
      | failed hcycle hfails =>
        refine .inr ⟨⟨line, List.mem_cons_self, included, target, hnames, hcycle⟩, fun before => ?_⟩
        have hstop := hfails before
        simp only [List.map_cons, expandLines, hline]
        generalize descend (path.beside included) before = inner at hstop ⊢
        obtain ⟨lines, _ | ⟨fault, trail⟩⟩ := inner
        · exact absurd rfl hstop
        · simp
      | @expanded lines inner hlines hinner hdescends =>
        have hstep (before : Array String) : expandLines path trail descend
            ((line :: rest).map some) before =
              expandLines path trail descend (rest.map some) (before ++ inner.toArray) := by
          simp [expandLines, hline, hdescends]
        rcases ih with ⟨out, hexpands, hrest⟩ | ⟨⟨other, hother, hcycle⟩, hrest⟩
        · refine .inl ⟨inner ++ out, .included hnames hlines hinner hexpands, fun before => ?_⟩
          rw [hstep, hrest]
          simp
        · refine .inr ⟨⟨other, List.mem_cons_of_mem line hother, hcycle⟩, fun before => ?_⟩
          rw [hstep]
          exact hrest _

/-- A file that is met for the first time on a trail is expanded. -/
theorem collect_file {trail : List Place} {path : Path} {place : Place} {lines : List String}
    (hresolve : disk.resolve path = .ok place) (hnew : place ∉ trail)
    (hlines : disk.HasLines place lines) (hopen : checkOpening path = .ok ())
    (before : Array String) :
    collect disk trail path before = expandLines path (place :: trail)
      (collect disk (place :: trail)) (lines.map some) before := by
  obtain ⟨content, hnode, hcontent⟩ := hlines
  rw [collect]
  split
  · next fault hfault =>
    have hnone := hresolve.symm.trans hfault
    cases hnone
  · next place' hplace =>
    obtain rfl : place = place' := Except.ok.inj (hresolve.symm.trans hplace)
    rw [dif_neg hnew]
    split
    · next hnothing =>
      have hnone := hnode.symm.trans hnothing
      cases hnone
    · next node hnode' =>
      obtain rfl : node = .file content := Option.some.inj (hnode'.symm.trans hnode)
      rw [hopen, ← hcontent]

/-- A file that is on the trail already is taken for one that includes itself. -/
theorem collect_of_mem_trail {trail : List Place} {path : Path} {place : Place}
    (hresolve : disk.resolve path = .ok place) (hseen : place ∈ trail) (before : Array String) :
    collect disk trail path before = ⟨before, some (.inclusionCycle path, trail)⟩ := by
  rw [collect]
  split
  · next fault hfault =>
    have hnone := hresolve.symm.trans hfault
    cases hnone
  · next place' hplace =>
    obtain rfl : place = place' := Except.ok.inj (hresolve.symm.trans hplace)
    rw [dif_pos hseen]

/-- A file that is on the trail already is not expanded. -/
theorem collect_again {trail : List Place} {path : Path} {place : Place}
    (hresolve : disk.resolve path = .ok place) (hseen : place ∈ trail) (before : Array String) :
    (collect disk trail path before).stop ≠ none := by
  rw [collect_of_mem_trail hresolve hseen]
  simp

/-- By induction on the number of places that are not on the trail: wherever the trail leads, a file
    is expanded or leads to a cycle. -/
theorem collect_collects {start : Path} {first : Place} (hreadable : disk.Readable start first)
    {trail : List Place} {path : Path} {place : Place} (h : disk.Meets start trail path place) :
    CollectsAt disk place (collect disk trail path) := by
  have hresolve := h.resolve hreadable.tree
  by_cases hseen : place ∈ trail
  · exact .failed ⟨place, .refl, h.transGen place hseen⟩ (collect_again hresolve hseen)
  · obtain ⟨lines, hlines, hnames⟩ := hreadable.lines place (h.reaches hreadable.found)
    have hopen := hreadable.opens trail path place h hseen
    have hsteps := collect_file hresolve hseen hlines hopen
    have hdown : ∀ line ∈ lines, ∀ included, includedPath? line = some included →
        ∃ target, disk.Names place line included target ∧
          CollectsAt disk target (collect disk (place :: trail) (path.beside included)) := by
      intro line hline included hincluded
      obtain ⟨target, htarget⟩ := hnames line hline included hincluded
      exact ⟨target, htarget,
        collect_collects hreadable (.included h hseen hlines hline htarget)⟩
    rcases expandLines_collects (place :: trail) hdown with
      ⟨out, hexpands, hout⟩ | ⟨⟨line, hline, included, target, htarget, hcycle⟩, hfails⟩
    · exact .expanded hlines hexpands fun before => (hsteps before).trans (hout before)
    · refine .failed (hcycle.head ⟨lines, hlines, line, hline, included, htarget⟩) fun before => ?_
      rw [hsteps]
      exact hfails before
termination_by placesLeft disk trail
decreasing_by
  obtain ⟨content, hnode, -⟩ := hlines
  exact placesLeft_cons_lt hnode hseen

/-- The lines of a file are collected, unless it leads to a file that includes itself. What is added
    to the lines collected before is then what the file expands to. -/
theorem collect_expands {path : Path} {place : Place} (h : disk.Readable path place)
    (before : Array String) :
    ((collect disk [] path before).stop ≠ none ↔ ∃ file, ReflTransGen disk.Includes place file ∧
      TransGen disk.Includes file file) ∧
    ((collect disk [] path before).stop = none → ∃ lines out, disk.HasLines place lines ∧
      disk.Expands place lines out ∧
      (collect disk [] path before).lines = before ++ out.toArray) := by
  cases collect_collects h (.start h.found) with
  | expanded hlines hexpands hcollect =>
    rw [hcollect]
    exact ⟨iff_of_false (by simp) (hexpands.not_leadsToCycle hlines),
      fun _ => ⟨_, _, hlines, hexpands, rfl⟩⟩
  | failed hcycle hfails =>
    exact ⟨iff_of_true (hfails before) hcycle, fun hstop => absurd hstop (hfails before)⟩

/-- A ball that is included twice, once from the directory it lies in. -/
def sharedDisk : Disk :=
  (((Disk.empty []).addFile ["main"] "include d/b\ninclude d/c\nset root 0\n".toUTF8).addFile
    ["d", "b"] "include c\n".toUTF8).addFile ["d", "c"] "surf s sph 0 0 0 1\n".toUTF8

/-- The files of that disk, each of them met by one path. -/
def sharedVisits : List Visit :=
  [⟨⟨"main"⟩, ["main"], ["include d/b", "include d/c", "set root 0"]⟩,
    ⟨⟨"d/b"⟩, ["d", "b"], ["include c"]⟩, ⟨⟨"d/c"⟩, ["d", "c"], ["surf s sph 0 0 0 1"]⟩]

theorem readable_shared : sharedDisk.Readable ⟨"main"⟩ ["main"] := by
  have htree : sharedDisk.IsTree := by
    have hkeys : sharedDisk.nodes.keys = [["main"], ["d"], ["d", "b"], ["d", "c"]] := by
      decide +kernel
    refine isTree_of_keys fun place hplace => ?_
    rw [hkeys] at hplace
    simp only [List.mem_cons, List.not_mem_nil, or_false] at hplace
    rcases hplace with rfl | rfl | rfl | rfl <;> rfl
  have hlines : ∀ visit ∈ sharedVisits, sharedDisk.HasLines visit.place visit.lines := by
    simp only [sharedVisits, List.forall_mem_cons, List.not_mem_nil, false_imp_iff, implies_true,
      and_true]
    refine ⟨⟨_, rfl, ?_⟩, ⟨_, rfl, ?_⟩, ⟨_, rfl, ?_⟩⟩ <;> decide +kernel
  exact Readable.of_visits (sharedVisits.head (by decide)) htree (by decide +kernel)
    (List.head_mem _) hlines (by decide +kernel) (by decide +kernel)

/-- It is expanded at both places. -/
theorem collect_expands_shared :
    sharedDisk.Readable ⟨"main"⟩ ["main"] ∧
    ((collect sharedDisk [] ⟨"main"⟩ #[]).stop ≠ none ↔
      ∃ file, ReflTransGen sharedDisk.Includes ["main"] file ∧
        TransGen sharedDisk.Includes file file) ∧
    (collect sharedDisk [] ⟨"main"⟩ #[]).lines =
      #["surf s sph 0 0 0 1", "surf s sph 0 0 0 1", "set root 0"] ∧
    ∃ lines out, sharedDisk.HasLines ["main"] lines ∧ sharedDisk.Expands ["main"] lines out ∧
      (collect sharedDisk [] ⟨"main"⟩ #[]).lines = #[] ++ out.toArray := by
  have hstop : (collect sharedDisk [] ⟨"main"⟩ #[]).stop.isNone = true := by decide +kernel
  obtain ⟨hiff, hdone⟩ := collect_expands readable_shared #[]
  exact ⟨readable_shared, hiff, by decide +kernel, hdone (Option.isNone_iff_eq_none.1 hstop)⟩

end SerpentCsg
