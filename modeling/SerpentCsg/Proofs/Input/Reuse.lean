import SerpentCsg.Input.Geometry
import SerpentCsg.Proofs.Input.Inclusion
import SerpentCsg.Proofs.Input.Materials
import SerpentCsg.Scalar.Binary64

/-! # Readers That Are Used Again

  A reader goes on with what its earlier calls have left in it. A reader of geometries is as good as
  new exactly if each of them either collected its lines or found nothing at its path: any other
  call leaves the file that it opened on the trail for good, and the reader takes that file
  for one that includes itself from then on. A reader of materials is as good as new exactly if
  after every call that failed behind a material there was one that succeeded.
-/

namespace SerpentCsg

/-! ### What stops collecting -/

/-- Nothing is at the path. -/
def Disk.HasNothing (disk : Disk) (path : Path) : Prop :=
  ∀ place, disk.resolve path = .ok place → disk.node? place = none

/-- How collecting the lines at a path can be stopped: with what fault, and on what trail. -/
inductive Stops (disk : Disk) (trail : List Place) (path : Path) :
    FileFault → List Place → Prop where
  /-- Nothing was opened. -/
  | missing {cause : DiskFault} : disk.HasNothing path →
      Stops disk trail path (.opening path cause) trail
  /-- The file is on the trail already. -/
  | again {place : Place} : disk.resolve path = .ok place → place ∈ trail →
      Stops disk trail path (.inclusionCycle path) trail
  /-- The file joined the trail, and the fault was found in it. -/
  | inside {place : Place} {fault : FileFault} {trail' : List Place} :
      disk.resolve path = .ok place → fault ≠ .inclusionCycle path →
      place :: trail <:+ trail' → Stops disk trail path fault trail'

/-- No place leaves the trail. -/
theorem Stops.suffix {disk : Disk} {trail trail' : List Place} {path : Path} {fault : FileFault}
    (h : Stops disk trail path fault trail') : trail <:+ trail' := by
  cases h with
  | missing _ => exact List.suffix_refl trail
  | again _ _ => exact List.suffix_refl trail
  | inside _ _ hjoined => exact (List.suffix_cons _ trail).trans hjoined

/-- Lines are stopped in an included file, or at a line that is no text. -/
theorem expandLines_stop {path : Path} {trail : List Place}
    {descend : Path → Array String → Collected}
    (hdescend : ∀ included before fault trail',
      (descend included before).stop = some (fault, trail') → trail <:+ trail')
    (lines : List (Option String)) (before : Array String) {fault : FileFault}
    {trail' : List Place}
    (h : (expandLines path trail descend lines before).stop = some (fault, trail')) :
    fault ≠ .inclusionCycle path ∧ trail <:+ trail' := by
  induction lines generalizing before with
  | nil => simp [expandLines] at h
  | cons line rest ih =>
    cases line with
    | none =>
      simp only [expandLines, Option.some.injEq, Prod.mk.injEq] at h
      obtain ⟨rfl, rfl⟩ := h
      exact ⟨by simp, List.suffix_refl trail⟩
    | some line =>
      cases hincluded : includedPath? line with
      | none =>
        simp only [expandLines, hincluded] at h
        exact ih _ h
      | some included =>
        have hinner := hdescend (path.beside included) before
        simp only [expandLines, hincluded] at h
        generalize descend (path.beside included) before = inner at h hinner
        obtain ⟨lines, _ | ⟨cause, trail''⟩⟩ := inner
        · exact ih _ h
        · -- A fault of the included file comes with the place where that is included.
          simp only [Option.some.injEq, Prod.mk.injEq] at h
          obtain ⟨rfl, rfl⟩ := h
          exact ⟨by simp, hinner _ _ rfl⟩

/-- By induction on the number of places that are not on the trail. -/
theorem collect_stops {disk : Disk} {trail : List Place} {path : Path} {before : Array String}
    {fault : FileFault} {trail' : List Place}
    (h : (collect disk trail path before).stop = some (fault, trail')) :
    Stops disk trail path fault trail' := by
  rw [collect] at h
  split at h
  · next cause hresolve =>
    simp only [Option.some.injEq, Prod.mk.injEq] at h
    obtain ⟨rfl, rfl⟩ := h
    refine .missing fun place hplace => ?_
    rw [hresolve] at hplace
    simp at hplace
  next place hresolve =>
  split at h
  · next hseen =>
    simp only [Option.some.injEq, Prod.mk.injEq] at h
    obtain ⟨rfl, rfl⟩ := h
    exact .again hresolve hseen
  next hnew =>
  split at h
  · next hnode =>
    simp only [Option.some.injEq, Prod.mk.injEq] at h
    obtain ⟨rfl, rfl⟩ := h
    refine .missing fun other hother => ?_
    obtain rfl : place = other := Except.ok.inj (hresolve.symm.trans hother)
    exact hnode
  next node hnode =>
  split at h
  · simp only [Option.some.injEq, Prod.mk.injEq] at h
    obtain ⟨rfl, rfl⟩ := h
    exact .inside hresolve (by simp) (List.suffix_refl _)
  · simp only [Option.some.injEq, Prod.mk.injEq] at h
    obtain ⟨rfl, rfl⟩ := h
    exact .inside hresolve (by simp) (List.suffix_refl _)
  · have hdown : ∀ included lines cause trail'',
        (collect disk (place :: trail) included lines).stop = some (cause, trail'') →
          place :: trail <:+ trail'' :=
      fun _ _ _ _ hstop => (collect_stops hstop).suffix
    obtain ⟨hfault, hjoined⟩ := expandLines_stop hdown _ before h
    exact .inside hresolve hfault hjoined
termination_by placesLeft disk trail
decreasing_by exact placesLeft_cons_lt ‹_› ‹_›

/-- Where there is nothing, no line is collected. -/
theorem collect_of_hasNothing {disk : Disk} {path : Path} (h : disk.HasNothing path)
    (before : Array String) :
    ∃ cause, collect disk [] path before = ⟨before, some (.opening path cause, [])⟩ := by
  rw [collect]
  split
  · exact ⟨_, rfl⟩
  next place hresolve =>
  rw [dif_neg List.not_mem_nil]
  split
  · exact ⟨_, rfl⟩
  · next node hnode =>
    rw [h place hresolve] at hnode
    simp at hnode

/-! ### Geometries -/

namespace GeometrySource

/-- One use of a reader: a file, as it is on the disk at that time, and materials for the cells. -/
structure Call where
  disk : Disk
  path : Path
  materials : MaterialLibrary

/-- A reader that has not been used. -/
def new (root : Option String) : GeometrySource := { root }

section Calls

variable (K : Type) [Scalar K]

/-- What a reader gives. -/
def result (source : GeometrySource) (call : Call) : Except FileFault (Conversion K) :=
  (source.read call.disk call.path call.materials).2

/-- The reader after one use. -/
def after (source : GeometrySource) (call : Call) : GeometrySource :=
  (source.read (K := K) call.disk call.path call.materials).1

/-- The reader after several uses. -/
def afterAll (source : GeometrySource) (calls : List Call) : GeometrySource :=
  calls.foldl (after K) source

/-- The lines at the path are collected by a new reader. Whether they make a geometry does not
    matter. -/
def Call.Collects (call : Call) : Prop := (collect call.disk [] call.path #[]).stop = none

/-- A new reader is as before when it has collected the lines, or has opened nothing. -/
def Call.LeavesNothing (call : Call) : Prop := call.Collects ∨ call.disk.HasNothing call.path

variable {K} {source : GeometrySource} {call : Call}

/-! ### What one use leaves behind -/

/-- Either the lines are collected, and no line is left in the reader, or the reader keeps what it
    has when collecting is stopped. -/
theorem after_cases (source : GeometrySource) (call : Call) :
    (∃ lines, collect call.disk source.trail call.path source.lines = ⟨lines, none⟩ ∧
      source.after K call = { source with lines := #[] } ∧
      source.result K call = (Conversion.ofLines (source.deckLines lines) call.materials).mapError
        (.converting call.path)) ∨
    ∃ lines fault trail,
      collect call.disk source.trail call.path source.lines = ⟨lines, some (fault, trail)⟩ ∧
      Stops call.disk source.trail call.path fault trail ∧
      source.after K call = { source with lines, trail } ∧
      source.result K call = .error fault := by
  unfold after result read
  cases hcollect : collect call.disk source.trail call.path source.lines with
  | mk lines stop =>
    cases stop with
    | none => exact .inl ⟨lines, rfl, rfl, rfl⟩
    | some stop =>
      obtain ⟨fault, trail⟩ := stop
      exact .inr ⟨lines, fault, trail, rfl, collect_stops (by rw [hcollect]), rfl, rfl⟩

/-- No use takes a file from the trail. -/
theorem trail_suffix_after (source : GeometrySource) (call : Call) :
    source.trail <:+ (source.after K call).trail := by
  rcases after_cases (K := K) source call with
    ⟨lines, -, hafter, -⟩ | ⟨lines, fault, trail, -, hstops, hafter, -⟩
  · have hkept : (source.after K call).trail = source.trail := by rw [hafter]
    exact hkept ▸ List.suffix_refl _
  · rw [hafter]
    exact hstops.suffix

theorem trail_suffix_afterAll (source : GeometrySource) (calls : List Call) :
    source.trail <:+ (source.afterAll K calls).trail := by
  induction calls generalizing source with
  | nil => exact List.suffix_refl _
  | cons call calls ih => exact (trail_suffix_after source call).trans (ih (source.after K call))

/-- A file on the trail is taken for one that includes itself. -/
theorem result_of_mem_trail {place : Place} (hresolve : call.disk.resolve call.path = .ok place)
    (hseen : place ∈ source.trail) : source.result K call = .error (.inclusionCycle call.path) := by
  rw [result, read, collect_of_mem_trail hresolve hseen]

theorem mapError_converting_ne {α : Type} (e : Except Report α) (path : Path) :
    e.mapError (FileFault.converting path) ≠ .error (.inclusionCycle path) := by
  cases e with
  | ok a => simp [Except.mapError]
  | error report => simp [Except.mapError]

variable {root : Option String}

/-- A new reader takes no file for one that includes itself. -/
theorem result_new_ne : (new root).result K call ≠ .error (.inclusionCycle call.path) := by
  rcases after_cases (K := K) (new root) call with
    ⟨lines, -, -, hresult⟩ | ⟨lines, fault, trail, -, hstops, -, hresult⟩
  · rw [hresult]
    exact mapError_converting_ne _ _
  · rw [hresult]
    cases hstops with
    | missing _ => simp
    | again _ hseen => exact absurd hseen List.not_mem_nil
    | inside _ hfault _ => simpa using hfault

theorem after_new (h : call.LeavesNothing) : (new root).after K call = new root := by
  rcases h with hcollects | hnothing
  · rcases after_cases (K := K) (new root) call with
      ⟨lines, -, hafter, -⟩ | ⟨lines, fault, trail, hcollect, -⟩
    · exact hafter
    · exact absurd (hcollects.symm.trans (congrArg Collected.stop hcollect)) (by simp)
  · obtain ⟨cause, hcollect⟩ := collect_of_hasNothing hnothing (new root).lines
    unfold after read
    rw [show (new root).trail = [] from rfl, hcollect]
    rfl

/-- Any other call leaves a file on the trail. -/
theorem exists_mem_trail_after_new (h : ¬ call.LeavesNothing) :
    ∃ place, call.disk.resolve call.path = .ok place ∧
      place ∈ ((new root).after K call).trail := by
  rcases after_cases (K := K) (new root) call with
    ⟨lines, hcollect, -, -⟩ | ⟨lines, fault, trail, -, hstops, hafter, -⟩
  · exact absurd (.inl (congrArg Collected.stop hcollect)) h
  · rw [hafter]
    cases hstops with
    | missing hnothing => exact absurd (.inr hnothing) h
    | again _ hseen => exact absurd hseen List.not_mem_nil
    | inside hresolve _ hjoined => exact ⟨_, hresolve, hjoined.subset List.mem_cons_self⟩

/-- By induction on the calls: a reader that is not as good as new has a file of one of them on its
    trail. -/
theorem afterAll_new (root : Option String) (calls : List Call) :
    (∀ call ∈ calls, call.LeavesNothing) ∧ (new root).afterAll K calls = new root ∨
      ∃ call ∈ calls, ¬ call.LeavesNothing ∧ ∃ place, call.disk.resolve call.path = .ok place ∧
        place ∈ ((new root).afterAll K calls).trail := by
  induction calls with
  | nil => exact .inl ⟨by simp, rfl⟩
  | cons call calls ih =>
    by_cases hcall : call.LeavesNothing
    · have hnew : (new root).afterAll K (call :: calls) = (new root).afterAll K calls := by
        rw [afterAll, List.foldl_cons, after_new hcall, afterAll]
      rw [hnew]
      rcases ih with ⟨hall, hafter⟩ | ⟨other, hother, hleaves⟩
      · exact .inl ⟨List.forall_mem_cons.2 ⟨hcall, hall⟩, hafter⟩
      · exact .inr ⟨other, List.mem_cons_of_mem _ hother, hleaves⟩
    · obtain ⟨place, hresolve, hmem⟩ : ∃ place, call.disk.resolve call.path = .ok place ∧
          place ∈ ((new root).after K call).trail := exists_mem_trail_after_new hcall
      -- What comes later does not take the file from the trail.
      have hkept := trail_suffix_afterAll (K := K) ((new root).after K call) calls
      exact .inr ⟨call, List.mem_cons_self, hcall, place, hresolve, hkept.subset hmem⟩

/-- A used reader gives what a new one gives exactly if no call has left anything behind. -/
theorem result_afterAll_iff (root : Option String) (calls : List Call) :
    (∀ call, ((new root).afterAll K calls).result K call = (new root).result K call) ↔
      ∀ call ∈ calls, call.LeavesNothing := by
  constructor
  · intro hsame
    rcases afterAll_new (K := K) root calls with ⟨hall, -⟩ | ⟨call, -, -, place, hresolve, hseen⟩
    · exact hall
    · -- The call that left its file on the trail, made once more, tells the readers apart.
      exact absurd ((hsame call).symm.trans (result_of_mem_trail hresolve hseen)) result_new_ne
  · intro hall call
    rcases afterAll_new (K := K) root calls with ⟨-, hafter⟩ | ⟨other, hother, hleaves, -⟩
    · rw [hafter]
    · exact absurd (hall other hother) hleaves

end Calls

end GeometrySource

/-! ### Materials -/

namespace MaterialLibrary

open Material

/-- The materials of a document are inserted whatever there is already, up to the same fault. -/
theorem exists_materials (document : String) :
    ∃ (materials : List Material) (fault : Option MaterialFault), ∀ library : MaterialLibrary,
      library.addDocument document = (materials.foldl insert library, fault) := by
  obtain ⟨tags, htags⟩ : ∃ tags, ∀ library : MaterialLibrary,
      library.addDocument document = library.addTags tags := ⟨_, fun _ => rfl⟩
  by_cases hno : ∃ tag ∈ tags, ∀ id, ¬ HasId tag id
  · obtain ⟨before, tag, after, materials, fault, rfl, hall, hfault⟩ := exists_first_faulty hno
    refine ⟨materials, some fault, fun library => ?_⟩
    rw [htags, addTags_append hall, addTags_faulty hfault]
  · obtain ⟨materials, hall⟩ := exists_describes (by simpa using hno)
    refine ⟨materials, none, fun library => ?_⟩
    rw [htags, ← List.append_nil tags, addTags_append hall, addTags]

theorem insert_ne_empty (library : MaterialLibrary) (material : Material) :
    library.insert material ≠ empty := by
  intro h
  have hfound : (library.insert material).find? material.name = some material := by
    rw [insert, find?, Table.find?_insert, if_pos rfl]
  rw [h] at hfound
  simp [find?, empty] at hfound

/-- No library loses its last material by an insertion. -/
theorem foldl_insert_eq_empty_iff {library : MaterialLibrary} {materials : List Material} :
    materials.foldl insert library = empty ↔ materials = [] ∧ library = empty := by
  induction materials using List.reverseRecOn with
  | nil => simp
  | append_singleton materials material _ =>
    rw [List.foldl_append, List.foldl_cons, List.foldl_nil]
    simp [insert_ne_empty]

/-- One use of a reader of materials. -/
structure Call where
  disk : Disk
  path : Path

/-- The file can be read, and all of its materials too. -/
def Call.Succeeds (call : Call) : Prop :=
  ∃ document, call.disk.readText call.path = .ok document ∧ (empty.addDocument document).2 = none

/-- The file can be read, and some of its materials, but not all. -/
def Call.StopsBetween (call : Call) : Prop :=
  ∃ document, call.disk.readText call.path = .ok document ∧
    (empty.addDocument document).2 ≠ none ∧ (empty.addDocument document).1 ≠ empty

/-- What a reader that holds some materials gives. -/
def result (library : MaterialLibrary) (call : Call) : Except FileFault MaterialLibrary :=
  (library.readFrom call.disk call.path).2

/-- What the reader holds after one use. -/
def after (library : MaterialLibrary) (call : Call) : MaterialLibrary :=
  (library.readFrom call.disk call.path).1

/-- What the reader holds after several uses. -/
def afterAll (library : MaterialLibrary) (calls : List Call) : MaterialLibrary :=
  calls.foldl after library

/-- After every call that stopped between materials there is one that succeeded. -/
def Settled (calls : List Call) : Prop :=
  ∀ before call later, calls = before ++ call :: later → call.StopsBetween →
    ∃ other ∈ later, other.Succeeds

variable {call : Call}

theorem Call.Succeeds.not_stopsBetween (h : call.Succeeds) : ¬ call.StopsBetween := by
  obtain ⟨document, hread, hall⟩ := h
  rintro ⟨other, hread', hstop, -⟩
  obtain rfl : document = other := Except.ok.inj (hread.symm.trans hread')
  exact hstop hall

/-- A reader holds nothing after a success, and loses nothing otherwise. -/
theorem after_eq_empty_iff (library : MaterialLibrary) (call : Call) :
    library.after call = empty ↔ call.Succeeds ∨ ¬ call.StopsBetween ∧ library = empty := by
  unfold after readFrom Call.Succeeds Call.StopsBetween
  cases hread : call.disk.readText call.path with
  | error cause => simp
  | ok document =>
    obtain ⟨materials, fault, hadd⟩ := exists_materials document
    cases fault with
    | none => simp [hadd]
    | some fault => simp [hadd, foldl_insert_eq_empty_iff]

theorem settled_append_singleton {calls : List Call} :
    Settled (calls ++ [call]) ↔ call.Succeeds ∨ ¬ call.StopsBetween ∧ Settled calls := by
  constructor
  · intro h
    by_cases hsucceeds : call.Succeeds
    · exact .inl hsucceeds
    · refine .inr ⟨fun hstops => ?_, fun before other later hsplit hstops => ?_⟩
      · obtain ⟨next, hnext, -⟩ := h calls call [] rfl hstops
        exact absurd hnext List.not_mem_nil
      · obtain ⟨next, hnext, hdone⟩ := h before other (later ++ [call]) (by simp [hsplit]) hstops
        rcases List.mem_append.1 hnext with hnext | hlast
        · exact ⟨next, hnext, hdone⟩
        · exact absurd (List.mem_singleton.1 hlast ▸ hdone) hsucceeds
  · intro h before other later hsplit hstops
    -- The last call is the one that stops between materials, or it comes later.
    rcases List.eq_nil_or_concat later with rfl | ⟨later, last, rfl⟩
    · obtain ⟨-, hlast⟩ := List.append_inj' hsplit rfl
      obtain rfl : call = other := by simpa using hlast
      rcases h with hsucceeds | ⟨hno, -⟩
      · exact absurd hstops hsucceeds.not_stopsBetween
      · exact absurd hstops hno
    · rw [List.concat_eq_append, ← List.cons_append, ← List.append_assoc] at hsplit
      obtain ⟨rfl, hlast⟩ := List.append_inj' hsplit rfl
      obtain rfl : call = last := by simpa using hlast
      rcases h with hsucceeds | ⟨-, hsettled⟩
      · exact ⟨call, by simp, hsucceeds⟩
      · obtain ⟨next, hnext, hdone⟩ := hsettled before other later rfl hstops
        exact ⟨next, by simp [hnext], hdone⟩

/-- A reader holds nothing exactly if what calls have left in it has been given away. -/
theorem afterAll_empty_iff (calls : List Call) : empty.afterAll calls = empty ↔ Settled calls := by
  induction calls using List.reverseRecOn with
  | nil => exact iff_of_true rfl fun before call later h => by simp at h
  | append_singleton calls call ih =>
    rw [settled_append_singleton, ← ih, ← after_eq_empty_iff, afterAll, List.foldl_append]
    rfl

/-- A file without materials. -/
def blankCall : Call := ⟨(Disk.empty []).addFile ["blank"] "".toUTF8, ⟨"blank"⟩⟩

theorem result_blankCall (library : MaterialLibrary) : library.result blankCall = .ok library := by
  have hread : (blankCall.disk.readText blankCall.path).toOption = some "" := by decide +kernel
  unfold result readFrom
  cases hdocument : blankCall.disk.readText blankCall.path with
  | error cause => simp [hdocument, Except.toOption] at hread
  | ok document =>
    obtain rfl : document = "" := by simpa [hdocument, Except.toOption] using hread
    rfl

/-- A used reader gives what a new one gives exactly if it holds nothing. -/
theorem result_eq_iff (library : MaterialLibrary) :
    (∀ call, library.result call = empty.result call) ↔ library = empty := by
  constructor
  · intro hsame
    have hblank := hsame blankCall
    rw [result_blankCall, result_blankCall] at hblank
    exact Except.ok.inj hblank
  · rintro rfl _
    rfl

end MaterialLibrary

/-! ### Both readers -/

/-- A reader of geometries gives what a new one gives exactly if every earlier call collected its
    lines or found nothing at its path. A reader of materials does so exactly if every earlier call
    that stopped between materials was followed by one that succeeded. -/
theorem used_as_new_iff {K : Type} [Scalar K] (root : Option String)
    (calls : List GeometrySource.Call) (documents : List MaterialLibrary.Call) :
    ((∀ call, ((GeometrySource.new root).afterAll K calls).result K call =
        (GeometrySource.new root).result K call) ↔
      ∀ call ∈ calls, call.Collects ∨ call.disk.HasNothing call.path) ∧
    ((∀ call, (MaterialLibrary.empty.afterAll documents).result call =
        MaterialLibrary.empty.result call) ↔
      ∀ before call later, documents = before ++ call :: later → call.StopsBetween →
        ∃ other ∈ later, other.Succeeds) :=
  ⟨GeometrySource.result_afterAll_iff root calls,
    (MaterialLibrary.result_eq_iff _).trans (MaterialLibrary.afterAll_empty_iff documents)⟩

/-- Files with a fault behind a surface and behind a material, and files without faults. -/
def brokenDisk : Disk :=
  ((((Disk.empty []).addFile ["broken"] "surf s sph 0 0 0 1\ninclude gone\n".toUTF8).addFile
    ["sound"] "surf s sph 0 0 0 1\ncell a 0 void -s\n".toUTF8).addFile
    ["broken.xml"] "<material id='1' name='fuel'><material>".toUTF8).addFile
    ["sound.xml"] "<material id='2' name='water'>".toUTF8

/-- What was read of a broken file is read again with a sound one. -/
theorem broken_file_stays :
    (((GeometrySource.new none).result Float
        ⟨brokenDisk, ⟨"sound"⟩, .empty⟩).toOption.isSome = true ∧
      ((((GeometrySource.new none).afterAll Float [⟨brokenDisk, ⟨"broken"⟩, .empty⟩]).result Float
        ⟨brokenDisk, ⟨"sound"⟩, .empty⟩).mapError FileFault.messages).map (fun _ => ()) =
        .error ["Failed to translate sound",
          "line 2: surface \"s\" is declared more than once",
          "surface \"s\" is declared more than once"]) ∧
    (MaterialLibrary.empty.result ⟨brokenDisk, ⟨"sound.xml"⟩⟩).toOption.map (·.materials) =
      some [⟨2, "water"⟩] ∧
    ((MaterialLibrary.empty.afterAll [⟨brokenDisk, ⟨"broken.xml"⟩⟩]).result
      ⟨brokenDisk, ⟨"sound.xml"⟩⟩).toOption.map (·.materials) =
      some [⟨1, "fuel"⟩, ⟨2, "water"⟩] := by
  refine ⟨⟨?_, ?_⟩, ?_, ?_⟩ <;> decide +kernel

end SerpentCsg
