import Mathlib.Data.List.Forall2
import Mathlib.Data.List.Induction
import SerpentCsg.Proofs.Input.Tags
import SerpentCsg.Proofs.Table

/-! # The Materials of a Document

  What the attributes of a tag say about a material, without a reader: `HasId` and `HasName`
  look at the first attribute of a key. A tag describes a material exactly if it has a number, and
  is faulty if it has none, in one way or the other.

  - the materials of a document are inserted in the order of its tags, up to the first faulty tag;
  - a name comes in the library where it came first, with the last of its materials.
-/

namespace SerpentCsg

open Text

namespace Material

/-! ### What a tag says -/

/-- The first value of a key. -/
def First (attributes : Tag.Attributes) (key value : String) : Prop :=
  ∃ before after, attributes = before ++ (key, value) :: after ∧ ∀ entry ∈ before, entry.1 ≠ key

/-- The key does not occur. -/
def Lacks (attributes : Tag.Attributes) (key : String) : Prop := ∀ entry ∈ attributes, entry.1 ≠ key

/-- The digits of a number, with or without a plus sign. -/
def Spells (word : List Char) (n : Nat) : Prop :=
  ∃ sign digits, word = sign ++ digits ∧ (sign = [] ∨ sign = ['+']) ∧ digits ≠ [] ∧
    (∀ c ∈ digits, isDigit c = true) ∧ digitsValue digits = n

/-- The number of the material. -/
def HasId (attributes : Tag.Attributes) (id : Nat) : Prop :=
  ∃ text, First attributes "id" text ∧ Spells (trim text.toList) id ∧ id ≤ max32

/-- The name of the material, which is its number where no name is given. -/
inductive HasName (attributes : Tag.Attributes) (id : Nat) : String → Prop where
  | given {text : String} : First attributes "name" text → trim text.toList ≠ [] →
      HasName attributes id (String.ofList (trim text.toList))
  | blank {text : String} : First attributes "name" text → trim text.toList = [] →
      HasName attributes id id.repr
  | absent : Lacks attributes "name" → HasName attributes id id.repr

/-- The tag describes a material. -/
structure Describes (attributes : Tag.Attributes) (material : Material) : Prop where
  id : HasId attributes material.id
  name : HasName attributes material.id material.name

/-- What is wrong with a tag. -/
inductive Faulty (attributes : Tag.Attributes) : MaterialFault → Prop where
  | noId : Lacks attributes "id" → Faulty attributes .noId
  | unreadableId {text : String} : First attributes "id" text →
      (∀ id, Spells (trim text.toList) id → max32 < id) →
      Faulty attributes (.unreadableId text)

/-! ### What is read from it -/

theorem value?_eq_some_iff {attributes : Tag.Attributes} {key value : String} :
    Tag.value? attributes key = some value ↔ First attributes key value := by
  simp only [Tag.value?, Option.map_eq_some_iff, List.find?_eq_some_iff_append, First]
  constructor
  · rintro ⟨entry, ⟨hkey, before, after, rfl, hbefore⟩, rfl⟩
    obtain rfl : entry.1 = key := by simpa using hkey
    exact ⟨before, after, rfl, by simpa using hbefore⟩
  · rintro ⟨before, after, rfl, hbefore⟩
    exact ⟨(key, value), ⟨by simp, before, after, rfl, by simpa using hbefore⟩, rfl⟩

theorem value?_eq_none_iff {attributes : Tag.Attributes} {key : String} :
    Tag.value? attributes key = none ↔ Lacks attributes key := by
  simp [Tag.value?, Lacks]

theorem natural?_max32_iff {word : List Char} {n : Nat} :
    natural? max32 word = some n ↔ Spells word n ∧ n ≤ max32 := by
  simp only [natural?_eq_some_iff, boundedDigits?_eq_some_iff, Spells]
  constructor
  · rintro ⟨sign, digits, hword, hsign, hne, hdigits, hvalue, hle⟩
    exact ⟨⟨sign, digits, hword, hsign, hne, hdigits, hvalue⟩, hle⟩
  · rintro ⟨⟨sign, digits, hword, hsign, hne, hdigits, hvalue⟩, hle⟩
    exact ⟨sign, digits, hword, hsign, hne, hdigits, hvalue, hle⟩

theorem hasId_iff {attributes : Tag.Attributes} {id : Nat} :
    HasId attributes id ↔
      ((Tag.value? attributes "id").bind fun text => natural? max32 (trim text.toList)) =
        some id := by
  simp only [Option.bind_eq_some_iff, value?_eq_some_iff, natural?_max32_iff, HasId]

instance decidableHasId (attributes : Tag.Attributes) (id : Nat) :
    Decidable (HasId attributes id) :=
  decidable_of_iff _ hasId_iff.symm

/-- A tag that describes a material is read as that material. -/
theorem ofTag_of_describes {attributes : Tag.Attributes} {material : Material}
    (h : Describes attributes material) : ofTag attributes = .ok material := by
  obtain ⟨id, name⟩ := material
  obtain ⟨⟨text, htext, hspells, hle⟩, hname⟩ := h
  dsimp only at hspells hle hname
  simp only [ofTag, value?_eq_some_iff.2 htext, natural?_max32_iff.2 ⟨hspells, hle⟩]
  cases hname with
  | given hgiven hne => simp [value?_eq_some_iff.2 hgiven, hne]
  | blank hgiven hblank => simp [value?_eq_some_iff.2 hgiven, hblank]
  | absent hlacks =>
    rw [value?_eq_none_iff.2 hlacks]
    rfl

/-- The fault of a tag is found. -/
theorem ofTag_of_faulty {attributes : Tag.Attributes} {fault : MaterialFault}
    (h : Faulty attributes fault) : ofTag attributes = .error fault := by
  cases h with
  | noId hlacks => simp only [ofTag, value?_eq_none_iff.2 hlacks]
  | unreadableId htext hspells =>
    have hnone : natural? max32 (trim _) = none := Option.eq_none_iff_forall_ne_some.2 fun id hid =>
      have ⟨hread, hle⟩ := natural?_max32_iff.1 hid
      absurd (hspells id hread) (Nat.not_lt.2 hle)
    simp only [ofTag, value?_eq_some_iff.2 htext, hnone]

theorem exists_hasName (attributes : Tag.Attributes) (id : Nat) :
    ∃ name, HasName attributes id name := by
  cases hvalue : Tag.value? attributes "name" with
  | none => exact ⟨_, .absent (value?_eq_none_iff.1 hvalue)⟩
  | some text =>
    have htext := value?_eq_some_iff.1 hvalue
    by_cases hblank : trim text.toList = []
    · exact ⟨_, .blank htext hblank⟩
    · exact ⟨_, .given htext hblank⟩

/-- A number is all that a tag needs. -/
theorem HasId.exists_describes {attributes : Tag.Attributes} {id : Nat} (h : HasId attributes id) :
    ∃ material, Describes attributes material := by
  obtain ⟨name, hname⟩ := exists_hasName attributes id
  exact ⟨⟨id, name⟩, h, hname⟩

/-- Without a number a tag is faulty. -/
theorem exists_faulty {attributes : Tag.Attributes} (h : ∀ id, ¬ HasId attributes id) :
    ∃ fault, Faulty attributes fault := by
  cases hvalue : Tag.value? attributes "id" with
  | none => exact ⟨_, .noId (value?_eq_none_iff.1 hvalue)⟩
  | some text =>
    have htext := value?_eq_some_iff.1 hvalue
    refine ⟨_, .unreadableId htext fun id hspells => Nat.lt_of_not_le fun hle => ?_⟩
    exact h id ⟨text, htext, hspells, hle⟩

end Material

namespace MaterialLibrary

open Material

/-! ### The order of insertion -/

theorem ofList_append_singleton (materials : List Material) (material : Material) :
    ofList (materials ++ [material]) = (ofList materials).insert material := by
  rw [ofList, List.foldl_append]
  rfl

theorem eraseDups_append_singleton (names : List String) (name : String) :
    (names ++ [name]).eraseDups =
      if name ∈ names then names.eraseDups else names.eraseDups ++ [name] := by
  rw [List.eraseDups_append]
  by_cases hmem : name ∈ names
  · simp [List.removeAll, hmem]
  · simp [List.removeAll, hmem, List.eraseDups_cons]

/-- Names come in the order in which they came first. -/
theorem keys_ofList (materials : List Material) :
    (ofList materials).table.keys = (materials.map (·.name)).eraseDups := by
  induction materials using List.reverseRecOn with
  | nil => rfl
  | append_singleton materials material ih =>
    have hpresent : (ofList materials).table.contains material.name = true ↔
        material.name ∈ materials.map (·.name) := by
      rw [← Table.mem_keys_iff, ih, List.mem_eraseDups]
    rw [ofList_append_singleton, insert, Table.keys_insert, ih, List.map_append, List.map_singleton,
      eraseDups_append_singleton]
    simp only [hpresent]

/-- The last material of a name is the one that stays. -/
theorem find?_ofList (materials : List Material) (name : String) :
    (ofList materials).find? name = (materials.filter (·.name == name)).getLast? := by
  induction materials using List.reverseRecOn with
  | nil => rfl
  | append_singleton materials material ih =>
    rw [ofList_append_singleton, insert, find?, Table.find?_insert, List.filter_append]
    by_cases hname : material.name = name
    · simp [hname]
    · rw [if_neg hname, ← find?, ih]
      simp [hname]

/-! ### Documents -/

variable {tags : List Tag.Attributes} {materials : List Material}

/-- Tags are read one after another, each into the library that the others left. -/
theorem addTags_append (h : List.Forall₂ Describes tags materials) (library : MaterialLibrary)
    (others : List Tag.Attributes) :
    library.addTags (tags ++ others) = (materials.foldl insert library).addTags others := by
  induction h generalizing library with
  | nil => rfl
  | cons hfirst _ ih =>
    rw [List.cons_append, addTags, ofTag_of_describes hfirst]
    exact ih _

/-- Reading stops at a faulty tag. -/
theorem addTags_faulty {tag : Tag.Attributes} {fault : MaterialFault} (h : Faulty tag fault)
    (library : MaterialLibrary) (others : List Tag.Attributes) :
    library.addTags (tag :: others) = (library, some fault) := by
  rw [addTags, ofTag_of_faulty h]

theorem exists_describes (h : ∀ tag ∈ tags, ∃ id, HasId tag id) :
    ∃ materials, List.Forall₂ Describes tags materials := by
  induction tags with
  | nil => exact ⟨[], .nil⟩
  | cons tag tags ih =>
    obtain ⟨⟨id, hid⟩, hrest⟩ := List.forall_mem_cons.1 h
    obtain ⟨material, hdescribes⟩ := hid.exists_describes
    obtain ⟨materials, hall⟩ := ih hrest
    exact ⟨material :: materials, .cons hdescribes hall⟩

/-- Among tags one of which has no number, there is a first that is faulty. -/
theorem exists_first_faulty (h : ∃ tag ∈ tags, ∀ id, ¬ HasId tag id) :
    ∃ before tag after materials fault, tags = before ++ tag :: after ∧
      List.Forall₂ Describes before materials ∧ Faulty tag fault := by
  induction tags with
  | nil => simp at h
  | cons first tags ih =>
    by_cases hid : ∃ id, HasId first id
    · obtain ⟨id, hid⟩ := hid
      obtain ⟨material, hdescribes⟩ := hid.exists_describes
      -- The tag without a number is another one.
      have hrest : ∃ tag ∈ tags, ∀ id, ¬ HasId tag id := by
        obtain ⟨tag, htag, hno⟩ := h
        rcases List.mem_cons.1 htag with rfl | htag
        · exact absurd hid (hno id)
        · exact ⟨tag, htag, hno⟩
      obtain ⟨before, tag, after, materials, fault, rfl, hall, hfault⟩ := ih hrest
      exact ⟨first :: before, tag, after, _, fault, rfl, .cons hdescribes hall, hfault⟩
    · obtain ⟨fault, hfault⟩ := exists_faulty (not_exists.1 hid)
      exact ⟨[], first, tags, [], fault, rfl, .nil, hfault⟩

/-- Every material of a document is read. If every tag has a number, the materials that the tags
    describe are inserted in order, so each name keeps its first place and its last material. If
    some tag has no number, the first such tag is reported, after the materials before it. -/
theorem addDocument_reads (tags : List Tag.Attributes) (document : String)
    (h : Tag.DocumentText "material" tags document.toList) :
    ((∀ tag ∈ tags, ∃ id, HasId tag id) →
      ∃ materials, List.Forall₂ Describes tags materials ∧
        (∀ library : MaterialLibrary,
          library.addDocument document = (materials.foldl insert library, none)) ∧
        (ofList materials).table.keys = (materials.map (·.name)).eraseDups ∧
        ∀ name, (ofList materials).find? name = (materials.filter (·.name == name)).getLast?) ∧
    ((∃ tag ∈ tags, ∀ id, ¬ HasId tag id) →
      ∃ before tag after materials fault, tags = before ++ tag :: after ∧
        List.Forall₂ Describes before materials ∧ Faulty tag fault ∧
        ∀ library : MaterialLibrary,
          library.addDocument document = (materials.foldl insert library, some fault)) := by
  have hread : ∀ library : MaterialLibrary, library.addDocument document = library.addTags tags :=
    fun library => by rw [addDocument, h.startTags (by decide) (Nat.le_refl _)]
  constructor
  · intro hids
    obtain ⟨materials, hall⟩ := exists_describes hids
    refine ⟨materials, hall, fun library => ?_, keys_ofList materials, find?_ofList materials⟩
    rw [hread, ← List.append_nil tags, addTags_append hall, addTags]
  · intro hno
    obtain ⟨before, tag, after, materials, fault, rfl, hall, hfault⟩ := exists_first_faulty hno
    refine ⟨before, tag, after, materials, fault, rfl, hall, hfault, fun library => ?_⟩
    rw [hread, addTags_append hall, addTags_faulty hfault]

/-- Two tags of one name, with layout, quotes, brackets and tags in the values. -/
private def sharedName : List Tag.Attributes :=
  [[("id", " 7"), ("name", "a > b")], [("type", "<material>"), ("name", " a > b "), ("id", "+2")]]

private def sharedNameText : String :=
  "<materials><material id=' 7' name=\"a > b\"> " ++
    "<material\ttype = '<material>'name=' a > b ' id=\"+2\" />"

private theorem documentText_sharedName :
    Tag.DocumentText "material" sharedName sharedNameText.toList := by
  have htext : sharedNameText.toList = "<materials>".toList ++
      ((Tag.opening "material" ++ (" id=' 7' name=\"a > b\"".toList ++ ([] ++ ['>']))) ++
        (" ".toList ++ ((Tag.opening "material" ++
          ("\ttype = '<material>'name=' a > b ' id=\"+2\"".toList ++ ([' '] ++ ['/', '>']))) ++
            []))) := by
    decide +kernel
  rw [htext]
  refine .tag (by decide +kernel) (.tag (by decide +kernel) (by decide +kernel) ?_)
    (.tag (by decide +kernel) (.tag (by decide +kernel) (by decide +kernel) ?_)
      (.text (by decide +kernel)))
  · exact .tagEnd (by decide) (.inl rfl)
  · exact .tagEnd (by decide) (.inr rfl)

/-- A tag without a number. -/
private def unnumbered : List Tag.Attributes := [[("name", "fuel")]]

private theorem documentText_unnumbered :
    Tag.DocumentText "material" unnumbered "<material name='fuel'>".toList := by
  have htext : "<material name='fuel'>".toList =
      [] ++ ((Tag.opening "material" ++ (" name='fuel'".toList ++ ([] ++ ['>']))) ++ []) := by
    decide +kernel
  rw [htext]
  refine .tag (by decide +kernel) (.tag (by decide +kernel) (by decide +kernel) ?_)
    (.text (by decide +kernel))
  exact .tagEnd (by decide) (.inl rfl)

theorem addDocument_reads_sharedName :
    (Tag.DocumentText "material" sharedName sharedNameText.toList ∧
      (∀ tag ∈ sharedName, ∃ id, HasId tag id) ∧
      ∃ materials, List.Forall₂ Describes sharedName materials ∧
        (∀ library : MaterialLibrary,
          library.addDocument sharedNameText = (materials.foldl insert library, none)) ∧
        (ofList materials).table.keys = (materials.map (·.name)).eraseDups ∧
        ∀ name, (ofList materials).find? name = (materials.filter (·.name == name)).getLast?) ∧
    Tag.DocumentText "material" unnumbered "<material name='fuel'>".toList ∧
      (∃ tag ∈ unnumbered, ∀ id, ¬ HasId tag id) ∧
      ∃ before tag after materials fault, unnumbered = before ++ tag :: after ∧
        List.Forall₂ Describes before materials ∧ Faulty tag fault ∧
        ∀ library : MaterialLibrary, library.addDocument "<material name='fuel'>" =
          (materials.foldl insert library, some fault) := by
  have hids : ∀ tag ∈ sharedName, ∃ id, HasId tag id := by
    refine List.forall_mem_cons.2 ⟨⟨7, by decide +kernel⟩, List.forall_mem_cons.2 ⟨⟨2, ?_⟩, by simp⟩⟩
    decide +kernel
  have hno : ∃ tag ∈ unnumbered, ∀ id, ¬ HasId tag id :=
    ⟨_, List.mem_singleton_self _, fun id hid => by simp [hasId_iff, Tag.value?] at hid⟩
  exact ⟨⟨documentText_sharedName, hids,
      (addDocument_reads sharedName sharedNameText documentText_sharedName).1 hids⟩,
    documentText_unnumbered, hno, (addDocument_reads unnumbered _ documentText_unnumbered).2 hno⟩

end MaterialLibrary

end SerpentCsg
