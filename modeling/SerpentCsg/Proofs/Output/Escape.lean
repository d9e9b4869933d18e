import SerpentCsg.Output.Xml
import SerpentCsg.Proofs.Text.Reading

/-! # Names in Attribute Values

  Names can contain the characters that attribute values cannot, and can look like the entities that
  stand for them. Four replacements, one after another, make an attribute value of a name. The
  ampersand is replaced first: all later replacements find only what the name had itself, as no
  entity holds a reserved character but the ampersand in front. So the four together replace each
  character of the name by itself.

  An attribute value is decoded from left to right, and gives the name back. Elements of the document
  that are the same are therefore those of things with the same name.
-/

namespace SerpentCsg.Output

open Text (append_cons_inj isDigit_of_mem_repr)

/-! ### Entities -/

/-- The reserved characters with their entities, in the order in which they are replaced. -/
def entities : List (Char × String) :=
  [('&', "&amp;"), ('<', "&lt;"), ('>', "&gt;"), ('"', "&quot;")]

/-- The character stands for itself in an attribute value. -/
def IsPlain (c : Char) : Prop := ∀ entry ∈ entities, c ≠ entry.1

theorem isPlain_iff {c : Char} : IsPlain c ↔ c ≠ '&' ∧ c ≠ '<' ∧ c ≠ '>' ∧ c ≠ '"' := by
  simp [IsPlain, entities]

/-- A character is written as its entity, or as it is if it has none. -/
theorem escapeChar_cases (c : Char) :
    (∃ entity, (c, entity) ∈ entities ∧ escapeChar c = entity.toList) ∨
    (IsPlain c ∧ escapeChar c = [c]) := by
  unfold escapeChar
  split
  · next h => exact .inl ⟨_, by simp [entities, eq_of_beq h], rfl⟩
  split
  · next h => exact .inl ⟨_, by simp [entities, eq_of_beq h], rfl⟩
  split
  · next h => exact .inl ⟨_, by simp [entities, eq_of_beq h], rfl⟩
  split
  · next h => exact .inl ⟨_, by simp [entities, eq_of_beq h], rfl⟩
  · next hamp hlt hgt hquot =>
    rw [beq_iff_eq] at hamp hlt hgt hquot
    exact .inr ⟨isPlain_iff.2 ⟨hamp, hlt, hgt, hquot⟩, rfl⟩

/-- An entity begins with an ampersand, and all behind it is plain. -/
theorem entity_eq {c : Char} {entity : String} (h : (c, entity) ∈ entities) :
    ∃ name, entity.toList = '&' :: name ∧ ∀ d ∈ name, IsPlain d := by
  simp only [entities, List.mem_cons, Prod.mk.injEq, List.not_mem_nil, or_false] at h
  obtain ⟨-, rfl⟩ | ⟨-, rfl⟩ | ⟨-, rfl⟩ | ⟨-, rfl⟩ := h
  · exact ⟨['a', 'm', 'p', ';'], rfl, by simp [isPlain_iff]⟩
  · exact ⟨['l', 't', ';'], rfl, by simp [isPlain_iff]⟩
  · exact ⟨['g', 't', ';'], rfl, by simp [isPlain_iff]⟩
  · exact ⟨['q', 'u', 'o', 't', ';'], rfl, by simp [isPlain_iff]⟩

theorem escape_cons (c : Char) (text : List Char) :
    escape (c :: text) = escapeChar c ++ escape text := List.flatMap_cons

/-! ### Replacements -/

/-- A text with an entity for every occurrence of a character. -/
def replaceAll (c : Char) (entity : String) (text : List Char) : List Char :=
  text.flatMap fun d => if d == c then entity.toList else [d]

/-- A text with all reserved characters replaced, one after another. -/
def replaceReserved (text : List Char) : List Char :=
  entities.foldl (fun text entry => replaceAll entry.1 entry.2 text) text

theorem replaceAll_append (c : Char) (entity : String) (s t : List Char) :
    replaceAll c entity (s ++ t) = replaceAll c entity s ++ replaceAll c entity t :=
  List.flatMap_append

theorem replaceReserved_append (s t : List Char) :
    replaceReserved (s ++ t) = replaceReserved s ++ replaceReserved t := by
  simp only [replaceReserved, entities, List.foldl_cons, List.foldl_nil, replaceAll_append]

theorem replaceAll_singleton_of_ne {c d : Char} (h : d ≠ c) (entity : String) :
    replaceAll c entity [d] = [d] := by
  simp [replaceAll, h]

theorem replaceReserved_singleton (c : Char) : replaceReserved [c] = escapeChar c := by
  rcases escapeChar_cases c with ⟨entity, hentity, hescape⟩ | ⟨hplain, hescape⟩
  · rw [hescape]
    simp only [entities, List.mem_cons, Prod.mk.injEq, List.not_mem_nil, or_false] at hentity
    obtain ⟨rfl, rfl⟩ | ⟨rfl, rfl⟩ | ⟨rfl, rfl⟩ | ⟨rfl, rfl⟩ := hentity
    all_goals rfl
  · obtain ⟨hamp, hlt, hgt, hquot⟩ := isPlain_iff.1 hplain
    simp only [replaceReserved, entities, List.foldl_cons, List.foldl_nil]
    rw [replaceAll_singleton_of_ne hamp, replaceAll_singleton_of_ne hlt,
      replaceAll_singleton_of_ne hgt, replaceAll_singleton_of_ne hquot, hescape]

/-- The replacements one after another do the same as one pass. -/
theorem replaceReserved_eq (text : List Char) : replaceReserved text = escape text := by
  induction text with
  | nil => rfl
  | cons c text ih =>
    rw [← List.singleton_append, replaceReserved_append, replaceReserved_singleton, ih,
      List.singleton_append, escape_cons]

/-! ### What is written -/

/-- No character that would end an attribute value or open a tag is written. -/
theorem ne_of_mem_escape {text : List Char} {c : Char} (h : c ∈ escape text) :
    c ≠ '<' ∧ c ≠ '>' ∧ c ≠ '"' := by
  obtain ⟨d, -, hc⟩ := List.mem_flatMap.1 h
  rcases escapeChar_cases d with ⟨entity, hentity, hescape⟩ | ⟨hd, hescape⟩
  · obtain ⟨name, hname, hall⟩ := entity_eq hentity
    rw [hescape, hname] at hc
    rcases List.mem_cons.1 hc with rfl | hc
    · decide
    · exact (isPlain_iff.1 (hall c hc)).2
  · rw [hescape, List.mem_singleton] at hc
    exact (isPlain_iff.1 (hc ▸ hd)).2

/-- In a text with an ampersand at its front only, that is the one that a suffix begins with. -/
theorem suffix_append_of_plain {name text rest : List Char} (hname : ∀ d ∈ name, IsPlain d)
    (h : '&' :: rest <:+ name ++ text) : '&' :: rest <:+ text := by
  induction name with
  | nil => exact h
  | cons d name ih =>
    rw [List.forall_mem_cons] at hname
    rcases List.suffix_cons_iff.1 h with heq | hsuffix
    · exact absurd (List.cons.inj heq).1.symm (isPlain_iff.1 hname.1).1
    · exact ih hname.2 hsuffix

/-- Wherever an ampersand is written, an entity begins. -/
theorem entity_of_suffix_escape {text rest : List Char} (h : '&' :: rest <:+ escape text) :
    ∃ entry ∈ entities, entry.2.toList <+: '&' :: rest := by
  induction text with
  | nil => exact absurd (List.suffix_nil.1 h) (List.cons_ne_nil _ _)
  | cons c text ih =>
    rw [escape_cons] at h
    rcases escapeChar_cases c with ⟨entity, hentity, hescape⟩ | ⟨hplain, hescape⟩
    · obtain ⟨name, hname, hall⟩ := entity_eq hentity
      rw [hescape, hname, List.cons_append] at h
      rcases List.suffix_cons_iff.1 h with heq | hsuffix
      · refine ⟨_, hentity, ?_⟩
        rw [heq, ← List.cons_append, ← hname]
        exact List.prefix_append _ _
      · exact ih (suffix_append_of_plain hall hsuffix)
    · rw [hescape] at h
      refine ih (suffix_append_of_plain (fun d hd => ?_) h)
      rwa [List.mem_singleton.1 hd]

/-! ### Decoding -/

/-- The text of an attribute value, from left to right: where an entity stands, it is the character
    of the entity, and elsewhere the character that stands there. -/
def decode : List Char → List Char
  | '&' :: 'a' :: 'm' :: 'p' :: ';' :: rest => '&' :: decode rest
  | '&' :: 'l' :: 't' :: ';' :: rest => '<' :: decode rest
  | '&' :: 'g' :: 't' :: ';' :: rest => '>' :: decode rest
  | '&' :: 'q' :: 'u' :: 'o' :: 't' :: ';' :: rest => '"' :: decode rest
  | c :: rest => c :: decode rest
  | [] => []

theorem decode_entity {c : Char} {entity : String} (h : (c, entity) ∈ entities)
    (rest : List Char) : decode (entity.toList ++ rest) = c :: decode rest := by
  simp only [entities, List.mem_cons, Prod.mk.injEq, List.not_mem_nil, or_false] at h
  obtain ⟨rfl, rfl⟩ | ⟨rfl, rfl⟩ | ⟨rfl, rfl⟩ | ⟨rfl, rfl⟩ := h
  all_goals rfl

theorem decode_cons {c : Char} (h : c ≠ '&') (rest : List Char) :
    decode (c :: rest) = c :: decode rest := by
  rw [decode.eq_def]
  split <;> simp_all

theorem decode_escape (text : List Char) : decode (escape text) = text := by
  induction text with
  | nil => rfl
  | cons c text ih =>
    rw [escape_cons]
    rcases escapeChar_cases c with ⟨entity, hentity, hescape⟩ | ⟨hplain, hescape⟩
    · rw [hescape, decode_entity hentity, ih]
    · rw [hescape, List.singleton_append, decode_cons (isPlain_iff.1 hplain).1, ih]

theorem nameText_injective : Function.Injective nameText := by
  intro name other h
  have hescape : escape name.toList = escape other.toList := by
    simpa [nameText] using congrArg String.toList h
  rw [← String.toList_inj, ← decode_escape name.toList, hescape, decode_escape]

/-! ### Elements -/

/-- The attributes begin with a number and a name. -/
def NamedAttributes (name : String) (attributes : List (String × String)) : Prop :=
  ∃ (id : Nat) (others : List (String × String)),
    attributes = ("id", id.repr) :: ("name", nameText name) :: others

/-- The characters of an element up to the quote behind the name. -/
theorem NamedAttributes.toList_eq {name : String} {attributes : List (String × String)}
    (h : NamedAttributes name attributes) (front back : String) :
    ∃ (id : Nat) (rest : List Char), (front ++ attributesText attributes ++ back).toList =
      front.toList ++ "id=\"".toList ++ (id.repr.toList ++ '"' ::
        (" name=\"".toList ++ ((nameText name).toList ++ '"' :: rest))) := by
  obtain ⟨id, others, rfl⟩ := h
  cases others with
  | nil =>
    refine ⟨id, back.toList, ?_⟩
    simp only [attributesText, attributeText, List.map_cons, List.map_nil,
      String.intercalate_cons_cons, String.intercalate_singleton, String.toList_append,
      List.append_assoc]
    rfl
  | cons entry others =>
    refine ⟨id, ' ' :: ((attributesText (entry :: others)).toList ++ back.toList), ?_⟩
    simp only [attributesText, attributeText, List.map_cons, String.intercalate_cons_cons,
      String.toList_append, List.append_assoc]
    rfl

/-- Elements that are the same have the same name: there is no quote in the number or the name, so
    both end at the first quote. -/
theorem NamedAttributes.unique {name name' front back back' : String}
    {attributes attributes' : List (String × String)} (h : NamedAttributes name attributes)
    (h' : NamedAttributes name' attributes')
    (heq : front ++ attributesText attributes ++ back =
      front ++ attributesText attributes' ++ back') : name = name' := by
  have hnumber (id : Nat) : '"' ∉ id.repr.toList := by
    intro hmem
    have hdigit := isDigit_of_mem_repr hmem
    revert hdigit
    decide
  have hname (name : String) : '"' ∉ (nameText name).toList := by
    rw [nameText, String.toList_ofList]
    exact fun hmem => (ne_of_mem_escape hmem).2.2 rfl
  obtain ⟨id, rest, hrest⟩ := h.toList_eq front back
  obtain ⟨id', rest', hrest'⟩ := h'.toList_eq front back'
  rw [heq, hrest'] at hrest
  obtain ⟨-, hbehind⟩ :=
    append_cons_inj (hnumber id') (hnumber id) (List.append_cancel_left hrest)
  obtain ⟨hsame, -⟩ :=
    append_cons_inj (hname name') (hname name) (List.append_cancel_left hbehind)
  exact nameText_injective (String.toList_inj.1 hsame.symm)

variable {K : Type} [Scalar K]

theorem namedAttributes_cell (g : Geometry K) (c : Cell K) :
    NamedAttributes c.name (cellAttributes g c) := ⟨c.id, _, rfl⟩

theorem exists_append_append {start s : String} (h : ∃ back, s = start ++ back) (t : String) :
    ∃ back, s ++ t = start ++ back := by
  obtain ⟨back, rfl⟩ := h
  exact ⟨back ++ t, String.append_assoc⟩

/-- The element of a lattice begins with a tag that has a number and a name only. -/
theorem exists_latticeElement_eq (g : Geometry K) (u : Universe K) (l : Lattice K) :
    ∃ back, latticeElement g u l =
      "  <lattice " ++ attributesText [("id", u.id.repr), ("name", nameText u.name)] ++ back := by
  unfold latticeElement
  -- Seven texts stand behind the end of the tag.
  iterate 7 refine exists_append_append ?_ _
  exact ⟨">\n", rfl⟩

theorem namedAttributes_surface (s : Surface K) :
    NamedAttributes s.name (surfaceAttributes s) := ⟨s.id, _, rfl⟩

/-- Names are written so that they can be read back. The four replacements one after another give
    a text without angle brackets and quotes, in which an entity begins at every ampersand, and
    which is decoded to the name. Things with different names have different elements. -/
theorem escape_reversible :
    (∀ text, replaceReserved text = escape text ∧
      (∀ c ∈ escape text, c ≠ '<' ∧ c ≠ '>' ∧ c ≠ '"') ∧
      (∀ rest, '&' :: rest <:+ escape text →
        ∃ entry ∈ entities, entry.2.toList <+: '&' :: rest) ∧
      decode (escape text) = text) ∧
    Function.Injective nameText ∧
    (∀ (g g' : Geometry K) c c', cellElement g c = cellElement g' c' → c.name = c'.name) ∧
    (∀ (g g' : Geometry K) u u' l l',
      latticeElement g u l = latticeElement g' u' l' → u.name = u'.name) ∧
    ∀ s s' : Surface K, surfaceElement s = surfaceElement s' → s.name = s'.name := by
  refine ⟨fun text => ⟨replaceReserved_eq text, fun c => ne_of_mem_escape,
    fun rest => entity_of_suffix_escape, decode_escape text⟩, nameText_injective, ?_, ?_, ?_⟩
  · intro g g' c c' h
    exact (namedAttributes_cell g c).unique (namedAttributes_cell g' c') h
  · intro g g' u u' l l' h
    obtain ⟨back, hback⟩ := exists_latticeElement_eq g u l
    obtain ⟨back', hback'⟩ := exists_latticeElement_eq g' u' l'
    have hnamed (u : Universe K) :
        NamedAttributes u.name [("id", u.id.repr), ("name", nameText u.name)] := ⟨u.id, [], rfl⟩
    rw [hback, hback'] at h
    exact (hnamed u).unique (hnamed u') h
  · intro s s' h
    exact (namedAttributes_surface s).unique (namedAttributes_surface s') h

/-- A name that looks like an entity stays apart from the character of the entity. -/
example : nameText "&lt;" = "&amp;lt;" ∧ nameText "<" = "&lt;" := by decide

end SerpentCsg.Output
