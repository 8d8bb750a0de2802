import JarTailor.Proofs.Descriptor
import JarTailor.TypeUse.Role

/-!
# The grammar of descriptors

    Field  = one of BCDFIJSZ  |  "L" Name ";"  |  "[" Field
    Method = "(" Field* ")" ("V" | Field)

where a name is not empty and has no semicolon in it. Reading accepts what the grammar derives, and
writing gives back what was read. The classes of a descriptor can be found in its text without
reading it: their names stand between an `L` and the next semicolon. Renaming a descriptor exchanges
them there and keeps every other character.
-/

namespace JarTailor

inductive IsField : List Char → Prop
  | base {c : Char} (h : c ∈ ['B', 'C', 'D', 'F', 'I', 'J', 'S', 'Z']) : IsField [c]
  | object {name : List Char} (hne : name ≠ []) (hname : ';' ∉ name) :
      IsField ('L' :: (name ++ [';']))
  | array {field : List Char} (h : IsField field) : IsField ('[' :: field)

inductive IsMethod : List Char → Prop
  | void {fields : List (List Char)} (hfields : ∀ field ∈ fields, IsField field) :
      IsMethod ('(' :: (fields.flatten ++ [')', 'V']))
  | returning {fields : List (List Char)} {field : List Char}
      (hfields : ∀ field ∈ fields, IsField field) (hfield : IsField field) :
      IsMethod ('(' :: (fields.flatten ++ ')' :: field))

/-- A field, a method, or the lone letter of no type. -/
def IsDescriptor (chars : List Char) : Prop :=
  chars = ['V'] ∨ IsField chars ∨ IsMethod chars

/-- What is derived is read, and only that; what is read is written back as it was; and values of
the shape that reading gives are read back from what is written. -/
structure ReadsBack {α : Type} (parse : String → Except Failure α) (write : α → String)
    (Derived : List Char → Prop) (Shaped : α → Prop) : Prop where
  accepts : ∀ text, (∃ value, parse text = .ok value) ↔ Derived text.toList
  writes : ∀ text value, parse text = .ok value → write value = text
  reads : ∀ value, Shaped value ↔ parse (write value) = .ok value

section Derivations

theorem BaseType.exists_letter_iff {c : Char} :
    (∃ type : BaseType, type.letter = c) ↔ c ∈ ['B', 'C', 'D', 'F', 'I', 'J', 'S', 'Z'] := by
  constructor
  · rintro ⟨type, rfl⟩
    cases type <;> decide
  · simp only [List.mem_cons, List.not_mem_nil, or_false]
    rintro (rfl | rfl | rfl | rfl | rfl | rfl | rfl | rfl)
    exacts [⟨.byte, rfl⟩, ⟨.char, rfl⟩, ⟨.double, rfl⟩, ⟨.float, rfl⟩, ⟨.int, rfl⟩, ⟨.long, rfl⟩,
      ⟨.short, rfl⟩, ⟨.boolean, rfl⟩]

theorem isField_iff {chars : List Char} :
    IsField chars ↔ ∃ type : FieldType, type.Readable ∧ type.chars = chars := by
  constructor
  · intro h
    induction h with
    | base hc =>
        obtain ⟨type, rfl⟩ := BaseType.exists_letter_iff.2 hc
        exact ⟨⟨0, .base type⟩, (fun _ h => nomatch h), rfl⟩
    | @object name hne hname =>
        refine ⟨⟨0, .object (String.ofList name)⟩, ?_, ?_⟩
        · rintro _ ⟨⟩
          exact ⟨mt String.ofList_eq_empty_iff.1 hne, by rwa [String.toList_ofList]⟩
        · simp [FieldType.chars, ElementType.chars]
    | array _ ih =>
        obtain ⟨⟨rank, element⟩, hreadable, rfl⟩ := ih
        exact ⟨⟨rank + 1, element⟩, hreadable, rfl⟩
  · rintro ⟨⟨rank, element⟩, hreadable, rfl⟩
    induction rank with
    | succ rank ih => exact .array (ih hreadable)
    | zero =>
        cases element with
        | base type => exact .base (BaseType.exists_letter_iff.1 ⟨type, rfl⟩)
        | object name =>
            obtain ⟨hne, hname⟩ := hreadable name rfl
            exact .object (mt String.toList_eq_nil_iff.1 hne) hname

/-- Fields in a row are the parameters of a method. -/
theorem forall_isField_iff {fields : List (List Char)} :
    (∀ field ∈ fields, IsField field) ↔ ∃ types : List FieldType,
      (∀ type ∈ types, type.Readable) ∧ types.map FieldType.chars = fields := by
  constructor
  · intro h
    induction fields with
    | nil => exact ⟨[], by simp, rfl⟩
    | cons field fields ih =>
        obtain ⟨hfield, hfields⟩ := List.forall_mem_cons.1 h
        obtain ⟨type, htype, rfl⟩ := isField_iff.1 hfield
        obtain ⟨types, htypes, rfl⟩ := ih hfields
        exact ⟨type :: types, List.forall_mem_cons.2 ⟨htype, htypes⟩, rfl⟩
  · rintro ⟨types, htypes, rfl⟩ field hfield
    obtain ⟨type, htype, rfl⟩ := List.mem_map.1 hfield
    exact isField_iff.2 ⟨type, htypes type htype, rfl⟩

theorem isMethod_iff {chars : List Char} :
    IsMethod chars ↔ ∃ type : MethodType, type.Readable ∧ type.chars = chars := by
  constructor
  · rintro (hfields | ⟨hfields, hfield⟩)
    · obtain ⟨types, htypes, rfl⟩ := forall_isField_iff.1 hfields
      exact ⟨⟨types, none⟩, ⟨htypes, (fun _ h => nomatch h)⟩, by
        rw [MethodType.chars_eq, List.flatMap_def]; rfl⟩
    · obtain ⟨types, htypes, rfl⟩ := forall_isField_iff.1 hfields
      obtain ⟨type, htype, rfl⟩ := isField_iff.1 hfield
      refine ⟨⟨types, some type⟩, ⟨htypes, ?_⟩, by
        rw [MethodType.chars_eq, List.flatMap_def]; rfl⟩
      rintro _ ⟨⟩
      exact htype
  · rintro ⟨⟨types, result⟩, ⟨htypes, hresult⟩, rfl⟩
    have hfields := forall_isField_iff.2 ⟨types, htypes, rfl⟩
    rw [MethodType.chars_eq, List.flatMap_def]
    cases result with
    | none => exact .void hfields
    | some type => exact .returning hfields (isField_iff.2 ⟨type, hresult type rfl, rfl⟩)

theorem isDescriptor_iff {chars : List Char} :
    IsDescriptor chars ↔ ∃ descriptor : Descriptor, descriptor.Readable ∧
      descriptor.text.toList = chars := by
  have hfield : ∀ type : FieldType, (Descriptor.field type).text.toList = type.chars :=
    fun type => String.toList_ofList
  have hmethod : ∀ type : MethodType, (Descriptor.method type).text.toList = type.chars :=
    fun type => String.toList_ofList
  rw [IsDescriptor, isField_iff, isMethod_iff]
  constructor
  · rintro (rfl | ⟨type, htype, rfl⟩ | ⟨type, htype, rfl⟩)
    · exact ⟨.void, trivial, rfl⟩
    · exact ⟨.field type, htype, hfield type⟩
    · exact ⟨.method type, htype, hmethod type⟩
  · rintro ⟨descriptor, hreadable, rfl⟩
    cases descriptor with
    | void => exact Or.inl rfl
    | field type => exact Or.inr (Or.inl ⟨type, hreadable, (hfield type).symm⟩)
    | method type => exact Or.inr (Or.inr ⟨type, hreadable, (hmethod type).symm⟩)

/-- A reader that accepts the texts of shaped values reads back, if the grammar derives these. -/
theorem readsBack_of_parse_iff {α : Type} {parse : String → Except Failure α} {write : α → String}
    {Derived : List Char → Prop} {Shaped : α → Prop}
    (hparse : ∀ text value, parse text = .ok value ↔ Shaped value ∧ text = write value)
    (hderived : ∀ chars, Derived chars ↔ ∃ value, Shaped value ∧ (write value).toList = chars) :
    ReadsBack parse write Derived Shaped where
  accepts text := by
    simp only [hderived, hparse, String.toList_inj, eq_comm (a := text)]
  writes text value h := ((hparse text value).1 h).2.symm
  reads value := by simp [hparse]

end Derivations

section Names

/-- The names between an `L` and the next semicolon. -/
def namesIn : List Char → List String
  | [] => []
  | 'L' :: rest => String.ofList (rest.takeWhile (· ≠ ';')) :: namesIn (rest.dropWhile (· ≠ ';'))
  | _ :: rest => namesIn rest
termination_by chars => chars.length
decreasing_by
  · exact Nat.lt_succ_of_le (List.dropWhile_sublist _).length_le
  · exact Nat.lt_succ_self _

/-- The text with new names in the place of those between an `L` and the next semicolon. -/
def substitute (f : String → String) : List Char → List Char
  | [] => []
  | 'L' :: rest =>
      'L' :: ((f (String.ofList (rest.takeWhile (· ≠ ';')))).toList ++
        substitute f (rest.dropWhile (· ≠ ';')))
  | c :: rest => c :: substitute f rest
termination_by chars => chars.length
decreasing_by
  · exact Nat.lt_succ_of_le (List.dropWhile_sublist _).length_le
  · exact Nat.lt_succ_self _

variable {f : String → String}

@[simp] theorem namesIn_nil : namesIn [] = [] := by
  rw [namesIn]

@[simp] theorem substitute_nil : substitute f [] = [] := by
  rw [substitute]

theorem namesIn_of_ne {c : Char} (hc : c ≠ 'L') (rest : List Char) :
    namesIn (c :: rest) = namesIn rest := by
  rw [namesIn]
  exact hc

theorem substitute_of_ne {c : Char} (hc : c ≠ 'L') (rest : List Char) :
    substitute f (c :: rest) = c :: substitute f rest := by
  rw [substitute]
  exact hc

theorem namesIn_object {name : String} (hname : ';' ∉ name.toList) (rest : List Char) :
    namesIn ('L' :: (name.toList ++ ';' :: rest)) = name :: namesIn rest := by
  obtain ⟨htake, hdrop⟩ := FieldType.takeWhile_name hname rest
  rw [namesIn, htake, hdrop, String.ofList_toList, namesIn_of_ne (by decide)]

theorem substitute_object {name : String} (hname : ';' ∉ name.toList) (rest : List Char) :
    substitute f ('L' :: (name.toList ++ ';' :: rest)) =
      'L' :: ((f name).toList ++ ';' :: substitute f rest) := by
  obtain ⟨htake, hdrop⟩ := FieldType.takeWhile_name hname rest
  rw [substitute, htake, hdrop, String.ofList_toList, substitute_of_ne (by decide)]

theorem BaseType.letter_ne (type : BaseType) : type.letter ≠ 'L' := by
  cases type <;> decide

theorem FieldType.namesIn_chars {type : FieldType} (h : type.Readable) (rest : List Char) :
    namesIn (type.chars ++ rest) = type.className?.toList ++ namesIn rest := by
  obtain ⟨rank, element⟩ := type
  induction rank with
  | succ rank ih =>
      exact (namesIn_of_ne (by decide) _).trans (ih h)
  | zero =>
      cases element with
      | base type => exact namesIn_of_ne type.letter_ne rest
      | object name =>
          have hlist : FieldType.chars ⟨0, .object name⟩ ++ rest =
              'L' :: (name.toList ++ ';' :: rest) := by
            simp [FieldType.chars, ElementType.chars]
          rw [hlist, namesIn_object (h name rfl).2]
          rfl

theorem FieldType.substitute_chars {type : FieldType} (h : type.Readable) (rest : List Char) :
    substitute f (type.chars ++ rest) = (type.rename f).chars ++ substitute f rest := by
  obtain ⟨rank, element⟩ := type
  induction rank with
  | succ rank ih =>
      have hrank : ∀ element : ElementType, FieldType.chars ⟨rank + 1, element⟩ =
          '[' :: FieldType.chars ⟨rank, element⟩ := fun _ => rfl
      rw [hrank, List.cons_append, substitute_of_ne (by decide), ih h]
      cases element <;> rfl
  | zero =>
      cases element with
      | base type => exact substitute_of_ne type.letter_ne rest
      | object name =>
          have hlist : ∀ name rest, FieldType.chars ⟨0, .object name⟩ ++ rest =
              'L' :: (name.toList ++ ';' :: rest) := by
            simp [FieldType.chars, ElementType.chars]
          rw [hlist, substitute_object (h name rfl).2]
          exact (hlist (f name) _).symm

theorem FieldType.namesIn_flatMap {types : List FieldType} (h : ∀ type ∈ types, type.Readable)
    (rest : List Char) : namesIn (types.flatMap FieldType.chars ++ rest) =
      types.filterMap FieldType.className? ++ namesIn rest := by
  induction types with
  | nil => rfl
  | cons type types ih =>
      obtain ⟨htype, htypes⟩ := List.forall_mem_cons.1 h
      rw [List.flatMap_cons, List.append_assoc, namesIn_chars htype, ih htypes,
        List.filterMap_cons]
      cases type.className? <;> rfl

theorem FieldType.substitute_flatMap {types : List FieldType} (h : ∀ type ∈ types, type.Readable)
    (rest : List Char) : substitute f (types.flatMap FieldType.chars ++ rest) =
      (types.map (FieldType.rename f)).flatMap FieldType.chars ++ substitute f rest := by
  induction types with
  | nil => rfl
  | cons type types ih =>
      obtain ⟨htype, htypes⟩ := List.forall_mem_cons.1 h
      rw [List.flatMap_cons, List.append_assoc, substitute_chars htype, ih htypes, List.map_cons,
        List.flatMap_cons, List.append_assoc]

theorem MethodType.namesIn_resultChars {result : Option FieldType}
    (h : ∀ type, result = some type → type.Readable) :
    namesIn (resultChars result) = (result.bind FieldType.className?).toList := by
  cases result with
  | none => exact (namesIn_of_ne (by decide) []).trans namesIn_nil
  | some type =>
      have hchars := FieldType.namesIn_chars (h type rfl) []
      rw [List.append_nil] at hchars
      rw [resultChars, hchars, namesIn_nil, List.append_nil]
      rfl

theorem MethodType.substitute_resultChars {result : Option FieldType}
    (h : ∀ type, result = some type → type.Readable) :
    substitute f (resultChars result) = resultChars (result.map (FieldType.rename f)) := by
  cases result with
  | none =>
      show substitute f ['V'] = ['V']
      rw [substitute_of_ne (by decide), substitute_nil]
  | some type =>
      have hchars := FieldType.substitute_chars (f := f) (h type rfl) []
      rw [List.append_nil, substitute_nil, List.append_nil] at hchars
      exact hchars

/-- The names in the text of a descriptor are those of its classes. -/
theorem Descriptor.namesIn_text {descriptor : Descriptor} (h : descriptor.Readable) :
    namesIn descriptor.text.toList = descriptor.classNames := by
  cases descriptor with
  | void => exact (namesIn_of_ne (by decide) []).trans namesIn_nil
  | field type =>
      have hchars := FieldType.namesIn_chars h []
      rw [List.append_nil, namesIn_nil, List.append_nil] at hchars
      rw [text, FieldType.text, String.toList_ofList, hchars]
      rfl
  | method type =>
      rw [text, MethodType.text, String.toList_ofList, MethodType.chars_eq,
        namesIn_of_ne (by decide), FieldType.namesIn_flatMap h.1, namesIn_of_ne (by decide),
        MethodType.namesIn_resultChars h.2]
      rfl

/-- The text with new names is that of the descriptor with these names. -/
theorem Descriptor.substitute_text {descriptor : Descriptor} (h : descriptor.Readable) :
    substitute f descriptor.text.toList = (descriptor.rename f).text.toList := by
  cases descriptor with
  | void =>
      have hletter : Descriptor.void.text.toList = ['V'] := rfl
      rw [rename, hletter, substitute_of_ne (by decide), substitute_nil]
  | field type =>
      have hchars := FieldType.substitute_chars (f := f) h []
      rw [List.append_nil, substitute_nil, List.append_nil] at hchars
      rw [text, FieldType.text, String.toList_ofList, hchars, rename, text, FieldType.text,
        String.toList_ofList]
  | method type =>
      rw [text, MethodType.text, String.toList_ofList, MethodType.chars_eq,
        substitute_of_ne (by decide), FieldType.substitute_flatMap h.1,
        substitute_of_ne (by decide), MethodType.substitute_resultChars h.2, rename, text,
        MethodType.text, String.toList_ofList, MethodType.chars_eq]
      rfl

end Names

/-- What becomes of a descriptor whose classes have new names. -/
theorem Descriptor.map_text_mapNamesM {descriptor : Descriptor} (h : descriptor.Readable)
    (f : String → Option String) :
    Option.map Descriptor.text (descriptor.mapNamesM (m := Id) f) =
      if ∀ name ∈ namesIn descriptor.text.toList, f name = none then none
      else some (String.ofList (substitute (fun name => (f name).getD name)
        descriptor.text.toList)) := by
  have hrename := getD_mapNamesM (g := f) descriptor
  rw [namesIn_text h, substitute_text h, String.ofList_toList]
  split
  · next hnone => rw [mapNamesM_eq_none_iff.2 hnone, Option.map_none]
  · next hsome =>
      obtain ⟨new, hnew⟩ := Option.ne_none_iff_exists'.1 (mt mapNamesM_eq_none_iff.1 hsome)
      rw [hnew, Option.getD_some] at hrename
      rw [hnew, Option.map_some, hrename]

/-- Fields and methods are read as the grammar derives them and written back. Descriptors of both
kinds are accepted for renaming, which changes nothing when no class in the text has a new name, and
otherwise puts the new names in the place of the old ones. -/
theorem parse_iff_derived :
    ReadsBack FieldType.parse FieldType.text IsField FieldType.Readable ∧
      ReadsBack MethodType.parse MethodType.text IsMethod MethodType.Readable ∧
      ∀ (text : String) (f : String → Option String) (result : Option String),
        TypeRole.descriptor.mapNames text f = .ok result ↔
          IsDescriptor text.toList ∧ result =
            if ∀ name ∈ namesIn text.toList, f name = none then none
            else some <| String.ofList <|
              substitute (fun name => (f name).getD name) text.toList := by
  refine ⟨readsBack_of_parse_iff (fun _ _ => FieldType.parse_eq_ok_iff) fun chars => ?_,
    readsBack_of_parse_iff (fun _ _ => MethodType.parse_eq_ok_iff) fun chars => ?_,
    fun text f result => ?_⟩
  · simp only [isField_iff, FieldType.text, String.toList_ofList]
  · simp only [isMethod_iff, MethodType.text, String.toList_ofList]
  · rw [isDescriptor_iff]
    constructor
    · intro h
      obtain ⟨descriptor, hparse, hresult⟩ := Except.bind_eq_ok_iff.1 h
      obtain ⟨hreadable, rfl⟩ := Descriptor.parse_eq_ok_iff.1 hparse
      refine ⟨⟨descriptor, hreadable, rfl⟩, ?_⟩
      rw [← Descriptor.map_text_mapNamesM hreadable]
      exact (Except.ok.inj hresult).symm
    · rintro ⟨⟨descriptor, hreadable, htext⟩, rfl⟩
      obtain rfl := String.toList_inj.1 htext
      refine Except.bind_eq_ok_iff.2
        ⟨descriptor, Descriptor.parse_eq_ok_iff.2 ⟨hreadable, rfl⟩, ?_⟩
      rw [← Descriptor.map_text_mapNamesM hreadable]
      rfl

end JarTailor
