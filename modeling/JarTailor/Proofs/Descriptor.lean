import JarTailor.Descriptor
import Mathlib.Data.List.TakeWhile

/-!
# Descriptors are read as they are written

A text is read as a descriptor exactly when it is the text of it. So a descriptor with other names
in it is read back with these names.
-/

namespace JarTailor

/-- A class name that a descriptor can hold. -/
def Enclosable (name : String) : Prop :=
  name ≠ "" ∧ ';' ∉ name.toList

namespace FieldType

/-- The class that the type names, if any, has a name that a descriptor can hold. -/
def Readable (type : FieldType) : Prop :=
  ∀ name, type.element = .object name → Enclosable name

theorem readFrom_replicate (rank more : Nat) (input : List Char) :
    readFrom rank (List.replicate more '[' ++ input) = readFrom (rank + more) input := by
  induction more generalizing rank with
  | zero => rfl
  | succ more ih =>
      rw [List.replicate_succ, List.cons_append, readFrom, ih, Nat.add_right_comm]
      rfl

theorem takeWhile_name {name : List Char} (hname : ';' ∉ name) (rest : List Char) :
    (name ++ ';' :: rest).takeWhile (· ≠ ';') = name ∧
      (name ++ ';' :: rest).dropWhile (· ≠ ';') = ';' :: rest := by
  have hall : ∀ c ∈ name, decide (c ≠ ';') = true := by
    intro c hc
    rw [decide_eq_true_eq]
    rintro rfl
    exact hname hc
  rw [List.takeWhile_append_of_pos hall, List.dropWhile_append_of_pos hall]
  simp

theorem readFrom_element {rank : Nat} {element : ElementType} (rest : List Char)
    (hreadable : ∀ name, element = .object name → Enclosable name) :
    readFrom rank (element.chars ++ rest) = .ok (⟨rank, element⟩, rest) := by
  cases element with
  | base type => cases type <;> rfl
  | object name =>
      obtain ⟨hne, hname⟩ := hreadable name rfl
      obtain ⟨htake, hdrop⟩ := takeWhile_name hname rest
      have hlist : (ElementType.object name).chars ++ rest = 'L' :: (name.toList ++ ';' :: rest) := by
        simp [ElementType.chars]
      have hback : String.ofList name.toList = name := String.ofList_toList
      rw [hlist, readFrom, htake, hdrop]
      cases hchars : name.toList with
      | nil => exact absurd (String.toList_eq_nil_iff.1 hchars) hne
      | cons c chars =>
          rw [hchars] at hback
          simp only [hback, pure, Except.pure]

/-- What is left of a read input, and what was taken from it. -/
theorem chars_of_readFrom {rank : Nat} {input rest : List Char} {type : FieldType}
    (h : readFrom rank input = .ok (type, rest)) :
    type.Readable ∧ List.replicate rank '[' ++ input = type.chars ++ rest := by
  fun_induction readFrom rank input with
  | case1 => cases h
  | case2 rank tail ih =>
      obtain ⟨hreadable, hchars⟩ := ih h
      refine ⟨hreadable, ?_⟩
      rw [← hchars, List.replicate_succ']
      simp
  | case3 => cases h
  | case4 => cases h
  | case5 rank input c tail hdrop hname =>
      cases h
      have hjoin := List.takeWhile_append_dropWhile (p := (· ≠ ';')) (l := input)
      have hfirst := List.head?_dropWhile_not (fun c : Char => decide (c ≠ ';')) input
      rw [hdrop] at hfirst hjoin
      have hc : c = ';' := by simpa using hfirst
      refine ⟨?_, ?_⟩
      · rintro name ⟨⟩
        refine ⟨?_, ?_⟩
        · intro hempty
          exact hname (by simpa using hempty)
        · rw [String.toList_ofList]
          intro hmem
          simpa using List.mem_takeWhile_imp hmem
      · subst hc
        simp only [chars, ElementType.chars, String.toList_ofList, List.append_assoc,
          List.cons_append, List.nil_append, hjoin]
  | case6 rank c tail _ _ type hletter =>
      cases h
      rw [BaseType.ofLetter?_eq_some_iff] at hletter
      refine ⟨?_, by simp [chars, ElementType.chars, hletter]⟩
      rintro name ⟨⟩
  | case7 => cases h

theorem read_eq_ok_iff {input rest : List Char} {type : FieldType} :
    read input = .ok (type, rest) ↔ type.Readable ∧ input = type.chars ++ rest := by
  constructor
  · intro h
    exact chars_of_readFrom h
  · rintro ⟨hreadable, rfl⟩
    rw [chars, List.append_assoc, read, readFrom_replicate, Nat.zero_add]
    exact readFrom_element rest hreadable

/-- No type begins like a list of parameters or its end, like `void`, like type parameters or like
the end of a class. -/
theorem chars_ne_cons (type : FieldType) {c : Char}
    (hc : c = ')' ∨ c = 'V' ∨ c = '(' ∨ c = '<' ∨ c = ';')
    (rest more : List Char) : type.chars ++ rest ≠ c :: more := by
  have hend : BaseType.ofLetter? c = none ∧ c ≠ 'L' ∧ c ≠ '[' := by
    rcases hc with rfl | rfl | rfl | rfl | rfl <;> exact ⟨rfl, by decide, by decide⟩
  obtain ⟨hbase, hobject, harray⟩ := hend
  intro h
  rcases type with ⟨_ | rank, element⟩
  · cases element with
    | base base =>
        have hletter : base.letter = c := (List.cons.inj h).1
        rw [← hletter, BaseType.ofLetter?_letter] at hbase
        cases hbase
    | object name => exact hobject (List.cons.inj h).1.symm
  · exact harray (List.cons.inj h).1.symm

theorem chars_ne_nil (type : FieldType) : type.chars ≠ [] := by
  have helement : type.element.chars ≠ [] := by
    cases type.element with
    | base type => exact List.cons_ne_nil _ _
    | object name => exact List.cons_ne_nil _ _
  exact List.append_ne_nil_of_right_ne_nil _ helement

end FieldType

namespace MethodType

/-- The types of the parameters and the result are. -/
def Readable (type : MethodType) : Prop :=
  (∀ parameter ∈ type.parameters, parameter.Readable) ∧
    ∀ result, type.result = some result → result.Readable

theorem readParameters_eq_ok_iff {input rest : List Char} {types : List FieldType} :
    readParameters input = .ok (types, rest) ↔
      (∀ type ∈ types, type.Readable) ∧
        input = types.flatMap FieldType.chars ++ ')' :: rest := by
  constructor
  · intro h
    fun_induction readParameters input generalizing types rest with
    | case1 => cases h
    | case2 =>
        cases h
        exact ⟨by simp, rfl⟩
    | case3 => cases h
    | case4 c tail _ type middle hread _ ih =>
        obtain ⟨⟨others, last⟩, hothers, h⟩ := Except.bind_eq_ok_iff.1 h
        cases h
        obtain ⟨hreadable, hchars⟩ := FieldType.read_eq_ok_iff.1 hread
        obtain ⟨hall, rfl⟩ := ih hothers
        refine ⟨?_, by rw [hchars, List.flatMap_cons, List.append_assoc]⟩
        intro other hother
        rcases List.mem_cons.1 hother with rfl | hother
        · exact hreadable
        · exact hall other hother
  · rintro ⟨hreadable, rfl⟩
    induction types with
    | nil =>
        rw [List.flatMap_nil, List.nil_append, readParameters]
        rfl
    | cons type types ih =>
        have hothers := ih fun other hother => hreadable other (List.mem_cons_of_mem _ hother)
        have hread : FieldType.read (type.chars ++ (types.flatMap FieldType.chars ++ ')' :: rest)) =
            .ok (type, types.flatMap FieldType.chars ++ ')' :: rest) :=
          FieldType.read_eq_ok_iff.2 ⟨hreadable type List.mem_cons_self, rfl⟩
        rw [List.flatMap_cons, List.append_assoc]
        cases hinput : type.chars ++ (types.flatMap FieldType.chars ++ ')' :: rest) with
        | nil =>
            rw [hinput] at hread
            cases hread
        | cons c tail =>
            have hc : c ≠ ')' := by
              rintro rfl
              exact FieldType.chars_ne_cons type (by simp) _ _ hinput
            rw [hinput] at hread
            rw [readParameters]
            · split
              · next hfault =>
                  rw [hread] at hfault
                  cases hfault
              · next found after hfound =>
                  rw [hread] at hfound
                  cases hfound
                  rw [Except.bind_eq_ok_iff]
                  exact ⟨_, hothers, rfl⟩
            · exact hc

def resultChars : Option FieldType → List Char
  | some type => type.chars
  | none => ['V']

theorem chars_eq (type : MethodType) :
    type.chars =
      '(' :: (type.parameters.flatMap FieldType.chars ++ ')' :: resultChars type.result) := by
  unfold chars resultChars
  cases type.result <;> rfl

theorem readResult_eq_ok_iff {input rest : List Char} {result : Option FieldType} :
    readResult input = .ok (result, rest) ↔
      (∀ type, result = some type → type.Readable) ∧ input = resultChars result ++ rest := by
  constructor
  · intro h
    unfold readResult at h
    split at h
    · cases h
    · cases h
      exact ⟨by simp, rfl⟩
    · obtain ⟨⟨type, last⟩, hread, h⟩ := Except.bind_eq_ok_iff.1 h
      cases h
      obtain ⟨hreadable, hchars⟩ := FieldType.read_eq_ok_iff.1 hread
      refine ⟨?_, hchars⟩
      rintro other ⟨⟩
      exact hreadable
  · rintro ⟨hreadable, rfl⟩
    cases result with
    | none => rfl
    | some type =>
        have hread : FieldType.read (type.chars ++ rest) = .ok (type, rest) :=
          FieldType.read_eq_ok_iff.2 ⟨hreadable type rfl, rfl⟩
        show readResult (type.chars ++ rest) = _
        unfold readResult
        split
        · next hnil =>
            rw [hnil] at hread
            cases hread
        · next hvoid => exact absurd hvoid (FieldType.chars_ne_cons type (by simp) _ _)
        · exact Except.bind_eq_ok_iff.2 ⟨_, hread, rfl⟩

theorem read_eq_ok_iff {input rest : List Char} {type : MethodType} :
    read input = .ok (type, rest) ↔ type.Readable ∧ input = type.chars ++ rest := by
  constructor
  · intro h
    unfold read at h
    split at h
    · cases h
    · obtain ⟨⟨parameters, middle⟩, hparameters, h⟩ := Except.bind_eq_ok_iff.1 h
      obtain ⟨⟨result, last⟩, hresult, h⟩ := Except.bind_eq_ok_iff.1 h
      cases h
      obtain ⟨hall, rfl⟩ := readParameters_eq_ok_iff.1 hparameters
      obtain ⟨hone, rfl⟩ := readResult_eq_ok_iff.1 hresult
      exact ⟨⟨hall, hone⟩, by simp [chars_eq]⟩
    · cases h
  · rintro ⟨⟨hall, hone⟩, rfl⟩
    rw [chars_eq, List.cons_append, List.append_assoc, List.cons_append, read,
      Except.bind_eq_ok_iff]
    refine ⟨_, readParameters_eq_ok_iff.2 ⟨hall, rfl⟩, ?_⟩
    exact Except.bind_eq_ok_iff.2 ⟨_, readResult_eq_ok_iff.2 ⟨hone, rfl⟩, rfl⟩

end MethodType

/-- A reader of whole texts accepts what it reads without a rest. -/
theorem readWhole_eq_ok_iff {α : Type}
    {read : List Char → Except DescriptorFault (α × List Char)} {text : String} {value : α} :
    readWhole read text = .ok value ↔ read text.toList = .ok (value, []) := by
  unfold readWhole
  split
  · next found hread =>
      rw [hread]
      simp [pure, Except.pure]
  · next hread =>
      rw [hread]
      simp
  · next hread =>
      rw [hread]
      simp

theorem FieldType.parse_eq_ok_iff {text : String} {type : FieldType} :
    FieldType.parse text = .ok type ↔ type.Readable ∧ text = type.text := by
  rw [FieldType.parse, readWhole_eq_ok_iff, FieldType.read_eq_ok_iff, List.append_nil,
    FieldType.text, ← String.toList_inj, String.toList_ofList]

theorem MethodType.parse_eq_ok_iff {text : String} {type : MethodType} :
    MethodType.parse text = .ok type ↔ type.Readable ∧ text = type.text := by
  rw [MethodType.parse, readWhole_eq_ok_iff, MethodType.read_eq_ok_iff, List.append_nil,
    MethodType.text, ← String.toList_inj, String.toList_ofList]

namespace Descriptor

def Readable : Descriptor → Prop
  | .void => True
  | .field type => type.Readable
  | .method type => type.Readable

theorem text_field_ne (type : FieldType) :
    type.text ≠ "V" ∧ type.text.toList.head? ≠ some '(' := by
  have hlist : type.text.toList = type.chars ++ [] := by
    rw [FieldType.text, String.toList_ofList, List.append_nil]
  constructor
  · intro hvoid
    have hletter : "V".toList = ['V'] := rfl
    rw [hvoid, hletter] at hlist
    exact type.chars_ne_cons (by simp) _ _ hlist.symm
  · intro hhead
    obtain ⟨more, hmore⟩ := List.head?_eq_some_iff.1 hhead
    rw [hlist] at hmore
    exact type.chars_ne_cons (by simp) _ _ hmore

theorem head?_text_method (type : MethodType) : type.text.toList.head? = some '(' := by
  rw [MethodType.text, String.toList_ofList, MethodType.chars_eq]
  rfl

/-- A text is read as the descriptor whose text it is. -/
theorem parse_eq_ok_iff {text : String} {descriptor : Descriptor} :
    Descriptor.parse text = .ok descriptor ↔ descriptor.Readable ∧ text = descriptor.text := by
  constructor
  · intro h
    unfold Descriptor.parse at h
    split at h
    · next hvoid =>
        cases h
        exact ⟨trivial, hvoid⟩
    · split at h
      · obtain ⟨type, hparse, rfl⟩ := Except.map_eq_ok_iff.1 h
        exact MethodType.parse_eq_ok_iff.1 hparse
      · obtain ⟨type, hparse, rfl⟩ := Except.map_eq_ok_iff.1 h
        exact FieldType.parse_eq_ok_iff.1 hparse
  · rintro ⟨hreadable, rfl⟩
    cases descriptor with
    | void => rfl
    | field type =>
        obtain ⟨hvoid, hhead⟩ := text_field_ne type
        have hparse : FieldType.parse type.text = .ok type :=
          FieldType.parse_eq_ok_iff.2 ⟨hreadable, rfl⟩
        rw [Descriptor.parse, Descriptor.text, if_neg hvoid, if_neg hhead, hparse]
        rfl
    | method type =>
        have hhead := head?_text_method type
        have hvoid : type.text ≠ "V" := by
          intro hvoid
          rw [hvoid] at hhead
          cases hhead
        have hparse : MethodType.parse type.text = .ok type :=
          MethodType.parse_eq_ok_iff.2 ⟨hreadable, rfl⟩
        rw [Descriptor.parse, Descriptor.text, if_neg hvoid, if_pos hhead, hparse]
        rfl

/-- The classes that a descriptor names have names that it can hold. -/
theorem enclosable_of_mem {descriptor : Descriptor} (h : descriptor.Readable) {name : String}
    (hname : name ∈ descriptor.classNames) : Enclosable name := by
  have hfield : ∀ {type : FieldType}, type.Readable → type.className? = some name →
      Enclosable name := by
    rintro ⟨rank, base | found⟩ htype hfound
    · cases hfound
    · cases hfound
      exact htype name rfl
  cases descriptor with
  | void => cases hname
  | field type => exact hfield h (Option.mem_toList.1 hname)
  | method type =>
      rcases List.mem_append.1 hname with hname | hname
      · obtain ⟨parameter, hparameter, hfound⟩ := List.mem_filterMap.1 hname
        exact hfield (h.1 parameter hparameter) hfound
      · obtain ⟨result, hresult, hfound⟩ := Option.bind_eq_some_iff.1 (Option.mem_toList.1 hname)
        exact hfield (h.2 result hresult) hfound

end Descriptor

section Rename

variable {f : String → String} {g : String → Option String}

/-- The type with another name for its class. -/
def FieldType.rename (f : String → String) (type : FieldType) : FieldType :=
  match type.element with
  | .base _ => type
  | .object name => { type with element := .object (f name) }

def MethodType.rename (f : String → String) (type : MethodType) : MethodType :=
  ⟨type.parameters.map (FieldType.rename f), type.result.map (FieldType.rename f)⟩

def Descriptor.rename (f : String → String) : Descriptor → Descriptor
  | .void => .void
  | .field type => .field (type.rename f)
  | .method type => .method (type.rename f)

theorem FieldType.rename_id : FieldType.rename id = id := by
  funext type
  rcases type with ⟨rank, base | name⟩ <;> rfl

theorem Descriptor.rename_id (descriptor : Descriptor) : descriptor.rename id = descriptor := by
  cases descriptor with
  | void => rfl
  | field type => rw [rename, FieldType.rename_id, id]
  | method type =>
      rw [rename, MethodType.rename, FieldType.rename_id, List.map_id, Option.map_id]
      rfl

theorem FieldType.className?_rename (type : FieldType) :
    (type.rename f).className? = type.className?.map f := by
  rcases type with ⟨rank, base | name⟩ <;> rfl

theorem MethodType.classNames_rename (type : MethodType) :
    (type.rename f).classNames = type.classNames.map f := by
  have hparameters : (type.parameters.map (FieldType.rename f)).filterMap FieldType.className? =
      (type.parameters.filterMap FieldType.className?).map f := by
    rw [List.filterMap_map, List.map_filterMap]
    congr 1
    funext parameter
    exact parameter.className?_rename
  rw [classNames, classNames, List.map_append, rename, hparameters]
  cases type.result with
  | none => rfl
  | some result =>
      simp only [Option.map_some, Option.bind_some, FieldType.className?_rename]
      cases result.className? <;> rfl

theorem Descriptor.classNames_rename (descriptor : Descriptor) :
    (descriptor.rename f).classNames = descriptor.classNames.map f := by
  cases descriptor with
  | void => rfl
  | field type =>
      rw [rename, classNames, classNames, FieldType.className?_rename]
      cases type.className? <;> rfl
  | method type => exact type.classNames_rename

/-- A descriptor can hold new names that are as good as the old ones. -/
theorem Descriptor.readable_rename (hf : ∀ name, Enclosable name → Enclosable (f name))
    {descriptor : Descriptor} (h : descriptor.Readable) : (descriptor.rename f).Readable := by
  have hfield : ∀ type : FieldType, type.Readable → (type.rename f).Readable := by
    rintro ⟨rank, base | name⟩ htype
    · exact htype
    · rintro renamed ⟨⟩
      exact hf name (htype name rfl)
  cases descriptor with
  | void => trivial
  | field type => exact hfield type h
  | method type =>
      refine ⟨?_, ?_⟩
      · intro parameter hparameter
        obtain ⟨old, hold, rfl⟩ := List.mem_map.1 hparameter
        exact hfield old (h.1 old hold)
      · intro result hresult
        obtain ⟨old, hold, rfl⟩ := Option.map_eq_some_iff.1 hresult
        exact hfield old (h.2 old hold)

theorem FieldType.getD_mapNamesM (type : FieldType) :
    (type.mapNamesM (m := Id) g : Option FieldType).getD type =
      type.rename fun name => (g name).getD name := by
  rcases type with ⟨rank, base | name⟩
  · rfl
  · show (Option.map _ (g name)).getD _ = _
    cases hname : g name with
    | none => simp [rename, hname]
    | some renamed => simp [rename, hname]

/-- The new parameters where some are renamed are those where all are. -/
theorem MethodType.zipWith_getD_mapNamesM (types : List FieldType) :
    List.zipWith (fun old new => new.getD old) types
        (types.map fun type => (type.mapNamesM (m := Id) g : Option FieldType)) =
      types.map (FieldType.rename fun name => (g name).getD name) := by
  induction types with
  | nil => rfl
  | cons type types ih =>
      rw [List.map_cons, List.zipWith_cons_cons, ih, List.map_cons, FieldType.getD_mapNamesM]

theorem MethodType.mapNamesM_eq (type : MethodType) :
    (type.mapNamesM (m := Id) g : Option MethodType) =
      let parameters :=
        type.parameters.map fun type => (type.mapNamesM (m := Id) g : Option FieldType)
      let result : Option FieldType := type.result.bind fun type => type.mapNamesM (m := Id) g
      if parameters.any Option.isSome || result.isSome then
        some {
          parameters := List.zipWith (fun old new => new.getD old) type.parameters parameters
          result := result <|> type.result }
      else none := by
  have hmapM : (type.parameters.mapM (m := Id) fun type => type.mapNamesM g) =
      type.parameters.map fun type => (type.mapNamesM (m := Id) g : Option FieldType) := by
    generalize type.parameters = types
    induction types with
    | nil => rfl
    | cons type types ih =>
        rw [List.mapM_cons, ih]
        rfl
  rw [mapNamesM, hmapM]
  cases type.result with
  | none => rfl
  | some result => rfl

theorem FieldType.rename_eq_self {type : FieldType}
    (h : (type.mapNamesM (m := Id) g : Option FieldType) = none) :
    (type.rename fun name => (g name).getD name) = type := by
  rw [← FieldType.getD_mapNamesM, h]
  rfl

theorem MethodType.getD_mapNamesM (type : MethodType) :
    (type.mapNamesM (m := Id) g : Option MethodType).getD type =
      type.rename fun name => (g name).getD name := by
  rw [mapNamesM_eq]
  simp only
  split
  · have hresult : ((type.result.bind fun type =>
        (type.mapNamesM (m := Id) g : Option FieldType)) <|> type.result) =
        type.result.map (FieldType.rename fun name => (g name).getD name) := by
      cases type.result with
      | none => rfl
      | some result =>
          rw [Option.map_some, ← FieldType.getD_mapNamesM, Option.bind_some]
          cases (result.mapNamesM (m := Id) g : Option FieldType) <;> rfl
    rw [Option.getD_some, zipWith_getD_mapNamesM, hresult, rename]
  · next hnone =>
      rw [Bool.or_eq_true, not_or, Bool.not_eq_true, Bool.not_eq_true, List.any_eq_false] at hnone
      obtain ⟨hparameters, hresult⟩ := hnone
      have hlist : type.parameters.map (FieldType.rename fun name => (g name).getD name) =
          type.parameters := by
        refine (List.map_congr_left fun parameter hparameter => ?_).trans (List.map_id _)
        refine FieldType.rename_eq_self ?_
        have hfalse := hparameters _ (List.mem_map_of_mem hparameter)
        rwa [Option.not_isSome_iff_eq_none] at hfalse
      have hone : type.result.map (FieldType.rename fun name => (g name).getD name) =
          type.result := by
        cases htype : type.result with
        | none => rfl
        | some result =>
            rw [htype, Option.bind_some, Option.isSome_eq_false_iff, Option.isNone_iff_eq_none]
              at hresult
            rw [Option.map_some, FieldType.rename_eq_self hresult]
      rw [Option.getD_none, rename, hlist, hone]

theorem Descriptor.getD_mapNamesM (descriptor : Descriptor) :
    (descriptor.mapNamesM (m := Id) g : Option Descriptor).getD descriptor =
      descriptor.rename fun name => (g name).getD name := by
  cases descriptor with
  | void => rfl
  | field type =>
      have htype := type.getD_mapNamesM (g := g)
      rw [rename, ← htype]
      show (Option.map Descriptor.field (type.mapNamesM (m := Id) g)).getD _ = _
      cases (type.mapNamesM (m := Id) g : Option FieldType) <;> rfl
  | method type =>
      have htype := type.getD_mapNamesM (g := g)
      rw [rename, ← htype]
      show (Option.map Descriptor.method (type.mapNamesM (m := Id) g)).getD _ = _
      cases (type.mapNamesM (m := Id) g : Option MethodType) <;> rfl

theorem FieldType.mapNamesM_eq_none_iff {type : FieldType} :
    (type.mapNamesM (m := Id) g : Option FieldType) = none ↔
      ∀ name ∈ type.className?, g name = none := by
  rcases type with ⟨rank, base | name⟩
  · exact iff_of_true rfl fun _ h => nomatch h
  · show Option.map _ (g name) = none ↔ _
    simp [className?]

theorem MethodType.mapNamesM_eq_none_iff {type : MethodType} :
    (type.mapNamesM (m := Id) g : Option MethodType) = none ↔
      ∀ name ∈ type.classNames, g name = none := by
  have hparameters : (type.parameters.map fun type =>
      (type.mapNamesM (m := Id) g : Option FieldType)).any Option.isSome = false ↔
        ∀ name ∈ type.parameters.filterMap FieldType.className?, g name = none := by
    rw [List.any_map, List.any_eq_false]
    constructor
    · intro h name hname
      obtain ⟨parameter, hmem, hname⟩ := List.mem_filterMap.1 hname
      have hnone := Option.not_isSome_iff_eq_none.1 (h parameter hmem)
      exact FieldType.mapNamesM_eq_none_iff.1 hnone name hname
    · intro h parameter hmem
      refine Option.not_isSome_iff_eq_none.2 (FieldType.mapNamesM_eq_none_iff.2 ?_)
      exact fun name hname => h name (List.mem_filterMap.2 ⟨parameter, hmem, hname⟩)
  have hresult : (type.result.bind fun type =>
      (type.mapNamesM (m := Id) g : Option FieldType)).isSome = false ↔
        ∀ name ∈ (type.result.bind FieldType.className?).toList, g name = none := by
    cases type.result with
    | none => exact iff_of_true rfl (by simp)
    | some result =>
        rw [Option.bind_some, Option.isSome_eq_false_iff, Option.isNone_iff_eq_none,
          FieldType.mapNamesM_eq_none_iff]
        simp
  have hnone : ∀ {changed : Bool} {new : MethodType},
      (if changed then some new else none) = none ↔ changed = false := by
    intro changed new
    cases changed <;> simp
  rw [mapNamesM_eq, classNames, List.forall_mem_append, ← hparameters, ← hresult]
  exact hnone.trans Bool.or_eq_false_iff

/-- A descriptor stays exactly when no class in it has a new name. -/
theorem Descriptor.mapNamesM_eq_none_iff {descriptor : Descriptor} :
    (descriptor.mapNamesM (m := Id) g : Option Descriptor) = none ↔
      ∀ name ∈ descriptor.classNames, g name = none := by
  cases descriptor with
  | void => exact iff_of_true rfl (by simp [classNames])
  | field type =>
      show Option.map Descriptor.field (type.mapNamesM (m := Id) g) = none ↔ _
      rw [Option.map_eq_none_iff, FieldType.mapNamesM_eq_none_iff]
      simp [classNames]
  | method type =>
      show Option.map Descriptor.method (type.mapNamesM (m := Id) g) = none ↔ _
      rw [Option.map_eq_none_iff]
      exact MethodType.mapNamesM_eq_none_iff

end Rename

end JarTailor
