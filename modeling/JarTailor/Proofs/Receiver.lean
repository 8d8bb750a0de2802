import JarTailor.Proofs.Descriptor

/-!
# Descriptors made from others

A receiver in front of a descriptor adds its class to the classes named. A name with letters behind
the descriptor of an array is no descriptor.
-/

namespace JarTailor

/-- Lists up to a separator that neither of them holds. -/
theorem split_unique {first second rest more : List Char} (hfirst : ';' ∉ first)
    (hsecond : ';' ∉ second) (h : first ++ ';' :: rest = second ++ ';' :: more) :
    first = second ∧ rest = more := by
  obtain ⟨htake, hdrop⟩ := FieldType.takeWhile_name hfirst rest
  obtain ⟨htake', hdrop'⟩ := FieldType.takeWhile_name hsecond more
  rw [h, htake'] at htake
  rw [h, hdrop'] at hdrop
  exact ⟨htake.symm, (List.cons.inj hdrop).2.symm⟩

/-- A type that begins like a class is one. -/
theorem FieldType.exists_object {type : FieldType} {rest more : List Char}
    (h : type.chars ++ rest = 'L' :: more) :
    ∃ name, type = ⟨0, .object name⟩ ∧ more = name.toList ++ ';' :: rest := by
  rcases type with ⟨_ | rank, base | name⟩
  · cases base <;> exact absurd (List.cons.inj h).1 (by decide)
  · refine ⟨name, rfl, ?_⟩
    rw [← (List.cons.inj h).2]
    simp
  · exact absurd (List.cons.inj h).1 (by decide)
  · exact absurd (List.cons.inj h).1 (by decide)

namespace Descriptor

theorem semicolon_mem_text {descriptor : Descriptor} {name : String}
    (h : name ∈ descriptor.classNames) : ';' ∈ descriptor.text.toList := by
  have hfield : ∀ {type : FieldType}, type.className? = some name → ';' ∈ type.chars := by
    rintro ⟨rank, base | name⟩ hname
    · cases hname
    · simp [FieldType.chars, ElementType.chars]
  cases descriptor with
  | void => cases h
  | field type =>
      rw [text, FieldType.text, String.toList_ofList]
      exact hfield (Option.mem_toList.1 h)
  | method type =>
      rw [text, MethodType.text, String.toList_ofList, MethodType.chars_eq]
      rcases List.mem_append.1 h with h | h
      · obtain ⟨parameter, hparameter, hname⟩ := List.mem_filterMap.1 h
        refine List.mem_cons_of_mem _ (List.mem_append_left _ ?_)
        exact List.mem_flatMap.2 ⟨parameter, hparameter, hfield hname⟩
      · obtain ⟨result, hresult, hname⟩ := Option.bind_eq_some_iff.1 (Option.mem_toList.1 h)
        refine List.mem_cons_of_mem _ (List.mem_append_right _ (List.mem_cons_of_mem _ ?_))
        rw [hresult]
        exact hfield hname

/-- The descriptor of an array is that of a field. -/
theorem exists_field {text : String} {descriptor : Descriptor}
    (hparse : Descriptor.parse text = .ok descriptor) (hhead : text.toList.head? = some '[') :
    ∃ type : FieldType, type.Readable ∧ text.toList = type.chars := by
  obtain ⟨hreadable, rfl⟩ := parse_eq_ok_iff.1 hparse
  cases descriptor with
  | void => cases hhead
  | field type => exact ⟨type, hreadable, by rw [text, FieldType.text, String.toList_ofList]⟩
  | method type =>
      rw [text, head?_text_method] at hhead
      cases hhead

theorem not_parse_append {text suffix : String} {descriptor longer : Descriptor}
    (hparse : Descriptor.parse text = .ok descriptor) (hhead : text.toList.head? = some '[')
    (hsuffix : suffix ≠ "") : Descriptor.parse (text ++ suffix) ≠ .ok longer := by
  intro hlonger
  obtain ⟨rest, hrest⟩ := List.head?_eq_some_iff.1 hhead
  have hhead' : (text ++ suffix).toList.head? = some '[' := by
    rw [String.toList_append, hrest]
    rfl
  obtain ⟨type, hreadable, hchars⟩ := exists_field hparse hhead
  obtain ⟨other, hreadable', hchars'⟩ := exists_field hlonger hhead'
  rw [String.toList_append, hchars] at hchars'
  have hread : FieldType.read (type.chars ++ suffix.toList) = .ok (type, suffix.toList) :=
    FieldType.read_eq_ok_iff.2 ⟨hreadable, rfl⟩
  have hread' : FieldType.read (type.chars ++ suffix.toList) = .ok (other, []) :=
    FieldType.read_eq_ok_iff.2 ⟨hreadable', by rw [hchars', List.append_nil]⟩
  rw [hread'] at hread
  have hnil := (Prod.mk.inj (Except.ok.inj hread)).2
  exact hsuffix (String.toList_eq_nil_iff.1 hnil.symm)

/-- The descriptor of an array that names a class ends with it. -/
theorem exists_front {text : String} {descriptor : Descriptor}
    (hparse : Descriptor.parse text = .ok descriptor) (hhead : text.toList.head? = some '[')
    (hsemicolon : ';' ∈ text.toList) : ∃ front, text.toList = front ++ [';'] ∧ ';' ∉ front := by
  obtain ⟨type, hreadable, hchars⟩ := exists_field hparse hhead
  rw [hchars] at hsemicolon ⊢
  rcases type with ⟨rank, base | name⟩
  · refine absurd hsemicolon ?_
    cases base <;> simp [FieldType.chars, ElementType.chars, BaseType.letter]
  · refine ⟨List.replicate rank '[' ++ 'L' :: name.toList, ?_, ?_⟩
    · simp [FieldType.chars, ElementType.chars]
    · simpa using (hreadable name rfl).2

theorem withReceiver_eq_ok_iff {owner text received : String} :
    withReceiver owner text = .ok received ↔
      ∃ rest, text = "(" ++ rest ∧ received = "(L" ++ owner ++ ";" ++ rest := by
  constructor
  · intro h
    unfold withReceiver at h
    split at h
    · next rest htext =>
        cases h
        refine ⟨String.ofList rest, ?_, ?_⟩
        · rw [← String.toList_inj, htext]
          simp
        · rw [← String.toList_inj]
          simp
    · cases h
  · rintro ⟨rest, rfl, rfl⟩
    have htext : ("(" ++ rest).toList = '(' :: rest.toList := by simp
    rw [withReceiver, htext]
    refine congrArg Except.ok (String.toList_inj.1 ?_)
    simp

/-- A receiver becomes the first parameter. -/
theorem parse_withReceiver {owner text received : String} {type : MethodType}
    (h : withReceiver owner text = .ok received) (hparse : MethodType.parse text = .ok type)
    (howner : Enclosable owner) :
    MethodType.parse received = .ok ⟨⟨0, .object owner⟩ :: type.parameters, type.result⟩ := by
  obtain ⟨rest, rfl, rfl⟩ := withReceiver_eq_ok_iff.1 h
  obtain ⟨hreadable, htext⟩ := MethodType.parse_eq_ok_iff.1 hparse
  refine MethodType.parse_eq_ok_iff.2 ⟨⟨?_, hreadable.2⟩, ?_⟩
  · refine List.forall_mem_cons.2 ⟨?_, hreadable.1⟩
    rintro name ⟨⟩
    exact howner
  · have hrest : rest.toList = type.parameters.flatMap FieldType.chars ++
        ')' :: MethodType.resultChars type.result := by
      rw [← String.toList_inj, MethodType.text, String.toList_ofList, MethodType.chars_eq,
        String.toList_append] at htext
      exact (List.cons.inj htext).2
    rw [← String.toList_inj, MethodType.text, String.toList_ofList, MethodType.chars_eq]
    simp [hrest, FieldType.chars, ElementType.chars]

/-- A receiver adds its own class to those that a descriptor names. -/
theorem mem_classNames_withReceiver {owner text received : String} {descriptor : Descriptor}
    (h : Descriptor.withReceiver owner text = .ok received)
    (hparse : Descriptor.parse received = .ok descriptor)
    (howner : ';' ∈ owner.toList → ∃ front, owner.toList = front ++ [';'] ∧ ';' ∉ front)
    {name : String} (hname : name ∈ descriptor.classNames) :
    name = owner ∨ ∃ other, Descriptor.parse text = .ok other ∧ name ∈ other.classNames := by
  unfold withReceiver at h
  split at h
  · next rest htext =>
      cases h
      obtain ⟨hreadable, hreceived⟩ := parse_eq_ok_iff.1 hparse
      have hlist : '(' :: 'L' :: (owner.toList ++ ';' :: rest) = descriptor.text.toList := by
        rw [← hreceived]
        simp
      cases descriptor with
      | void => cases hname
      | field type =>
          have hhead := (text_field_ne type).2
          rw [Descriptor.text] at hlist
          rw [← hlist] at hhead
          exact absurd rfl hhead
      | method type =>
          obtain ⟨parameters, result⟩ := type
          rw [Descriptor.text, MethodType.text, String.toList_ofList, MethodType.chars_eq] at hlist
          have hlist := (List.cons.inj hlist).2
          cases parameters with
          | nil => exact absurd (List.cons.inj hlist).1 (by decide)
          | cons first others =>
              rw [List.flatMap_cons, List.append_assoc] at hlist
              obtain ⟨found, rfl, hfound⟩ := FieldType.exists_object hlist.symm
              have hfirst := (hreadable.1 _ List.mem_cons_self found rfl).2
              by_cases hsemicolon : ';' ∈ owner.toList
              · obtain ⟨front, hfront, hnone⟩ := howner hsemicolon
                rw [hfront, List.append_assoc, List.singleton_append] at hfound
                obtain ⟨-, hrest⟩ := split_unique hnone hfirst hfound
                cases others with
                | nil => exact absurd (List.cons.inj hrest).1 (by decide)
                | cons second others =>
                    rw [List.flatMap_cons, List.append_assoc] at hrest
                    exact absurd hrest.symm (second.chars_ne_cons (by simp) _ _)
              · obtain ⟨hsame, hrest⟩ := split_unique hsemicolon hfirst hfound
                have howned : owner = found := String.toList_inj.1 hsame
                rcases List.mem_cons.1 hname with heq | hname
                · exact Or.inl (heq.trans howned.symm)
                · refine Or.inr ⟨.method ⟨others, result⟩, parse_eq_ok_iff.2 ⟨⟨?_, hreadable.2⟩, ?_⟩,
                    hname⟩
                  · exact fun type htype => hreadable.1 type (List.mem_cons_of_mem _ htype)
                  · rw [← String.toList_inj, htext, Descriptor.text, MethodType.text,
                      String.toList_ofList, MethodType.chars_eq, hrest]
  · cases h

end Descriptor

end JarTailor
