import JarTailor.Proofs.ClassFile.Contents
import JarTailor.Proofs.References
import JarTailor.Proofs.TypeUse.Walk

/-!
# The uses of a class in a pool that grew

Constants that are appended to the pool of a class add uses behind those of its kind. When the
attributes of the class and its fields find what they found before, a text that no new constant
uses is used first as before, unless only methods use it.
-/

namespace JarTailor.TypeUse

/-- The members name some types in order. -/
abbrev MembersUse (pool : Pool) (members : List Member) (uses : List (List TypeUse)) : Prop :=
  List.Forall₂ (fun member uses => ofMember pool member = .ok uses) members uses

/-- The uses of a class: after those in its pool, those of the class and its fields, then those of
its methods. -/
structure Lists (classFile : ClassFile) (ofClass : List TypeUse)
    (ofFields ofMethods : List (List TypeUse)) (uses : List TypeUse) : Prop where
  attributes : ofAttributes classFile.pool classFile.attributes = .ok ofClass
  fields : MembersUse classFile.pool classFile.fields ofFields
  methods : MembersUse classFile.pool classFile.methods ofMethods
  uses : uses = ofClassEntries classFile.pool ++ ofDescriptorEntries classFile.pool ++
    (ofClass ++ ofFields.flatten) ++ ofMethods.flatten

theorem lists_of_all {classFile : ClassFile} {uses : List TypeUse}
    (h : all classFile = .ok uses) :
    ∃ ofClass ofFields ofMethods, Lists classFile ofClass ofFields ofMethods uses := by
  obtain ⟨ofClass, hclass, h⟩ := Except.bind_eq_ok_iff.1 h
  obtain ⟨ofMembers, hmembers, h⟩ := Except.bind_eq_ok_iff.1 h
  cases h
  rw [List.mapM_append] at hmembers
  obtain ⟨ofFields, hfields, h⟩ := Except.bind_eq_ok_iff.1 hmembers
  obtain ⟨ofMethods, hmethods, h⟩ := Except.bind_eq_ok_iff.1 h
  cases h
  refine ⟨ofClass, ofFields, ofMethods, hclass, Except.mapM_eq_ok_iff.1 hfields,
    Except.mapM_eq_ok_iff.1 hmethods, ?_⟩
  simp only [List.flatten_append, List.append_assoc]

section Roles

variable {pool : Pool} {use : TypeUse}

theorem mem_ofClassEntries_iff :
    use ∈ ofClassEntries pool ↔
      use.role = .className ∧ .classRef use.index ∈ pool.entries := by
  obtain ⟨index, role⟩ := use
  rw [ofClassEntries, List.mem_filterMap]
  simp only [Array.mem_toList_iff]
  constructor
  · rintro ⟨constant, hconstant, h⟩
    cases constant with
    | classRef name =>
        cases h
        exact ⟨rfl, hconstant⟩
    | _ => cases h
  · rintro ⟨rfl, hconstant⟩
    exact ⟨_, hconstant, rfl⟩

theorem role_of_mem_ofDescriptorEntries (h : use ∈ ofDescriptorEntries pool) :
    use.role = .descriptor := by
  rw [ofDescriptorEntries, List.mem_filterMap] at h
  obtain ⟨constant, -, h⟩ := h
  split at h
  · cases h
    rfl
  · cases h
    rfl
  · cases h

theorem role_of_annotated {name : String} {pending : Annotations.Pending} {input : Bytes}
    {found : Found} (h : annotated name pending input = .ok found) (huse : use ∈ found.1) :
    use.role ≠ .className := by
  obtain ⟨_, -, h⟩ := Except.bind_eq_ok_iff.1 h
  cases h
  obtain ⟨index, -, rfl⟩ := List.mem_map.1 huse
  simp

theorem role_of_localVariables {role : TypeRole} {info : Bytes} {found : Found}
    (h : localVariables role info = .ok found) (hrole : role ≠ .className)
    (huse : use ∈ found.1) : use.role ≠ .className := by
  obtain ⟨_, -, h⟩ := Except.bind_eq_ok_iff.1 h
  obtain ⟨_, -, h⟩ := Except.bind_eq_ok_iff.1 h
  cases h
  obtain ⟨index, -, rfl⟩ := List.mem_map.1 huse
  exact hrole

theorem role_of_inAttribute {entry : Attribute} {found : Found}
    (h : inAttribute pool entry = .ok found) (huse : use ∈ found.1) : use.role ≠ .className := by
  obtain ⟨name, -, h⟩ := Except.bind_eq_ok_iff.1 h
  split at h
  · obtain ⟨_, -, h⟩ := Except.bind_eq_ok_iff.1 h
    cases h
    rw [List.mem_singleton.1 huse]
    simp
  · exact role_of_annotated h huse
  · exact role_of_annotated h huse
  · obtain ⟨_, -, h⟩ := Except.bind_eq_ok_iff.1 h
    exact role_of_annotated h huse
  · obtain ⟨_, -, h⟩ := Except.bind_eq_ok_iff.1 h
    exact role_of_annotated h huse
  · exact role_of_annotated h huse
  · obtain ⟨_, -, h⟩ := Except.bind_eq_ok_iff.1 h
    exact role_of_annotated h huse
  · obtain ⟨_, -, h⟩ := Except.bind_eq_ok_iff.1 h
    exact role_of_annotated h huse
  · obtain ⟨_, -, h⟩ := Except.bind_eq_ok_iff.1 h
    cases h
    cases huse
  · exact role_of_localVariables h (by simp) huse
  · exact role_of_localVariables h (by simp) huse
  · obtain ⟨_, -, h⟩ := Except.bind_eq_ok_iff.1 h
    cases h
    cases huse
  · cases h
    cases huse

theorem role_of_step {part : Part} {found : Found} (h : step pool part = .ok found)
    (huse : use ∈ found.1) : use.role ≠ .className := by
  unfold step at h
  split at h
  · exact role_of_inAttribute h huse
  · cases h
    cases huse
  · obtain ⟨_, -, h⟩ := Except.bind_eq_ok_iff.1 h
    obtain ⟨_, -, h⟩ := Except.bind_eq_ok_iff.1 h
    obtain ⟨_, -, h⟩ := Except.bind_eq_ok_iff.1 h
    cases h
    rw [List.mem_singleton.1 huse]
    simp

/-- No attribute names a type in the way of a class entry. -/
theorem Finds.role {part : Part} (h : Finds pool use part) : use.role ≠ .className := by
  induction h with
  | here hstep huse => exact role_of_step hstep huse
  | inside _ _ _ ih => exact ih

/-- A member uses its descriptor and what its attributes find. -/
theorem mem_ofMember_iff {member : Member} {uses : List TypeUse}
    (h : ofMember pool member = .ok uses) :
    use ∈ uses ↔ use = ⟨member.descriptor, .descriptor⟩ ∨
      ∃ entry ∈ member.attributes, Finds pool use (.inAttribute entry) := by
  obtain ⟨inside, hinside, h⟩ := Except.bind_eq_ok_iff.1 h
  cases h
  rw [List.mem_cons, mem_walk_iff hinside]
  simp

/-- Every part of a member was looked into. -/
theorem exists_step_of_ofMember {member : Member} {uses : List TypeUse}
    (h : ofMember pool member = .ok uses) {entry : Attribute} (hentry : entry ∈ member.attributes)
    {met : Part} (hmet : Meets pool (.inAttribute entry) met) :
    ∃ inside, step pool met = .ok inside := by
  obtain ⟨inside, hinside, -⟩ := Except.bind_eq_ok_iff.1 h
  exact exists_step_of_walk hinside (List.mem_map_of_mem hentry) hmet

theorem role_of_mem_ofMember {member : Member} {uses : List TypeUse}
    (h : ofMember pool member = .ok uses) (huse : use ∈ uses) : use.role ≠ .className := by
  rcases (mem_ofMember_iff h).1 huse with rfl | ⟨entry, -, hfinds⟩
  · simp
  · exact hfinds.role

theorem role_of_mem_flatten {members : List Member} {uses : List (List TypeUse)}
    (h : MembersUse pool members uses) (huse : use ∈ uses.flatten) : use.role ≠ .className := by
  obtain ⟨ofMember, hmem, huse⟩ := List.mem_flatten.1 huse
  obtain ⟨member, -, hmember⟩ := exists_related_left h hmem
  exact role_of_mem_ofMember hmember huse

end Roles

section Members

variable {first second : Pool} {member : Member}

theorem ofMember_congr
    (hnames : ∀ outer ∈ member.attributes, ∀ entry,
      Meets first (.inAttribute outer) (.inAttribute entry) →
        second.text entry.name = first.text entry.name) :
    ofMember second member = ofMember first member := by
  rw [ofMember, ofMember, ofAttributes_congr hnames]

theorem ofMember_extends (hextends : first.Extends second) {uses : List TypeUse}
    (h : ofMember first member = .ok uses) : ofMember second member = .ok uses := by
  obtain ⟨inside, hinside, hdone⟩ := Except.bind_eq_ok_iff.1 h
  cases hdone
  rw [ofMember, ofAttributes_extends hextends hinside]
  rfl

theorem MembersUse.unique {members : List Member} {found found' : List (List TypeUse)}
    (h : MembersUse first members found) (h' : MembersUse first members found') :
    found' = found := by
  rw [MembersUse, ← Except.mapM_eq_ok_iff] at h h'
  exact Except.ok.inj (h'.symm.trans h)

end Members

/-- The text of a class entry is used as such first. -/
theorem first_of_classRef {classFile : ClassFile} {uses : List TypeUse}
    (h : all classFile = .ok uses) {index : Index}
    (hentry : .classRef index ∈ classFile.pool.entries) : First uses ⟨index, .className⟩ := by
  obtain ⟨ofClass, ofFields, ofMethods, hlists⟩ := lists_of_all h
  have hmem : (⟨index, .className⟩ : TypeUse) ∈ ofClassEntries classFile.pool :=
    mem_ofClassEntries_iff.2 ⟨rfl, hentry⟩
  obtain ⟨⟨found, role⟩, hfirst, rfl⟩ := exists_first hmem
  obtain rfl : role = .className := (mem_ofClassEntries_iff.1 hfirst.mem).1
  rw [hlists.uses]
  simp only [first_append_iff]
  exact Or.inl (Or.inl (Or.inl hfirst))

theorem mem_of_mem_ofDescriptorEntries {classFile : ClassFile} {uses : List TypeUse}
    (h : all classFile = .ok uses) {use : TypeUse}
    (huse : use ∈ ofDescriptorEntries classFile.pool) : use ∈ uses := by
  obtain ⟨ofClass, ofFields, ofMethods, hlists⟩ := lists_of_all h
  rw [hlists.uses]
  exact List.mem_append_left _ (List.mem_append_left _ (List.mem_append_right _ huse))

/-- The descriptor of a name and type is used as one. -/
theorem mem_of_nameAndType {classFile : ClassFile} {uses : List TypeUse}
    (h : all classFile = .ok uses) {name index : Index}
    (hentry : .nameAndType name index ∈ classFile.pool.entries) :
    ⟨index, .descriptor⟩ ∈ uses :=
  mem_of_mem_ofDescriptorEntries h (List.mem_filterMap.2 ⟨_, Array.mem_toList_iff.2 hentry, rfl⟩)

theorem mem_of_methodType {classFile : ClassFile} {uses : List TypeUse}
    (h : all classFile = .ok uses) {index : Index}
    (hentry : .methodType index ∈ classFile.pool.entries) : ⟨index, .descriptor⟩ ∈ uses :=
  mem_of_mem_ofDescriptorEntries h (List.mem_filterMap.2 ⟨_, Array.mem_toList_iff.2 hentry, rfl⟩)

/-- The descriptor of a field or method is used as one. -/
theorem mem_of_member {classFile : ClassFile} {uses : List TypeUse}
    (h : all classFile = .ok uses) {member : Member}
    (hmember : member ∈ classFile.fields ++ classFile.methods) :
    ⟨member.descriptor, .descriptor⟩ ∈ uses := by
  obtain ⟨ofClass, ofFields, ofMethods, hlists⟩ := lists_of_all h
  obtain ⟨ofMember, hmem, hofMember⟩ :=
    exists_related_right (List.rel_append hlists.fields hlists.methods) hmember
  have huse : (⟨member.descriptor, .descriptor⟩ : TypeUse) ∈
      ofFields.flatten ++ ofMethods.flatten := by
    rw [← List.flatten_append]
    exact List.mem_flatten.2 ⟨ofMember, hmem, (mem_ofMember_iff hofMember).2 (Or.inl rfl)⟩
  rw [hlists.uses]
  rcases List.mem_append.1 huse with huse | huse
  · exact List.mem_append_left _ (List.mem_append_right _ (List.mem_append_right _ huse))
  · exact List.mem_append_right _ huse

/-- Only class entries are used in their way. -/
theorem classRef_of_role {classFile : ClassFile} {uses : List TypeUse}
    (h : all classFile = .ok uses) {use : TypeUse} (huse : use ∈ uses)
    (hrole : use.role = .className) : .classRef use.index ∈ classFile.pool.entries := by
  obtain ⟨ofClass, ofFields, ofMethods, hlists⟩ := lists_of_all h
  rw [hlists.uses] at huse
  rcases List.mem_append.1 huse with huse | huse
  · rcases List.mem_append.1 huse with huse | huse
    · rcases List.mem_append.1 huse with huse | huse
      · exact (mem_ofClassEntries_iff.1 huse).2
      · rw [role_of_mem_ofDescriptorEntries huse] at hrole
        cases hrole
    · rcases List.mem_append.1 huse with huse | huse
      · obtain huse | ⟨part, hpart, hfinds⟩ := (mem_walk_iff hlists.attributes).1 huse
        · cases huse
        · exact absurd hrole hfinds.role
      · exact absurd hrole (role_of_mem_flatten hlists.fields huse)
  · exact absurd hrole (role_of_mem_flatten hlists.methods huse)

section Growth

variable {classes descriptors : String → Prop} {before after : Pool}

theorem exists_new_classEntries (h : Pool.Gains classes descriptors before after) :
    ∃ new, ofClassEntries after = ofClassEntries before ++ new ∧ ∀ use ∈ new,
      use.role = .className ∧ ∃ text, after.text use.index = .ok text ∧ classes text := by
  obtain ⟨added, hentries, hadds⟩ := h.added
  refine ⟨_, by rw [ofClassEntries, hentries, List.filterMap_append]; rfl, ?_⟩
  intro use huse
  obtain ⟨constant, hconstant, h⟩ := List.mem_filterMap.1 huse
  cases constant with
  | classRef name =>
      cases h
      exact ⟨rfl, hadds _ hconstant⟩
  | _ => cases h

theorem exists_new_descriptorEntries (h : Pool.Gains classes descriptors before after) :
    ∃ new, ofDescriptorEntries after = ofDescriptorEntries before ++ new ∧ ∀ use ∈ new,
      use.role = .descriptor ∧ ∃ text, after.text use.index = .ok text ∧ descriptors text := by
  obtain ⟨added, hentries, hadds⟩ := h.added
  refine ⟨_, by rw [ofDescriptorEntries, hentries, List.filterMap_append]; rfl, ?_⟩
  intro use huse
  obtain ⟨constant, hconstant, h⟩ := List.mem_filterMap.1 huse
  have hadd := hadds constant hconstant
  cases constant with
  | nameAndType name descriptor =>
      cases h
      exact ⟨rfl, hadd⟩
  | methodType descriptor => exact hadd.elim
  | _ => cases h

/-- A use that comes first in a front that others were put into is new there, or the first as
before. -/
theorem First.of_front {classes newClasses descriptors newDescriptors steady varying :
    List TypeUse} {use : TypeUse} (other : List TypeUse)
    (h : First (classes ++ newClasses ++ (descriptors ++ newDescriptors) ++ steady ++ varying)
      use) :
    use ∈ newClasses ∨ use ∈ newDescriptors ∨
      First (classes ++ descriptors ++ steady ++ other) use ∨ First varying use ∧
        ∀ old ∈ classes ++ descriptors ++ steady, old.index ≠ use.index := by
  have hfront : ∀ {front back : List TypeUse}, (∀ old ∈ front ++ back, old.index ≠ use.index) →
      ∀ old ∈ front, old.index ≠ use.index :=
    fun hall old hold => hall old (List.mem_append_left _ hold)
  have hback : ∀ {front back : List TypeUse}, (∀ old ∈ front ++ back, old.index ≠ use.index) →
      ∀ old ∈ back, old.index ≠ use.index :=
    fun hall old hold => hall old (List.mem_append_right _ hold)
  simp only [first_append_iff] at h ⊢
  rcases h with (((hfirst | ⟨hnew, -⟩) | ⟨hfirst | ⟨hnew, -⟩, hold⟩) | ⟨hfirst, hold⟩) |
    ⟨hfirst, hold⟩
  · exact Or.inr (Or.inr (Or.inl (Or.inl (Or.inl (Or.inl hfirst)))))
  · exact Or.inl hnew.mem
  · exact Or.inr (Or.inr (Or.inl (Or.inl (Or.inl (Or.inr ⟨hfirst, hfront hold⟩)))))
  · exact Or.inr (Or.inl hnew.mem)
  · refine Or.inr (Or.inr (Or.inl (Or.inl (Or.inr ⟨hfirst, ?_⟩))))
    intro old hmem
    rcases List.mem_append.1 hmem with hmem | hmem
    · exact hfront (hfront hold) old hmem
    · exact hfront (hback hold) old hmem
  · refine Or.inr (Or.inr (Or.inr ⟨hfirst, ?_⟩))
    intro old hmem
    rcases List.mem_append.1 hmem with hmem | hmem
    · rcases List.mem_append.1 hmem with hmem | hmem
      · exact hfront (hfront (hfront hold)) old hmem
      · exact hfront (hback (hfront hold)) old hmem
    · exact hback hold old hmem

end Growth

end JarTailor.TypeUse
