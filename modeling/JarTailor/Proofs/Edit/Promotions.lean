import JarTailor.Edit.Promotions
import JarTailor.Proofs.ClassFile.Contents
import JarTailor.Proofs.Success

/-!
# What promoting changes

Promoting changes flags, those of records of nested classes included, and nothing else. The pool
stays, and no attribute gets longer.
-/

namespace JarTailor.Promotions

/-- The second member is the first with the same or other flags. -/
def SameButFlags (before after : Member) : Prop :=
  ∃ flags, after = { before with flags }

/-- The second attribute is the first, or the first with other records of nested classes. -/
def Rerecords (pool : Pool) (before after : Attribute) : Prop :=
  after = before ∨ before.isNamed pool "InnerClasses" = true ∧ after.name = before.name ∧
    after.info.length ≤ before.info.length

structure Promoted (before after : ClassFile) : Prop where
  fields : List.Forall₂ SameButFlags before.fields after.fields
  methods : List.Forall₂ SameButFlags before.methods after.methods
  attributes : List.Forall₂ (Rerecords before.pool) before.attributes after.attributes
  others : after = { before with
    flags := after.flags, fields := after.fields, methods := after.methods
    attributes := after.attributes }

theorem sameButFlags_of_members {specs : List MemberSpec} {owner : String} {pool : Pool}
    {before after : List Member} (h : members specs owner pool before = .ok after) :
    List.Forall₂ SameButFlags before after := by
  refine (Except.mapM_eq_ok_iff.1 h).imp fun found changed hmember => ?_
  obtain ⟨selected, -, hmember⟩ := Except.bind_eq_ok_iff.1 hmember
  cases selected with
  | true => exact ⟨_, (Except.ok.inj hmember).symm⟩
  | false => exact ⟨found.flags, (Except.ok.inj hmember).symm⟩

/-- What becomes of a class attribute: it stays if it holds no records of nested classes or if none
of them changes, and else they are written anew. -/
inductive Promotes (classes : NameSet) (pool : Pool) (entry : Attribute) : Attribute → Prop
  | other (hnamed : entry.isNamed pool "InnerClasses" = false) : Promotes classes pool entry entry
  | same {records : List InnerClass} (hrecords : InnerClass.decodeList entry.info = .ok records)
      (hsame : records.mapM (record classes pool) = .ok records) :
      Promotes classes pool entry entry
  | anew {records promoted : List InnerClass}
      (hnamed : entry.isNamed pool "InnerClasses" = true)
      (hrecords : InnerClass.decodeList entry.info = .ok records)
      (hpromoted : records.mapM (record classes pool) = .ok promoted) (hne : promoted ≠ records) :
      Promotes classes pool entry { entry with info := InnerClass.encodeList promoted }

theorem promotes_of_attributeOf {classes : NameSet} {pool : Pool} {before after : Attribute}
    {changed : Bool} (h : attributeOf classes pool before = .ok (after, changed)) :
    Promotes classes pool before after := by
  unfold attributeOf at h
  split at h
  · next hnamed =>
      cases h
      exact .other (by simpa using hnamed)
  · next hnamed =>
      rw [Bool.not_eq_true, Bool.not_eq_false'] at hnamed
      obtain ⟨records, hrecords, h⟩ := Except.bind_eq_ok_iff.1 h
      obtain ⟨promoted, hpromoted, h⟩ := Except.bind_eq_ok_iff.1 h
      split at h
      · next hsame =>
          cases h
          exact .same hrecords (hsame ▸ hpromoted)
      · next hne =>
          cases h
          exact .anew hnamed hrecords hpromoted hne

theorem Promotes.rerecords {classes : NameSet} {pool : Pool} {before after : Attribute}
    (h : Promotes classes pool before after) : Rerecords pool before after := by
  cases h with
  | other _ => exact Or.inl rfl
  | same _ _ => exact Or.inl rfl
  | @anew records promoted hnamed hrecords hpromoted _ =>
      have hcount : promoted.length = records.length :=
        (Except.mapM_eq_ok_iff.1 hpromoted).length_eq.symm
      refine Or.inr ⟨hnamed, rfl, ?_⟩
      calc (InnerClass.encodeList promoted).length
          = (InnerClass.encodeList records).length := by
            rw [InnerClass.length_encodeList, InnerClass.length_encodeList, hcount]
        _ ≤ before.info.length := InnerClass.length_of_decodeList hrecords

theorem classes_of_isEmpty {promotions : Promotions} (h : promotions.isEmpty = true)
    (name : String) : name ∉ promotions.classes := by
  simp only [isEmpty, Bool.and_eq_true] at h
  rw [Std.ExtTreeSet.isEmpty_iff.1 h.1.1]
  exact Std.ExtTreeSet.not_mem_empty

theorem apply_of_isEmpty {promotions : Promotions} (h : promotions.isEmpty = true)
    (classFile : ClassFile) : (promotions.apply classFile).result = .ok (classFile, false) := by
  rw [apply, if_pos h]
  rfl

/-- What a run with something to promote gives, apart from what it logs. -/
theorem result_apply {promotions : Promotions} (hsome : promotions.isEmpty = false)
    (classFile : ClassFile) : (promotions.apply classFile).result = (do
      let owner ← classFile.name
      let flags := if promotions.classes.contains owner then classFile.flags.promote
        else classFile.flags
      let fields ← members promotions.fields owner classFile.pool classFile.fields
      let methods ← members promotions.methods owner classFile.pool classFile.methods
      let attributes ← attributesOf promotions.classes classFile.pool classFile.attributes
      return ({ classFile with flags, fields, methods, attributes := attributes.map Prod.fst },
        flags ≠ classFile.flags || fields ≠ classFile.fields || methods ≠ classFile.methods ||
          attributes.any Prod.snd)) := by
  rw [apply, if_neg (ne_true_of_eq_false hsome)]
  simp only [Traced.result_bind, Traced.result_monadLift]
  refine bind_congr fun owner => ?_
  split <;> simp only [Traced.result_bind, Traced.result_monadLift, result_log] <;> rfl

/-- A run without anything to promote leaves the class, any other goes through all its parts. -/
theorem apply_eq_ok {promotions : Promotions} {before after : ClassFile} {changed : Bool}
    (h : (promotions.apply before).result = .ok (after, changed)) :
    (promotions.isEmpty = true ∧ after = before) ∨ ∃ owner flags fields methods attributes,
      members promotions.fields owner before.pool before.fields = .ok fields ∧
      members promotions.methods owner before.pool before.methods = .ok methods ∧
      attributesOf promotions.classes before.pool before.attributes = .ok attributes ∧
      after = { before with flags, fields, methods, attributes := attributes.map Prod.fst } ∧
      changed = (flags ≠ before.flags || fields ≠ before.fields || methods ≠ before.methods ||
        attributes.any Prod.snd) := by
  cases hempty : promotions.isEmpty with
  | true =>
      rw [apply_of_isEmpty hempty] at h
      cases h
      exact Or.inl ⟨rfl, rfl⟩
  | false =>
      rw [result_apply hempty] at h
      obtain ⟨owner, -, h⟩ := Except.bind_eq_ok_iff.1 h
      obtain ⟨fields, hfields, h⟩ := Except.bind_eq_ok_iff.1 h
      obtain ⟨methods, hmethods, h⟩ := Except.bind_eq_ok_iff.1 h
      obtain ⟨attributes, hattributes, h⟩ := Except.bind_eq_ok_iff.1 h
      cases h
      exact Or.inr ⟨owner, _, fields, methods, attributes, hfields, hmethods, hattributes, rfl, rfl⟩

theorem promotes_of_attributesOf {classes : NameSet} {pool : Pool} {before : List Attribute}
    {after : List (Attribute × Bool)} (h : attributesOf classes pool before = .ok after) :
    List.Forall₂ (Promotes classes pool) before (after.map Prod.fst) := by
  rw [List.forall₂_map_right_iff]
  exact (Except.mapM_eq_ok_iff.1 h).imp fun _ _ => promotes_of_attributeOf

theorem promoted_of_apply {promotions : Promotions} {before after : ClassFile} {changed : Bool}
    (h : (promotions.apply before).result = .ok (after, changed)) : Promoted before after := by
  rcases apply_eq_ok h with ⟨-, rfl⟩ |
    ⟨owner, flags, fields, methods, attributes, hfields, hmethods, hattributes, rfl, -⟩
  · refine ⟨List.forall₂_same.2 ?_, List.forall₂_same.2 ?_, List.forall₂_same.2 ?_, rfl⟩
    · exact fun member _ => ⟨member.flags, rfl⟩
    · exact fun member _ => ⟨member.flags, rfl⟩
    · exact fun _ _ => Or.inl rfl
  · exact ⟨sameButFlags_of_members hfields, sameButFlags_of_members hmethods,
      (promotes_of_attributesOf hattributes).imp fun _ _ => Promotes.rerecords, rfl⟩

end JarTailor.Promotions
