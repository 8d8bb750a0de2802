import JarTailor.Proofs.Edit.Promotions
import Mathlib

/-!
# What becomes public

Promoting makes the listed classes, the selected members and the records of listed classes public,
and leaves all other flags and everything else as they are. It tells whether any flags changed, and
done again it changes none.
-/

namespace JarTailor

namespace AccessFlags

/-- The public flag, bit 0, is set, the private and the protected one, bits 1 and 2, are cleared,
and every other flag is as it was. -/
def MadePublic (before after : AccessFlags) : Prop :=
  ∀ bit, after.toNat.testBit bit =
    (decide (bit = 0) || before.toNat.testBit bit && decide (bit ≠ 1 ∧ bit ≠ 2))

theorem madePublic_promote (flags : AccessFlags) : flags.MadePublic flags.promote := by
  have hpublic : ∀ bit < 16, publicBit.toBitVec.getLsbD bit = decide (bit = 0) := by decide
  have hothers : ∀ bit < 16, (privateBit ||| protectedBit).toBitVec.getLsbD bit =
      decide (bit = 1 ∨ bit = 2) := by decide
  intro bit
  change flags.promote.toBitVec.toNat.testBit bit =
    (_ || flags.toBitVec.toNat.testBit bit && _)
  rw [BitVec.testBit_toNat, BitVec.testBit_toNat, promote, UInt16.toBitVec_or, UInt16.toBitVec_and,
    UInt16.toBitVec_not, BitVec.getLsbD_or, BitVec.getLsbD_and, BitVec.getLsbD_not]
  by_cases hbit : bit < 16
  · rw [hpublic bit hbit, hothers bit hbit]
    simp [hbit, Bool.or_comm]
  · have hbeyond : ∀ word : BitVec 16, word.getLsbD bit = false := fun word =>
      BitVec.getLsbD_of_ge word bit (Nat.le_of_not_lt hbit)
    have hzero : bit ≠ 0 := by omega
    simp [hbeyond, hzero]

theorem promote_promote (flags : AccessFlags) : flags.promote.promote = flags.promote := by
  refine UInt16.toNat_inj.1 (Nat.eq_of_testBit_eq fun bit => ?_)
  rw [madePublic_promote flags.promote bit, madePublic_promote flags bit]
  cases decide (bit = 0) <;> cases decide (bit ≠ 1 ∧ bit ≠ 2) <;> simp

theorem promote_ite_again (chosen : Bool) (flags : AccessFlags) :
    (if chosen then (if chosen then flags.promote else flags).promote
      else if chosen then flags.promote else flags) =
      if chosen then flags.promote else flags := by
  cases chosen with
  | true => exact flags.promote_promote
  | false => rfl

end AccessFlags

namespace Promotions

/-- Chosen flags become public, others stay as they are. -/
def Sets (chosen : Prop) (before after : AccessFlags) : Prop :=
  (chosen → before.MadePublic after) ∧ (¬chosen → after = before)

theorem sets_of_not {chosen : Prop} (h : ¬chosen) (flags : AccessFlags) : Sets chosen flags flags :=
  ⟨fun hchosen => absurd hchosen h, fun _ => rfl⟩

theorem sets_ite {chosen : Prop} {decided : Bool} (h : decided = true ↔ chosen)
    (flags : AccessFlags) : Sets chosen flags (if decided then flags.promote else flags) := by
  cases decided with
  | true => exact ⟨fun _ => flags.madePublic_promote, fun hnot => absurd (h.1 rfl) hnot⟩
  | false => exact ⟨fun hchosen => absurd (h.2 hchosen) Bool.false_ne_true, fun _ => rfl⟩

def ListsClass (promotions : Promotions) (classFile : ClassFile) : Prop :=
  ∃ owner ∈ promotions.classes, classFile.name = .ok owner

/-- Some spec is about the class and has the member's name and, if it says one, its descriptor. -/
def ListsMember (specs : List MemberSpec) (classFile : ClassFile) (member : Member) : Prop :=
  ∃ owner name descriptor, classFile.name = .ok owner ∧
    classFile.pool.text member.name = .ok name ∧
      classFile.pool.text member.descriptor = .ok descriptor ∧
        ∃ spec ∈ specs, spec.owner = owner ∧ spec.name = name ∧
          ∀ wanted ∈ spec.descriptor, wanted = descriptor

/-- The record is about a listed class. -/
def ListsRecord (classes : NameSet) (pool : Pool) (record : InnerClass) : Prop :=
  ∃ name ∈ classes, pool.className record.inner = .ok name

/-- What becomes of a member: its flags may change, and nothing else. -/
structure MemberPublic (specs : List MemberSpec) (classFile : ClassFile) (old new : Member) :
    Prop where
  others : new = { old with flags := new.flags }
  flags : Sets (ListsMember specs classFile old) old.flags new.flags

/-- What becomes of a record of a nested class. -/
structure RecordPublic (classes : NameSet) (pool : Pool) (old new : InnerClass) : Prop where
  others : new = { old with flags := new.flags }
  flags : Sets (ListsRecord classes pool old) old.flags new.flags

/-- What becomes of an attribute. If no record changes, the bytes stay. -/
structure RecordsPublic (classes : NameSet) (pool : Pool) (before after : Attribute) : Prop where
  name : after.name = before.name
  others : before.isNamed pool "InnerClasses" = false → after = before
  records : before.isNamed pool "InnerClasses" = true → ∀ records,
    InnerClass.decodeList before.info = .ok records → ∃ promoted,
      InnerClass.decodeList after.info = .ok promoted ∧
        List.Forall₂ (RecordPublic classes pool) records promoted
  unchanged : (∀ records, InnerClass.decodeList before.info = .ok records →
    InnerClass.decodeList after.info = .ok records) → after = before

/-- What becomes of a class. -/
structure MakesPublic (promotions : Promotions) (before after : ClassFile) : Prop where
  flags : Sets (promotions.ListsClass before) before.flags after.flags
  fields : List.Forall₂ (MemberPublic promotions.fields before) before.fields after.fields
  methods : List.Forall₂ (MemberPublic promotions.methods before) before.methods after.methods
  attributes : List.Forall₂ (RecordsPublic promotions.classes before.pool)
    before.attributes after.attributes
  others : after = { before with
    flags := after.flags, fields := after.fields, methods := after.methods
    attributes := after.attributes }

section Members

variable {specs : List MemberSpec} {owner : String} {before after : Member}

theorem selects_eq_ok_iff {pool : Pool} {chosen : Bool}
    (h : selects specs owner pool before = .ok chosen) :
    chosen = true ↔ ∃ name descriptor, pool.text before.name = .ok name ∧
      pool.text before.descriptor = .ok descriptor ∧
        ∃ spec ∈ specs, spec.owner = owner ∧ spec.name = name ∧
          ∀ wanted ∈ spec.descriptor, wanted = descriptor := by
  unfold selects at h
  split at h
  · next hempty =>
      cases h
      rw [List.isEmpty_iff] at hempty
      subst hempty
      simp
  · obtain ⟨name, hname, h⟩ := Except.bind_eq_ok_iff.1 h
    obtain ⟨descriptor, hdescriptor, h⟩ := Except.bind_eq_ok_iff.1 h
    cases h
    simp only [hname, hdescriptor, Except.ok.injEq, List.any_eq_true, MemberSpec.selects_iff]
    simp

theorem memberPublic_of_member {classFile : ClassFile} (howner : classFile.name = .ok owner)
    (h : member specs owner classFile.pool before = .ok after) :
    MemberPublic specs classFile before after := by
  obtain ⟨chosen, hchosen, h⟩ := Except.bind_eq_ok_iff.1 h
  have hlists : chosen = true ↔ ListsMember specs classFile before := by
    simp only [selects_eq_ok_iff hchosen, ListsMember, howner, Except.ok.injEq]
    simp
  have hafter : after = { before with
      flags := if chosen then before.flags.promote else before.flags } := by
    cases chosen <;> exact (Except.ok.inj h).symm
  subst hafter
  exact ⟨rfl, sets_ite hlists before.flags⟩

theorem member_again {pool : Pool} (h : member specs owner pool before = .ok after) :
    member specs owner pool after = .ok after := by
  obtain ⟨chosen, hchosen, h⟩ := Except.bind_eq_ok_iff.1 h
  cases chosen with
  | true =>
      cases h
      refine Except.bind_eq_ok_iff.2 ⟨true, hchosen, ?_⟩
      show Except.ok { before with flags := before.flags.promote.promote } = _
      rw [AccessFlags.promote_promote]
  | false =>
      cases h
      exact Except.bind_eq_ok_iff.2 ⟨false, hchosen, rfl⟩

end Members

section Records

variable {classes : NameSet} {pool : Pool}

theorem recordPublic_of_record {before after : InnerClass}
    (h : record classes pool before = .ok after) : RecordPublic classes pool before after := by
  obtain ⟨name, hname, h⟩ := Except.bind_eq_ok_iff.1 h
  have hlists : classes.contains name = true ↔ ListsRecord classes pool before := by
    simp only [ListsRecord, hname, Except.ok.injEq, Std.ExtTreeSet.contains_iff_mem]
    simp
  have hafter : after = { before with
      flags := if classes.contains name then before.flags.promote else before.flags } := by
    split at h
    · next hmem =>
        rw [if_pos hmem]
        exact (Except.ok.inj h).symm
    · next hmem =>
        rw [if_neg hmem]
        exact (Except.ok.inj h).symm
  subst hafter
  exact ⟨rfl, sets_ite hlists before.flags⟩

theorem recordPublic_of_mapM {records promoted : List InnerClass}
    (h : records.mapM (record classes pool) = .ok promoted) :
    List.Forall₂ (RecordPublic classes pool) records promoted :=
  (Except.mapM_eq_ok_iff.1 h).imp fun _ _ => recordPublic_of_record

theorem record_again {before after : InnerClass} (h : record classes pool before = .ok after) :
    record classes pool after = .ok after := by
  obtain ⟨name, hname, h⟩ := Except.bind_eq_ok_iff.1 h
  split at h
  · next hmem =>
      cases h
      refine Except.bind_eq_ok_iff.2 ⟨name, hname, ?_⟩
      rw [if_pos hmem]
      show Except.ok { before with flags := before.flags.promote.promote } = _
      rw [AccessFlags.promote_promote]
  · next hmem =>
      cases h
      refine Except.bind_eq_ok_iff.2 ⟨name, hname, ?_⟩
      rw [if_neg hmem]
      rfl

/-- Records that were written anew are read as they are. -/
theorem decodeList_encodeList {info : Bytes} {records promoted : List InnerClass}
    (h : InnerClass.decodeList info = .ok records)
    (hpromoted : records.mapM (record classes pool) = .ok promoted) :
    InnerClass.decodeList (InnerClass.encodeList promoted) = .ok promoted := by
  refine InnerClass.decodeList_eq_ok_iff.2 ⟨?_, [], (List.append_nil _).symm⟩
  rw [← (Except.mapM_eq_ok_iff.1 hpromoted).length_eq]
  exact (InnerClass.decodeList_eq_ok_iff.1 h).1

variable {before after : Attribute}

theorem Promotes.recordsPublic (h : Promotes classes pool before after) :
    RecordsPublic classes pool before after := by
  cases h with
  | other hnamed =>
      refine ⟨rfl, fun _ => rfl, fun hother => ?_, fun _ => rfl⟩
      rw [hnamed] at hother
      cases hother
  | @same records hrecords hsame =>
      refine ⟨rfl, fun _ => rfl, fun _ found hfound => ?_, fun _ => rfl⟩
      obtain rfl : records = found := Except.ok.inj (hrecords.symm.trans hfound)
      exact ⟨records, hrecords, recordPublic_of_mapM hsame⟩
  | @anew records promoted hnamed hrecords hpromoted hne =>
      have hread := decodeList_encodeList hrecords hpromoted
      refine ⟨rfl, fun hother => ?_, fun _ found hfound => ?_, fun hsame => ?_⟩
      · rw [hnamed] at hother
        cases hother
      · obtain rfl : records = found := Except.ok.inj (hrecords.symm.trans hfound)
        exact ⟨promoted, hread, recordPublic_of_mapM hpromoted⟩
      · exact absurd (Except.ok.inj (hread.symm.trans (hsame records hrecords))) hne

theorem Promotes.again (h : Promotes classes pool before after) :
    attributeOf classes pool after = .ok (after, false) := by
  have hread {entry : Attribute} {records : List InnerClass}
      (hrecords : InnerClass.decodeList entry.info = .ok records)
      (hsame : records.mapM (record classes pool) = .ok records) :
      attributeOf classes pool entry = .ok (entry, false) := by
    unfold attributeOf
    split
    · rfl
    · refine Except.bind_eq_ok_iff.2 ⟨records, hrecords,
        Except.bind_eq_ok_iff.2 ⟨records, hsame, ?_⟩⟩
      rw [if_pos rfl]
      rfl
  cases h with
  | other hnamed =>
      rw [attributeOf, hnamed]
      rfl
  | same hrecords hsame => exact hread hrecords hsame
  | anew _ hrecords hpromoted _ =>
      exact hread (decodeList_encodeList hrecords hpromoted)
        (Except.mapM_again hpromoted fun _ _ => record_again)

theorem attributesOf_again {before : List Attribute} {after : List (Attribute × Bool)}
    (h : attributesOf classes pool before = .ok after) :
    attributesOf classes pool (after.map Prod.fst) =
      .ok (after.map fun result => (result.1, false)) := by
  refine Except.mapM_eq_ok_iff.2 ?_
  rw [List.forall₂_map_left_iff, List.forall₂_map_right_iff, List.forall₂_same]
  intro result hresult
  obtain ⟨entry, -, hentry⟩ := exists_related_left (Except.mapM_eq_ok_iff.1 h) hresult
  exact (promotes_of_attributeOf hentry).again

/-- The flags of the records of nested classes an attribute holds. -/
def recordFlags (pool : Pool) (entry : Attribute) : List AccessFlags :=
  if entry.isNamed pool "InnerClasses" then
    ((InnerClass.decodeList entry.info).toOption.getD []).map InnerClass.flags
  else []

theorem recordFlags_of_decodeList {entry : Attribute} {records : List InnerClass}
    (hnamed : entry.isNamed pool "InnerClasses" = true)
    (h : InnerClass.decodeList entry.info = .ok records) :
    recordFlags pool entry = records.map InnerClass.flags := by
  rw [recordFlags, if_pos hnamed, h]
  rfl

end Records

theorem recordFlags_eq_iff {classes : NameSet} {pool : Pool} {before : Attribute}
    {after : Attribute × Bool} (h : attributeOf classes pool before = .ok after) :
    after.2 = false ↔ recordFlags pool after.1 = recordFlags pool before := by
  unfold attributeOf at h
  split at h
  · cases h
    simp
  · next hnamed =>
      rw [Bool.not_eq_true, Bool.not_eq_false'] at hnamed
      obtain ⟨records, hrecords, h⟩ := Except.bind_eq_ok_iff.1 h
      obtain ⟨promoted, hpromoted, h⟩ := Except.bind_eq_ok_iff.1 h
      have hchanges : promoted.map InnerClass.flags = records.map InnerClass.flags ↔
          promoted = records :=
        map_eq_map_iff (recordPublic_of_mapM hpromoted) fun old new hpublic hflags => by
          rw [hpublic.others, hflags]
      split at h
      · cases h
        simp
      · next hne =>
          cases h
          have hanew : recordFlags pool { before with info := InnerClass.encodeList promoted } =
              promoted.map InnerClass.flags :=
            recordFlags_of_decodeList hnamed (decodeList_encodeList hrecords hpromoted)
          rw [hanew, recordFlags_of_decodeList hnamed hrecords, hchanges]
          simp [hne]

theorem recordFlags_of_attributesOf {classes : NameSet} {pool : Pool} {before : List Attribute}
    {after : List (Attribute × Bool)} (h : attributesOf classes pool before = .ok after) :
    after.any Prod.snd = false ↔
      (after.map Prod.fst).map (recordFlags pool) = before.map (recordFlags pool) := by
  have hentries := Except.mapM_eq_ok_iff.1 h
  clear h
  induction hentries with
  | nil => simp
  | cons hhead _ ih =>
      simp only [List.any_cons, Bool.or_eq_false_iff, recordFlags_eq_iff hhead, ih, List.map_cons,
        List.cons.injEq]

/-- All flags of a class: its own, those of its members and, attribute by attribute, those of its
records of nested classes. -/
structure FlagWords where
  own : AccessFlags
  fields : List AccessFlags
  methods : List AccessFlags
  records : List (List AccessFlags)

def flagWords (classFile : ClassFile) : FlagWords where
  own := classFile.flags
  fields := classFile.fields.map Member.flags
  methods := classFile.methods.map Member.flags
  records := classFile.attributes.map (recordFlags classFile.pool)

theorem memberPublic_of_members {specs : List MemberSpec} {owner : String} {classFile : ClassFile}
    {before after : List Member} (howner : classFile.name = .ok owner)
    (h : members specs owner classFile.pool before = .ok after) :
    List.Forall₂ (MemberPublic specs classFile) before after :=
  (Except.mapM_eq_ok_iff.1 h).imp fun _ _ => memberPublic_of_member howner

theorem members_flags_iff {specs : List MemberSpec} {owner : String} {pool : Pool}
    {before after : List Member} (h : members specs owner pool before = .ok after) :
    after.map Member.flags = before.map Member.flags ↔ after = before := by
  refine map_eq_map_iff (sameButFlags_of_members h) fun old new hnew hflags => ?_
  obtain ⟨flags, rfl⟩ := hnew
  obtain rfl : flags = old.flags := hflags
  rfl

theorem makesPublic_of_isEmpty {promotions : Promotions} (h : promotions.isEmpty = true)
    (classFile : ClassFile) : MakesPublic promotions classFile classFile := by
  have hclass := classes_of_isEmpty h
  simp only [isEmpty, Bool.and_eq_true, List.isEmpty_iff] at h
  obtain ⟨⟨-, hfields⟩, hmethods⟩ := h
  have hown : ¬promotions.ListsClass classFile := by
    rintro ⟨owner, howner, -⟩
    exact hclass owner howner
  have hmember {specs : List MemberSpec} (hspecs : specs = []) (member : Member) :
      ¬ListsMember specs classFile member := by
    rintro ⟨-, -, -, -, -, -, spec, hspec, -⟩
    rw [hspecs] at hspec
    exact absurd hspec List.not_mem_nil
  have hrecord (record : InnerClass) : ¬ListsRecord promotions.classes classFile.pool record := by
    rintro ⟨name, hname, -⟩
    exact hclass name hname
  refine ⟨sets_of_not hown _,
    List.forall₂_same.2 fun member _ => ⟨rfl, sets_of_not (hmember hfields member) _⟩,
    List.forall₂_same.2 fun member _ => ⟨rfl, sets_of_not (hmember hmethods member) _⟩,
    List.forall₂_same.2 fun entry _ => ⟨rfl, fun _ => rfl, fun _ records hrecords => ?_,
      fun _ => rfl⟩, rfl⟩
  exact ⟨records, hrecords,
    List.forall₂_same.2 fun record _ => ⟨rfl, sets_of_not (hrecord record) _⟩⟩

section Runs

variable {promotions : Promotions} {before : ClassFile} {owner : String}
  {fields methods : List Member} {attributes : List (Attribute × Bool)}
  (hfields : members promotions.fields owner before.pool before.fields = .ok fields)
  (hmethods : members promotions.methods owner before.pool before.methods = .ok methods)
  (hattributes : attributesOf promotions.classes before.pool before.attributes = .ok attributes)
include hfields hmethods hattributes

theorem flagWords_ne_iff (flags : AccessFlags) :
    (flags ≠ before.flags || fields ≠ before.fields || methods ≠ before.methods ||
      attributes.any Prod.snd) = true ↔
        flagWords { before with flags, fields, methods, attributes := attributes.map Prod.fst } ≠
          flagWords before := by
  rw [← not_iff_not, not_not, Bool.not_eq_true, flagWords, flagWords, FlagWords.mk.injEq,
    members_flags_iff hfields, members_flags_iff hmethods,
    ← recordFlags_of_attributesOf hattributes]
  simp [and_assoc]

theorem result_apply_again (hsome : promotions.isEmpty = false) (howner : before.name = .ok owner)
    {after : ClassFile} (hafter : after = { before with
      flags := if promotions.classes.contains owner then before.flags.promote else before.flags
      fields, methods, attributes := attributes.map Prod.fst }) :
    (promotions.apply after).result = .ok (after, false) := by
  have hquiet : (attributes.map fun result => (result.1, false)).any Prod.snd = false := by
    simp
  have hsame : (attributes.map fun result => (result.1, false)).map Prod.fst =
      attributes.map Prod.fst := by
    simp
  subst hafter
  rw [result_apply hsome]
  refine Except.bind_eq_ok_iff.2 ⟨owner, howner, Except.bind_eq_ok_iff.2 ⟨fields,
    Except.mapM_again hfields fun _ _ => member_again, Except.bind_eq_ok_iff.2 ⟨methods,
      Except.mapM_again hmethods fun _ _ => member_again, Except.bind_eq_ok_iff.2 ⟨_,
        attributesOf_again hattributes, ?_⟩⟩⟩⟩
  rw [AccessFlags.promote_ite_again, hquiet, hsame]
  simp only [ne_eq, not_true_eq_false, decide_false, Bool.or_self]
  rfl

end Runs

theorem madePublic_of_apply {promotions : Promotions} {before after : ClassFile} {changed : Bool}
    (h : (promotions.apply before).result = .ok (after, changed)) :
    MakesPublic promotions before after ∧
      (changed = true ↔ flagWords after ≠ flagWords before) ∧
        (promotions.apply after).result = .ok (after, false) := by
  cases hempty : promotions.isEmpty with
  | true =>
      rw [apply_of_isEmpty hempty] at h
      cases h
      exact ⟨makesPublic_of_isEmpty hempty before, by simp, apply_of_isEmpty hempty before⟩
  | false =>
      rw [result_apply hempty] at h
      obtain ⟨owner, howner, h⟩ := Except.bind_eq_ok_iff.1 h
      obtain ⟨fields, hfields, h⟩ := Except.bind_eq_ok_iff.1 h
      obtain ⟨methods, hmethods, h⟩ := Except.bind_eq_ok_iff.1 h
      obtain ⟨attributes, hattributes, h⟩ := Except.bind_eq_ok_iff.1 h
      have hlists : promotions.classes.contains owner = true ↔ promotions.ListsClass before := by
        simp only [ListsClass, howner, Except.ok.injEq, Std.ExtTreeSet.contains_iff_mem]
        simp
      cases h
      exact ⟨⟨sets_ite hlists _, memberPublic_of_members howner hfields,
          memberPublic_of_members howner hmethods,
          (promotes_of_attributesOf hattributes).imp fun _ _ => Promotes.recordsPublic, rfl⟩,
        flagWords_ne_iff hfields hmethods hattributes _,
        result_apply_again hfields hmethods hattributes hempty howner rfl⟩

/-- A package-private class with a private field, a protected and a private method and the record of
its own private static nested class. -/
def classWithNested : ClassFile :=
  { minor := 0, major := 52
    pool := ⟨#[.unusable, .utf8 (Utf8.encode "A"), .classRef 1, .utf8 (Utf8.encode "A$B"),
      .classRef 3, .utf8 (Utf8.encode "B"), .utf8 (Utf8.encode "f"), .utf8 (Utf8.encode "I"),
      .utf8 (Utf8.encode "m"), .utf8 (Utf8.encode "()V"), .utf8 (Utf8.encode "(I)V"),
      .utf8 (Utf8.encode "InnerClasses")]⟩
    flags := 0x20, thisClass := 2, superClass := 0, interfaces := []
    fields := [⟨0x2, 6, 7, []⟩], methods := [⟨0x4, 8, 9, []⟩, ⟨0x2, 8, 10, []⟩]
    attributes := [⟨11, InnerClass.encodeList [⟨4, 2, 5, 0xa⟩]⟩] }

def classWithNestedPublic : ClassFile :=
  { classWithNested with
    fields := [⟨0x1, 6, 7, []⟩], methods := [⟨0x1, 8, 9, []⟩, ⟨0x2, 8, 10, []⟩]
    attributes := [⟨11, InnerClass.encodeList [⟨4, 2, 5, 0x9⟩]⟩] }

/-- The nested class, the field and the first method. -/
def promotionsOfNested : Promotions :=
  ⟨.ofList ["A$B"], [⟨"A", "f", none⟩], [⟨"A", "m", some "()V"⟩]⟩

theorem madePublic_of_apply_classWithNested :
    (promotionsOfNested.apply classWithNested).result = .ok (classWithNestedPublic, true) ∧
      MakesPublic promotionsOfNested classWithNested classWithNestedPublic ∧
        flagWords classWithNestedPublic ≠ flagWords classWithNested ∧
          (promotionsOfNested.apply classWithNestedPublic).result =
            .ok (classWithNestedPublic, false) := by
  have happly : (promotionsOfNested.apply classWithNested).result =
      .ok (classWithNestedPublic, true) := rfl
  obtain ⟨hmakes, hchanged, hagain⟩ := madePublic_of_apply happly
  exact ⟨happly, hmakes, hchanged.1 rfl, hagain⟩

end Promotions

end JarTailor
