import JarTailor.Proofs.ClassFile.FlagWords
import JarTailor.Proofs.Edit.Promotions

/-!
# Promoting writes flags only

A class is written after promoting as it was before, but for words of access flags. The exception
are attributes of nested classes with bytes behind their last record: these bytes are lost when a
record changes.
-/

namespace JarTailor.Promotions

/-- A record of a nested class whose flags are not yet what promoting makes of them. -/
def Changes (classes : NameSet) (pool : Pool) (record : InnerClass) : Prop :=
  (∃ name ∈ classes, pool.className record.inner = .ok name) ∧
    record.flags.promote ≠ record.flags

/-- Bytes follow the last record of an attribute that has a record to change. -/
def Overruns (classes : NameSet) (pool : Pool) (entry : Attribute) : Prop :=
  entry.isNamed pool "InnerClasses" = true ∧
    ∃ records, InnerClass.decodeList entry.info = .ok records ∧
      (InnerClass.encodeList records).length < entry.info.length ∧
        ∃ record ∈ records, Changes classes pool record

/-- The second attribute is the first, without the bytes behind the last record if these get
lost. -/
def Cuts (classes : NameSet) (pool : Pool) (before after : Attribute) : Prop :=
  (¬Overruns classes pool before ∧ after = before) ∨
    (Overruns classes pool before ∧ ∃ records, InnerClass.decodeList before.info = .ok records ∧
      after = { before with info := InnerClass.encodeList records })

open Segment

section Records

variable {classes : NameSet} {pool : Pool}

theorem record_eq_ok {before after : InnerClass} (h : record classes pool before = .ok after) :
    (∃ flags, after = { before with flags }) ∧ (after = before ↔ ¬Changes classes pool before) := by
  obtain ⟨name, hname, h⟩ := Except.bind_eq_ok_iff.1 h
  have hchanges : Changes classes pool before ↔
      name ∈ classes ∧ before.flags.promote ≠ before.flags := by
    refine and_congr_left fun _ => ⟨?_, fun hmem => ⟨name, hmem, hname⟩⟩
    rintro ⟨other, hmem, hother⟩
    rwa [Except.ok.inj (hname.symm.trans hother)]
  rw [hchanges]
  split at h
  · next hmem =>
      cases h
      rw [Std.ExtTreeSet.contains_iff_mem] at hmem
      refine ⟨⟨_, rfl⟩, fun heq hchange => ?_, fun hsame => ?_⟩
      · exact hchange.2 (congrArg InnerClass.flags heq)
      · rw [not_and_not_right.1 hsame hmem]
  · next hmem =>
      cases h
      rw [Std.ExtTreeSet.contains_iff_mem] at hmem
      exact ⟨⟨before.flags, rfl⟩, iff_of_true rfl fun hchange => hmem hchange.1⟩

variable {records promoted : List InnerClass}
  (h : records.mapM (record classes pool) = .ok promoted)
include h

theorem promoted_eq_iff :
    promoted = records ↔ ∀ found ∈ records, ¬Changes classes pool found := by
  have hrecords := Except.mapM_eq_ok_iff.1 h
  clear h
  induction hrecords with
  | nil => simp only [List.not_mem_nil, false_implies, implies_true]
  | cons hfirst _ ih =>
      rw [List.cons.injEq, List.forall_mem_cons]
      exact and_congr (record_eq_ok hfirst).2 ih

theorem reflags_records :
    List.Forall₂ Reflags (records.flatMap InnerClass.segments)
      (promoted.flatMap InnerClass.segments) := by
  refine reflags_flatMap (Except.mapM_eq_ok_iff.1 h) fun before after hafter => ?_
  obtain ⟨⟨flags, rfl⟩, -⟩ := record_eq_ok hafter
  exact .cons (.plain _) (.cons (.flags before.flags flags) .nil)

theorem length_encodeList_promoted :
    (InnerClass.encodeList promoted).length = (InnerClass.encodeList records).length := by
  rw [InnerClass.length_encodeList, InnerClass.length_encodeList,
    (Except.mapM_eq_ok_iff.1 h).length_eq]

end Records

section Attributes

variable {classes : NameSet} {pool : Pool} {before after : Attribute}

theorem cuts_self (h : ¬Overruns classes pool before) : Cuts classes pool before before :=
  Or.inl ⟨h, rfl⟩

/-- If a record changes, then the attribute is cut after its last record, or ends there. -/
theorem cuts_of_changes {records : List InnerClass}
    (hnamed : before.isNamed pool "InnerClasses" = true)
    (hrecords : InnerClass.decodeList before.info = .ok records)
    (hchanges : ∃ found ∈ records, Changes classes pool found) :
    Cuts classes pool before { before with info := InnerClass.encodeList records } := by
  rcases Nat.lt_or_ge (InnerClass.encodeList records).length before.info.length with hlt | hge
  · exact Or.inr ⟨⟨hnamed, records, hrecords, hlt, hchanges⟩, records, hrecords, rfl⟩
  · obtain ⟨name, info⟩ := before
    obtain ⟨-, rest, rfl⟩ := InnerClass.decodeList_eq_ok_iff.1 hrecords
    obtain rfl : rest = [] := by
      rw [List.length_append] at hge
      exact List.eq_nil_of_length_eq_zero (by omega)
    refine Or.inl ⟨?_, by rw [List.append_nil]⟩
    rintro ⟨-, found, hfound, hlt, -⟩
    obtain rfl : records = found := Except.ok.inj (hrecords.symm.trans hfound)
    rw [List.append_nil] at hlt
    exact Nat.lt_irrefl _ hlt

theorem Promotes.exists_cuts (h : Promotes classes pool before after) :
    ∃ cut, Cuts classes pool before cut ∧
      List.Forall₂ Reflags (cut.segments pool) (after.segments pool) := by
  cases h with
  | other hnamed =>
      refine ⟨before, cuts_self fun hoverruns => ?_, reflags_refl _⟩
      exact Bool.false_ne_true (hnamed.symm.trans hoverruns.1)
  | @same records hrecords hsame =>
      refine ⟨before, cuts_self ?_, reflags_refl _⟩
      rintro ⟨-, found, hfound, -, record, hmem, hchanges⟩
      obtain rfl : records = found := Except.ok.inj (hrecords.symm.trans hfound)
      exact (promoted_eq_iff hsame).1 rfl record hmem hchanges
  | @anew records promoted hnamed hrecords hpromoted hne =>
      have hchanges : ∃ found ∈ records, Changes classes pool found := by
        by_contra hnone
        exact hne ((promoted_eq_iff hpromoted).2 fun found hmem hchange =>
          hnone ⟨found, hmem, hchange⟩)
      refine ⟨_, cuts_of_changes hnamed hrecords hchanges, ?_⟩
      have hlength := length_encodeList_promoted hpromoted
      have hcount := (Except.mapM_eq_ok_iff.1 hpromoted).length_eq
      have hfits := (InnerClass.decodeList_eq_ok_iff.1 hrecords).1
      have hread {found : List InnerClass} (hfound : found.length < 2 ^ 16) :
          InnerClass.decodeList (InnerClass.encodeList found) = .ok found :=
        InnerClass.decodeList_eq_ok_iff.2 ⟨hfound, [], (List.append_nil _).symm⟩
      have hsegments {found : List InnerClass} (hfound : found.length < 2 ^ 16) :=
        @Attribute.segments_of_decodeList pool { before with info := InnerClass.encodeList found }
          found hnamed (hread hfound)
      rw [hsegments hfits, hsegments (hcount ▸ hfits), List.drop_length, List.drop_length, hlength,
        hcount]
      exact List.rel_append (.cons (.plain _) (reflags_records hpromoted)) (reflags_refl _)

theorem Cuts.length_le (h : Cuts classes pool before after) :
    after.encode.length ≤ before.encode.length ∧
      (after.encode.length = before.encode.length → ¬Overruns classes pool before) := by
  rcases h with ⟨hnot, rfl⟩ | ⟨⟨-, found, hfound, hlt, -⟩, records, hrecords, rfl⟩
  · exact ⟨Nat.le_refl _, fun _ => hnot⟩
  · obtain rfl : found = records := Except.ok.inj (hfound.symm.trans hrecords)
    have hcut : ({ before with info := InnerClass.encodeList found } : Attribute).encode.length <
        before.encode.length := by
      simp only [Attribute.encode, List.length_append, length_be16, length_be32]
      exact Nat.add_lt_add_left hlt _
    exact ⟨Nat.le_of_lt hcut, fun heq => absurd heq (Nat.ne_of_lt hcut)⟩

end Attributes

section Lists

variable {classes : NameSet} {pool : Pool} {before after : List Attribute}

theorem exists_cuts_of_promotes (h : List.Forall₂ (Promotes classes pool) before after) :
    ∃ cut, List.Forall₂ (Cuts classes pool) before cut ∧
      List.Forall₂ (fun entry entry' => List.Forall₂ Reflags (entry.segments pool)
        (entry'.segments pool)) cut after := by
  induction h with
  | nil => exact ⟨[], .nil, .nil⟩
  | cons hfirst _ ih =>
      obtain ⟨first, hcuts, hreflags⟩ := hfirst.exists_cuts
      obtain ⟨rest, hrest, hreflagsRest⟩ := ih
      exact ⟨first :: rest, .cons hcuts hrest, .cons hreflags hreflagsRest⟩

theorem length_le_of_cuts (h : List.Forall₂ (Cuts classes pool) before after) :
    (after.flatMap Attribute.encode).length ≤ (before.flatMap Attribute.encode).length ∧
      ((after.flatMap Attribute.encode).length = (before.flatMap Attribute.encode).length →
        ∀ entry ∈ before, ¬Overruns classes pool entry) := by
  induction h with
  | nil => exact ⟨Nat.le_refl _, fun _ _ hmem => absurd hmem List.not_mem_nil⟩
  | cons hfirst _ ih =>
      obtain ⟨hle, heq⟩ := hfirst.length_le
      obtain ⟨hleRest, heqRest⟩ := ih
      simp only [List.flatMap_cons, List.length_append, List.forall_mem_cons]
      exact ⟨Nat.add_le_add hle hleRest, fun hsum => ⟨heq (by omega), heqRest (by omega)⟩⟩

theorem eq_of_cuts (h : List.Forall₂ (Cuts classes pool) before after)
    (hnot : ∀ entry ∈ before, ¬Overruns classes pool entry) : after = before := by
  induction h with
  | nil => rfl
  | cons hfirst _ ih =>
      obtain ⟨hnotFirst, hnotRest⟩ := List.forall_mem_cons.1 hnot
      obtain ⟨-, rfl⟩ := hfirst.resolve_right fun hcut => hnotFirst hcut.1
      rw [ih hnotRest]

end Lists

theorem reflags_of_members {specs : List MemberSpec} {owner : String} {pool : Pool}
    {before after : List Member} (h : members specs owner pool before = .ok after) :
    List.Forall₂ Reflags (before.flatMap Member.segments) (after.flatMap Member.segments) := by
  refine reflags_flatMap (sameButFlags_of_members h) fun found changed hchanged => ?_
  obtain ⟨flags, rfl⟩ := hchanged
  exact .cons (.flags found.flags flags) (reflags_refl _)

/-- Without the bytes that get lost the class is written as before but for its flags. -/
theorem exists_cuts_of_apply {promotions : Promotions} {before after : ClassFile} {changed : Bool}
    (h : (promotions.apply before).result = .ok (after, changed)) :
    ∃ attributes, List.Forall₂ (Cuts promotions.classes before.pool) before.attributes attributes ∧
      ClassFile.SameOutsideFlags { before with attributes } after := by
  rcases apply_eq_ok h with ⟨hempty, rfl⟩ |
    ⟨owner, flags, fields, methods, attributes, hfields, hmethods, hattributes, rfl, -⟩
  · refine ⟨after.attributes, List.forall₂_same.2 fun entry _ => cuts_self ?_,
      ClassFile.sameOutsideFlags_of_segments (reflags_refl _)⟩
    rintro ⟨-, -, -, -, -, -, ⟨name, hmem, -⟩, -⟩
    exact classes_of_isEmpty hempty name hmem
  · obtain ⟨cut, hcuts, hreflags⟩ := exists_cuts_of_promotes (promotes_of_attributesOf hattributes)
    refine ⟨cut, hcuts, ClassFile.sameOutsideFlags_of_segments ?_⟩
    simp only [ClassFile.segments, (sameButFlags_of_members hfields).length_eq,
      (sameButFlags_of_members hmethods).length_eq, hreflags.length_eq]
    refine List.rel_append (List.rel_append (List.rel_append ?_ (reflags_of_members hfields))
      (.cons (.plain _) (reflags_of_members hmethods)))
      (.cons (.plain _) (reflags_flatMap hreflags fun _ _ => id))
    exact .cons (.plain _) (.cons (.flags before.flags flags) (reflags_refl _))

/-- Promoting writes flags and nothing else, unless bytes follow the records of nested classes of
which one changes. -/
theorem sameOutsideFlags_of_apply {promotions : Promotions} {before after : ClassFile}
    {changed : Bool} (h : (promotions.apply before).result = .ok (after, changed)) :
    (before.SameOutsideFlags after ↔
        ∀ entry ∈ before.attributes, ¬Overruns promotions.classes before.pool entry) ∧
      ∃ attributes,
        List.Forall₂ (Cuts promotions.classes before.pool) before.attributes attributes ∧
        ClassFile.SameOutsideFlags { before with attributes } after := by
  obtain ⟨attributes, hcuts, hsame⟩ := exists_cuts_of_apply h
  refine ⟨⟨fun hbefore => (length_le_of_cuts hcuts).2 ?_, fun hnot => ?_⟩, attributes, hcuts, hsame⟩
  · -- the class and what is left of it are equally long, so their attributes are
    have hlength := hsame.1.symm.trans hbefore.1
    simp only [ClassFile.encode, Attribute.encodeList, List.length_append,
      hcuts.length_eq] at hlength
    exact Nat.add_left_cancel (Nat.add_left_cancel hlength)
  · rwa [eq_of_cuts hcuts hnot] at hsame

def promotionsOfA : Promotions :=
  { classes := .ofList ["A"], fields := [], methods := [] }

/-- A class `A` with a record of itself and bytes behind this record. -/
def nestingClass (flags : AccessFlags) (rest : Bytes) : ClassFile :=
  { minor := 0, major := 52
    pool := ⟨#[.unusable, .utf8 (Utf8.encode "A"), .classRef 1,
      .utf8 (Utf8.encode "InnerClasses")]⟩
    flags := 0x21, thisClass := 2, superClass := 0, interfaces := [], fields := [], methods := []
    attributes := [⟨3, InnerClass.encodeList [⟨2, 0, 0, flags⟩] ++ rest⟩] }

theorem sameOutsideFlags_of_apply_nestingClass :
    (promotionsOfA.apply (nestingClass 2 [])).result = .ok (nestingClass 1 [], true) ∧
      ((nestingClass 2 []).SameOutsideFlags (nestingClass 1 []) ↔
        ∀ entry ∈ (nestingClass 2 []).attributes,
          ¬Overruns promotionsOfA.classes (nestingClass 2 []).pool entry) ∧
      ∃ attributes,
        List.Forall₂ (Cuts promotionsOfA.classes (nestingClass 2 []).pool)
          (nestingClass 2 []).attributes attributes ∧
        ClassFile.SameOutsideFlags { nestingClass 2 [] with attributes } (nestingClass 1 []) := by
  have happly : (promotionsOfA.apply (nestingClass 2 [])).result =
      .ok (nestingClass 1 [], true) := rfl
  exact ⟨happly, sameOutsideFlags_of_apply happly⟩

/-- A byte behind a private record gets lost when the record becomes public. -/
theorem not_sameOutsideFlags_nestingClass :
    ClassFile.decode (nestingClass 2 [0xff]).encode = .ok (nestingClass 2 [0xff]) ∧
      (promotionsOfA.apply (nestingClass 2 [0xff])).result = .ok (nestingClass 1 [], true) ∧
      ¬(nestingClass 2 [0xff]).SameOutsideFlags (nestingClass 1 []) := by
  refine ⟨rfl, rfl, fun hsame => ?_⟩
  have hbefore : (nestingClass 2 [0xff]).encode.length = 63 := by decide
  have hafter : (nestingClass 1 []).encode.length = 62 := by decide
  have hlength := hsame.1
  rw [hbefore, hafter] at hlength
  exact absurd hlength (by decide)

end JarTailor.Promotions
