import JarTailor.Proofs.Edit.Confined

/-!
# Texts with several uses

A text that is used in several ways is renamed in one of them: as the name of a class if a class
entry holds it, else as it is used first. A descriptor comes out as the descriptor that it is unless
a class that is no array has the same text, or it is a signature first and says something else as
one. Texts that are no types are left alone unless a type shares their entry; string constants even
then.
-/

namespace JarTailor

open TypeUse

namespace ClassFile

/-- The descriptor of a field or method, of a name and type or of a method type. -/
def HasDescriptor (classFile : ClassFile) (index : Index) : Prop :=
  (∃ member ∈ classFile.fields ++ classFile.methods, member.descriptor = index) ∨
    (∃ name, .nameAndType name index ∈ classFile.pool.entries) ∨
      .methodType index ∈ classFile.pool.entries

/-- The name of a class that is no array. -/
def NamesClass (classFile : ClassFile) (index : Index) : Prop :=
  .classRef index ∈ classFile.pool.entries ∧
    ∃ text, classFile.pool.text index = .ok text ∧ text.toList.head? ≠ some '['

/-- A text that is no descriptor, or one of classes whose names a signature would not take for
names. -/
def MisreadsDescriptor (classFile : ClassFile) (index : Index) : Prop :=
  ∃ text, classFile.pool.text index = .ok text ∧
    ∀ found, TypeRole.descriptor.classNames text = .ok found →
      ∃ name ∈ found, ¬Signature.Named name

end ClassFile

namespace Renaming

/-- Every text that is used as a type is renamed in its role. -/
structure ByRole (names : Renaming) (table : Roles) (before after : ClassFile) : Prop where
  listed : ∀ (index : Index) (role : TypeRole), table[index]? = some role →
    names.Rewrites role index before.pool after.pool
  classes : ∀ index : Index, .classRef index ∈ before.pool.entries →
    table[index]? = some .className
  descriptors : ∀ index : Index, before.HasDescriptor index → ¬before.NamesClass index →
    ¬(table[index]? = some .signature ∧ before.MisreadsDescriptor index) →
    names.Rewrites .descriptor index before.pool after.pool
  others : ∀ (index : Index) (bytes : Bytes), index ∉ table →
    before.pool.get index = .ok (.utf8 bytes) → after.pool.get index = .ok (.utf8 bytes)
  strings : ∀ (index text : Index) (bytes : Bytes),
    before.pool.get index = .ok (.stringRef text) → before.pool.get text = .ok (.utf8 bytes) →
    ∃ copy, after.pool.get index = .ok (.stringRef copy) ∧
      after.pool.get copy = .ok (.utf8 bytes)

section Roles

variable {names : Renaming} {before after : ClassFile} {uses : List TypeUse} {index : Index}

theorem mem_of_hasDescriptor (hall : all before = .ok uses) (h : before.HasDescriptor index) :
    ⟨index, .descriptor⟩ ∈ uses := by
  rcases h with ⟨member, hmember, rfl⟩ | ⟨name, hentry⟩ | hentry
  · exact mem_of_member hall hmember
  · exact mem_of_nameAndType hall hentry
  · exact mem_of_methodType hall hentry

/-- A text that says the same as a descriptor and as a signature is renamed to the same text. -/
theorem Rewrites.descriptor_of_signature {first second : Pool} {text : String}
    {found : List String} (h : names.Rewrites .signature index first second)
    (htext : first.text index = .ok text)
    (hfound : TypeRole.descriptor.classNames text = .ok found)
    (hnamed : ∀ name ∈ found, Signature.Named name) :
    names.Rewrites .descriptor index first second := by
  obtain ⟨old, mapped, hold, hmapped, hnew⟩ := h
  obtain rfl : text = old := Except.ok.inj (htext.symm.trans hold)
  obtain ⟨pieces, hpieces, hsigned⟩ := exists_pieces_of_mapText hmapped
  obtain ⟨renamed, hrenamed⟩ : ∃ renamed, names.mapText .descriptor text = .ok renamed :=
    exists_mapText hfound
  obtain ⟨descriptor, hparse, hdescribed⟩ := exists_parse_of_mapText hrenamed
  obtain ⟨other, hother, rfl⟩ := Except.map_eq_ok_iff.1 hfound
  obtain rfl : descriptor = other := Except.ok.inj (hparse.symm.trans hother)
  have hsame := (Descriptor.pieces_of_parse hparse hnamed hpieces).2 names.rename
  exact ⟨text, renamed, htext, hrenamed, by rw [hnew, hsigned, hdescribed, hsame]⟩

/-- A class entry of an array holds a descriptor. -/
theorem Rewrites.descriptor_of_array {first second : Pool} {text : String}
    (h : names.Rewrites .className index first second) (htext : first.text index = .ok text)
    (harray : text.toList.head? = some '[') : names.Rewrites .descriptor index first second := by
  obtain ⟨old, mapped, hold, hmapped, hnew⟩ := h
  obtain rfl : text = old := Except.ok.inj (htext.symm.trans hold)
  rw [mapText_array harray] at hmapped
  exact ⟨text, mapped, htext, hmapped, hnew⟩

/-- Unless it names a class, or is a signature and says something else as one, a text is renamed as
the descriptor that it also is. -/
theorem Rewrites.descriptor_of_role {role : TypeRole}
    (h : names.Rewrites role index before.pool after.pool)
    (hentry : role = .className → .classRef index ∈ before.pool.entries)
    (hclass : ¬before.NamesClass index)
    (hmisread : role = .signature → ¬before.MisreadsDescriptor index) :
    names.Rewrites .descriptor index before.pool after.pool := by
  obtain ⟨text, -, htext, -⟩ := id h
  cases role with
  | className =>
      by_cases harray : text.toList.head? = some '['
      · exact h.descriptor_of_array htext harray
      · exact absurd ⟨hentry rfl, text, htext, harray⟩ hclass
  | descriptor => exact h
  | signature =>
      by_cases hagree : ∃ found, TypeRole.descriptor.classNames text = .ok found ∧
          ∀ name ∈ found, Signature.Named name
      · obtain ⟨found, hfound, hnamed⟩ := hagree
        exact h.descriptor_of_signature htext hfound hnamed
      · refine absurd ⟨text, htext, fun found hfound => ?_⟩ (hmisread rfl)
        by_contra hnone
        refine hagree ⟨found, hfound, fun name hname => ?_⟩
        by_contra hnamed
        exact hnone ⟨name, hname, hnamed⟩

end Roles

/-- Renaming keeps the uses of a text apart as far as that is one text for all of them. -/
theorem byRole_of_apply {names : Renaming} {before after : ClassFile} {references : References}
    {changed : Bool} (hreferences : References.ofClass before = .ok references)
    (happly : names.apply before = .ok (after, changed)) :
    ∃ table, roles before = .ok table ∧ names.ByRole table before after := by
  obtain ⟨uses, hknown⟩ := References.known_of_ofClass hreferences
  obtain ⟨table, htable⟩ := hknown.exists_roles
  have hconfined := confined_of_known hknown htable happly
  have hfirst : ∀ index role, table[index]? = some role ↔ First uses ⟨index, role⟩ :=
    fun index role => Std.ExtTreeMap.mem_toList_iff_getElem?_eq_some.symm.trans
      (mem_roles_iff htable hknown.all)
  have hlisted : ∀ index role, table[index]? = some role →
      names.Rewrites role index before.pool after.pool :=
    fun index role hrole => rewrites_of_apply hknown happly ((hfirst index role).1 hrole)
  refine ⟨table, htable, hlisted, ?_, ?_, ?_, ?_⟩
  · intro index hentry
    exact (hfirst index _).2 (first_of_classRef hknown.all hentry)
  · intro index hdescriptor hclass hmisread
    obtain ⟨⟨other, role⟩, hrole, rfl⟩ :=
      exists_first (mem_of_hasDescriptor hknown.all hdescriptor)
    have hlookup := (hfirst _ role).2 hrole
    refine (hlisted _ role hlookup).descriptor_of_role
      (fun hname => classRef_of_role hknown.all hrole.mem hname) hclass ?_
    rintro rfl hmisreads
    exact hmisread ⟨hlookup, hmisreads⟩
  · intro index bytes hunlisted hget
    rw [Pool.get_eq_ok_iff] at hget ⊢
    refine hconfined.kept _ _ hget (by simp) fun other _ hother _ heq => hunlisted ?_
    rwa [UInt16.toNat_inj.1 heq]
  · intro index text bytes hindex hget
    rw [Pool.get_eq_ok_iff] at hindex
    obtain ⟨copy, hcopy, hbytes⟩ := hconfined.strings _ text bytes hindex hget
    exact ⟨copy, Pool.get_eq_ok_iff.2 hcopy, hbytes⟩

/-- A class with a field, and a string constant that is the descriptor of the field. -/
def classHoldingField : ClassFile :=
  { minor := 0, major := 52
    pool := ⟨#[.unusable, .utf8 (Utf8.encode "A"), .classRef 1, .utf8 (Utf8.encode "a"),
      .utf8 (Utf8.encode "LA;"), .stringRef 4]⟩
    flags := 0x21, thisClass := 2, superClass := 0, interfaces := []
    fields := [⟨0, 3, 4, []⟩], methods := [], attributes := [] }

def classHoldingFieldRenamed : ClassFile :=
  { classHoldingField with
    pool := ⟨#[.unusable, .utf8 (Utf8.encode "B"), .classRef 1, .utf8 (Utf8.encode "a"),
      .utf8 (Utf8.encode "LB;"), .stringRef 6, .utf8 (Utf8.encode "LA;")]⟩ }

theorem byRole_of_apply_classHoldingField :
    (ofPairs [("A", "B")]).apply classHoldingField = .ok (classHoldingFieldRenamed, true) ∧
      ∃ table, roles classHoldingField = .ok table ∧
        (ofPairs [("A", "B")]).ByRole table classHoldingField classHoldingFieldRenamed := by
  have happly : (ofPairs [("A", "B")]).apply classHoldingField =
      .ok (classHoldingFieldRenamed, true) := by cbv
  have hok : (References.ofClass classHoldingField).toBool = true := by cbv
  obtain ⟨references, hreferences⟩ := Except.exists_eq_ok hok
  exact ⟨happly, byRole_of_apply hreferences happly⟩

/-- A class `I` with a field of type `int`, for which a compiler writes the same text. -/
def classNamedInt : ClassFile :=
  { minor := 0, major := 52
    pool := ⟨#[.unusable, .utf8 (Utf8.encode "I"), .classRef 1, .utf8 (Utf8.encode "i")]⟩
    flags := 0x21, thisClass := 2, superClass := 0, interfaces := []
    fields := [⟨0, 3, 1, []⟩], methods := [], attributes := [] }

def classNamedLong : ClassFile :=
  { classNamedInt with
    pool := ⟨#[.unusable, .utf8 (Utf8.encode "J"), .classRef 1, .utf8 (Utf8.encode "i")]⟩ }

/-- The field is of type `long` when the class has become `J`. -/
theorem not_rewrites_classNamedInt :
    (ofPairs [("I", "J")]).Legal ∧
      (∃ references, References.ofClass classNamedInt = .ok references) ∧
      (ofPairs [("I", "J")]).apply classNamedInt = .ok (classNamedLong, true) ∧
      classNamedInt.HasDescriptor 1 ∧
      ¬(ofPairs [("I", "J")]).Rewrites .descriptor 1 classNamedInt.pool classNamedLong.pool := by
  have happly : (ofPairs [("I", "J")]).apply classNamedInt = .ok (classNamedLong, true) := by cbv
  have hok : (References.ofClass classNamedInt).toBool = true := by cbv
  have hdescriptor : classNamedInt.HasDescriptor 1 :=
    Or.inl ⟨⟨0, 3, 1, []⟩, List.mem_singleton.2 rfl, rfl⟩
  refine ⟨legal_ofPairs (by decide) (by decide), Except.exists_eq_ok hok, happly, hdescriptor, ?_⟩
  rintro ⟨text, mapped, htext, hmapped, hnew⟩
  have hold : classNamedInt.pool.text 1 = .ok "I" := by cbv
  have hsame : (ofPairs [("I", "J")]).mapText .descriptor "I" = .ok none := by cbv
  have hlong : classNamedLong.pool.text 1 = .ok "J" := by cbv
  obtain rfl := Except.ok.inj (hold.symm.trans htext)
  obtain rfl := Except.ok.inj (hsame.symm.trans hmapped)
  exact absurd (Except.ok.inj (hlong.symm.trans hnew)) (by decide)

end Renaming

end JarTailor
