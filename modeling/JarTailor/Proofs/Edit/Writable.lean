import JarTailor.Proofs.ClassFile.Lossless
import JarTailor.Proofs.Edit.Promotions
import JarTailor.Proofs.Edit.Redirect
import JarTailor.Proofs.Edit.Renaming
import JarTailor.Proofs.Edit.Replace
import Mathlib

/-!
# Edited classes can be written

However a class that was read is edited, its pool stays laid out and its slots keep their kinds.
What can make it unreadable are lengths alone: of texts, and of the attributes of a method.
-/

namespace JarTailor

/-- A change of a class. -/
inductive ClassEdit where
  | redirect (rules : List RedirectRule)
  | replace (rules : List ReplaceRule) (natives : Bool)
  | promote (promotions : Promotions)
  | rename (names : Renaming)

def ClassEdit.apply (classFile : ClassFile) : ClassEdit → Except Failure ClassFile
  | .redirect rules => Prod.fst <$> (Redirect.apply rules classFile).result
  | .replace rules natives => Prod.fst <$> (Replace.apply rules natives classFile).result
  | .promote promotions => Prod.fst <$> (promotions.apply classFile).result
  | .rename names => Prod.fst <$> names.apply classFile

/-- A run of edits that all succeed, with the classes it led through, the latest first. -/
inductive ClassEdit.Run (original : ClassFile) : List ClassFile → ClassFile → Prop
  | start : Run original [] original
  | step {earlier : List ClassFile} {current next : ClassFile} (edit : ClassEdit)
      (h : Run original earlier current) (happly : edit.apply current = .ok next) :
      Run original (current :: earlier) next

namespace ClassFile

/-- What every run of edits keeps of a class, whatever the edits write. -/
structure Sound (original classFile : ClassFile) : Prop where
  laidOut : classFile.pool.LaidOut
  size_le : classFile.pool.size ≤ Pool.capacity
  kinds : original.pool.KeepsKinds classFile.pool
  named : ∃ name, classFile.name = .ok name
  interfaces : classFile.interfaces.length < 2 ^ 16
  fields : Decode.ListFits Member.Fits classFile.fields
  methods : classFile.methods.length < 2 ^ 16
  attributes : Decode.ListFits Attribute.Fits classFile.attributes

/-- The attributes of the methods can be written one by one. -/
def BodiesFit (classFile : ClassFile) : Prop :=
  ∀ member ∈ classFile.methods, ∀ entry ∈ member.attributes, entry.Fits

/-- The descriptors of the methods, where there are any, are below a length. -/
def DescriptorsBelow (limit : Nat) (classFile : ClassFile) : Prop :=
  ∀ member ∈ classFile.methods, ∀ text, classFile.pool.text member.descriptor = .ok text →
    (Utf8.encode text).length < limit

theorem DescriptorsBelow.mono {limit larger : Nat} {classFile : ClassFile}
    (h : DescriptorsBelow limit classFile) (hle : limit ≤ larger) :
    DescriptorsBelow larger classFile :=
  fun member hmember text htext => Nat.lt_of_lt_of_le (h member hmember text htext) hle

theorem descriptorsBelow_of_texts {limit : Nat} {classFile : ClassFile}
    (h : classFile.pool.TextsBelow limit) : DescriptorsBelow limit classFile := by
  intro member _ text htext
  exact h _ (Array.mem_of_getElem? (Pool.get_eq_ok_iff.1 (Pool.text_eq_ok_iff.1 htext)))

section Steps

variable {original before after : ClassFile}

theorem sound_of_decode {bytes : Bytes} (h : decode bytes = .ok original) :
    Sound original original := by
  obtain ⟨hfits, hname, -⟩ := decode_eq_ok_iff.1 h
  exact ⟨hfits.pool.laidOut, hfits.pool.size_le, fun _ constant h => ⟨constant, h, rfl⟩, hname,
    hfits.interfaces, hfits.fields, hfits.methods.1, hfits.attributes⟩

theorem bodiesFit_of_decode {bytes : Bytes} (h : decode bytes = .ok original) :
    BodiesFit original := by
  obtain ⟨hfits, -⟩ := decode_eq_ok_iff.1 h
  intro member hmember
  exact (hfits.methods.2 member hmember).2

/-- A class stays sound when its pool gains constants and its methods change. -/
theorem Sound.of_gains {classes descriptors : String → Prop} (h : Sound original before)
    (hgains : Pool.Gains classes descriptors before.pool after.pool)
    (hmethods : after.methods.length = before.methods.length)
    (hothers : after = { before with pool := after.pool, methods := after.methods }) :
    Sound original after := by
  obtain ⟨name, hname⟩ := h.named
  rw [hothers]
  exact ⟨h.laidOut.of_gains hgains, hgains.size_le h.size_le,
    h.kinds.trans hgains.extends.keepsKinds, ⟨name, hgains.extends.className hname⟩,
    h.interfaces, h.fields, hmethods ▸ h.methods, h.attributes⟩

theorem Sound.of_promoted (h : Sound original before)
    (hpromoted : Promotions.Promoted before after) : Sound original after := by
  rw [hpromoted.others]
  refine ⟨h.laidOut, h.size_le, h.kinds, h.named, h.interfaces, ⟨?_, ?_⟩, ?_, ⟨?_, ?_⟩⟩
  · exact hpromoted.fields.length_eq ▸ h.fields.1
  · intro field hfield
    obtain ⟨old, hold, flags, rfl⟩ := exists_related_left hpromoted.fields hfield
    exact h.fields.2 old hold
  · exact hpromoted.methods.length_eq ▸ h.methods
  · exact hpromoted.attributes.length_eq ▸ h.attributes.1
  · intro entry hentry
    obtain ⟨old, hold, hrecords⟩ := exists_related_left hpromoted.attributes hentry
    rcases hrecords with rfl | ⟨-, -, hlength⟩
    · exact h.attributes.2 _ hold
    · exact Nat.lt_of_le_of_lt hlength (h.attributes.2 old hold)

theorem Sound.of_pool (h : Sound original before) (hlaidOut : after.pool.LaidOut)
    (hsize : after.pool.size ≤ Pool.capacity) (hkinds : original.pool.KeepsKinds after.pool)
    (hname : ∃ name, after.pool.className before.thisClass = .ok name)
    (hothers : after = { before with pool := after.pool }) : Sound original after := by
  rw [hothers]
  exact ⟨hlaidOut, hsize, hkinds, hname, h.interfaces, h.fields, h.methods, h.attributes⟩

theorem Sound.of_renaming {names : Renaming} {changed : Bool} (h : Sound original before)
    (happly : names.apply before = .ok (after, changed)) : Sound original after := by
  obtain ⟨hothers, ⟨-, hpool⟩ | ⟨roles, -, hrun⟩⟩ := Renaming.apply_eq_ok happly
  · rw [hothers, hpool]
    exact h
  · have hkept := hrun.preserves
      (fun pool => pool.LaidOut ∧ pool.size ≤ Pool.capacity ∧ original.pool.KeepsKinds pool)
      (fun index role first second hstep ⟨hlaidOut, hsize, hkinds⟩ =>
        ⟨hstep.laidOut hlaidOut, hstep.size_le hsize, hkinds.trans hstep.keepsKinds⟩)
      ⟨h.laidOut, h.size_le, h.kinds⟩
    obtain ⟨hlaidOut, hsize, hkinds⟩ := hkept
    obtain ⟨name, hname⟩ := h.named
    exact h.of_pool hlaidOut hsize hkinds (hrun.exists_className hname) hothers

theorem redirected_of_edit {rules : List RedirectRule}
    (happly : (ClassEdit.redirect rules).apply before = .ok after)
    (hsize : before.pool.size ≤ Pool.capacity) :
    Redirect.Redirected rules (fun _ => True) before after := by
  obtain ⟨⟨_, count⟩, hresult, rfl⟩ := Except.map_eq_ok_iff.1 happly
  refine Redirect.redirected_of_apply hresult hsize ?_
  intro member _ entry _ larger _ _ body _ calls _ call _ _ high low tail _ pool _ callee _
  trivial

theorem replaced_of_edit {rules : List ReplaceRule} {natives : Bool}
    (happly : (ClassEdit.replace rules natives).apply before = .ok after)
    (hsize : before.pool.size ≤ Pool.capacity) :
    ∃ owner, Replace.Replaced owner (fun _ => True) before after := by
  obtain ⟨⟨_, used⟩, hresult, rfl⟩ := Except.map_eq_ok_iff.1 happly
  obtain ⟨owner, -, hreplaced⟩ :=
    Replace.replaced_of_apply hresult hsize fun _ _ _ _ _ _ => trivial
  exact ⟨owner, hreplaced⟩

theorem Sound.of_edit {edit : ClassEdit} (h : Sound original before)
    (happly : edit.apply before = .ok after) : Sound original after := by
  cases edit with
  | redirect rules =>
      have hredirected := redirected_of_edit happly h.size_le
      exact h.of_gains hredirected.gains hredirected.methods.length_eq.symm hredirected.others
  | replace rules natives =>
      obtain ⟨owner, hreplaced⟩ := replaced_of_edit happly h.size_le
      exact h.of_gains hreplaced.gains hreplaced.methods.length_eq.symm hreplaced.others
  | promote promotions =>
      obtain ⟨⟨_, changed⟩, hresult, rfl⟩ := Except.map_eq_ok_iff.1 happly
      exact h.of_promoted (Promotions.promoted_of_apply hresult)
  | rename names =>
      obtain ⟨⟨_, changed⟩, hresult, rfl⟩ := Except.map_eq_ok_iff.1 happly
      exact h.of_renaming hresult

/-- New code of the same length leaves a body as long as it was. -/
theorem fits_of_rewrites {start : Pool} {old new : Member} {entry : Attribute}
    (h : Redirect.Rewrites start old new) (hold : ∀ entry ∈ old.attributes, entry.Fits)
    (hentry : entry ∈ new.attributes) : entry.Fits := by
  rcases h with rfl | ⟨pool, position, found, body, code, -, hfound, -, hbody, hlength, rfl⟩
  · exact hold entry hentry
  · rcases Member.mem_withInfo hentry with hentry | ⟨replaced, hreplaced, rfl⟩
    · exact hold entry hentry
    · rw [hfound] at hreplaced
      cases hreplaced
      obtain ⟨-, hinfo⟩ := Code.decode_eq_ok_iff.1 hbody
      have hsame : { body with code }.encode.length = found.info.length := by
        rw [hinfo, Code.length_encode, Code.length_encode, hlength]
      rw [Attribute.Fits, hsame]
      exact hold found (List.mem_of_getElem? hfound)

/-- A new body is short enough when its descriptor is. -/
theorem fits_of_rebodies {start last : Pool} {old new : Member} {entry : Attribute}
    (h : Replace.Rebodies start last old new)
    (hdescriptor : ∀ text, last.text old.descriptor = .ok text →
      (Utf8.encode text).length < 2 ^ 29)
    (hold : ∀ entry ∈ old.attributes, entry.Fits) (hentry : entry ∈ new.attributes) :
    entry.Fits := by
  rcases h with rfl | ⟨middle, descriptor, name, body, -, hlast, htext, -, hshort, rfl⟩
  · exact hold entry hentry
  · rcases Member.mem_withCode hentry with hentry | ⟨hinfo, -⟩
    · exact hold entry hentry
    · have hdescriptor := hdescriptor descriptor (hlast.text htext)
      have hcode := hshort.code
      rw [Attribute.Fits, hinfo, Code.length_encode, hshort.handlers, hshort.attributes]
      have hnone : (Attribute.encodeList []).length = 2 := rfl
      rw [hnone, List.length_nil]
      omega

theorem BodiesFit.of_redirected {rules : List RedirectRule} {called : MemberRef → Prop}
    (h : BodiesFit before) (hredirected : Redirect.Redirected rules called before after) :
    BodiesFit after := by
  intro member hmember entry hentry
  obtain ⟨old, hold, hrewrites⟩ := exists_related_left hredirected.methods hmember
  exact fits_of_rewrites hrewrites (h old hold) hentry

theorem BodiesFit.of_replaced {owner : String} {described : String → Prop}
    (h : BodiesFit before) (hreplaced : Replace.Replaced owner described before after)
    (hdescriptors : DescriptorsBelow (2 ^ 29) after) : BodiesFit after := by
  intro member hmember entry hentry
  obtain ⟨old, hold, hrebodies⟩ := exists_related_left hreplaced.methods hmember
  refine fits_of_rebodies hrebodies (fun text htext => ?_) (h old hold) hentry
  rw [← hrebodies.descriptor] at htext
  exact hdescriptors member hmember text htext

theorem BodiesFit.of_promoted (h : BodiesFit before)
    (hpromoted : Promotions.Promoted before after) : BodiesFit after := by
  intro member hmember entry hentry
  obtain ⟨old, hold, flags, rfl⟩ := exists_related_left hpromoted.methods hmember
  exact h old hold entry hentry

theorem BodiesFit.of_renaming {names : Renaming} {changed : Bool} (h : BodiesFit before)
    (happly : names.apply before = .ok (after, changed)) : BodiesFit after := by
  rw [(Renaming.apply_eq_ok happly).1]
  exact h

theorem BodiesFit.of_edit {edit : ClassEdit} (h : BodiesFit before)
    (happly : edit.apply before = .ok after) (hsize : before.pool.size ≤ Pool.capacity)
    (htexts : after.pool.TextsBelow (2 ^ 29)) : BodiesFit after := by
  cases edit with
  | redirect rules => exact h.of_redirected (redirected_of_edit happly hsize)
  | replace rules natives =>
      obtain ⟨owner, hreplaced⟩ := replaced_of_edit happly hsize
      exact h.of_replaced hreplaced (descriptorsBelow_of_texts htexts)
  | promote promotions =>
      obtain ⟨⟨_, changed⟩, hresult, rfl⟩ := Except.map_eq_ok_iff.1 happly
      exact h.of_promoted (Promotions.promoted_of_apply hresult)
  | rename names =>
      obtain ⟨⟨_, changed⟩, hresult, rfl⟩ := Except.map_eq_ok_iff.1 happly
      exact h.of_renaming hresult

/-- What the lengths leave open decides whether a class that is written is read back. -/
theorem Sound.decode_encode (h : Sound original before) (hbodies : BodiesFit before)
    (htexts : before.pool.TextsBelow (2 ^ 16))
    (hcounts : ∀ method ∈ before.methods, method.attributes.length < 2 ^ 16) :
    decode before.encode = .ok before := by
  refine decode_eq_ok_iff.2 ⟨⟨⟨h.laidOut, h.size_le, htexts⟩, h.interfaces, h.fields,
    ⟨h.methods, ?_⟩, h.attributes⟩, h.named, rfl⟩
  intro method hmethod
  exact ⟨hcounts method hmethod, hbodies method hmethod⟩

end Steps

section Runs

variable {original current : ClassFile} {earlier : List ClassFile}

theorem Sound.of_run (h : Sound original original)
    (hrun : ClassEdit.Run original earlier current) : Sound original current := by
  induction hrun with
  | start => exact h
  | step edit _ happly ih => exact ih.of_edit happly

theorem BodiesFit.of_run (h : Sound original original) (hbodies : BodiesFit original)
    (hrun : ClassEdit.Run original earlier current)
    (hearlier : ∀ before ∈ earlier, before.pool.TextsBelow (2 ^ 29))
    (htexts : current.pool.TextsBelow (2 ^ 29)) : BodiesFit current := by
  induction hrun with
  | start => exact hbodies
  | step edit hrun happly ih =>
      have hbefore := ih (fun before hbefore => hearlier before (List.mem_cons_of_mem _ hbefore))
        (hearlier _ List.mem_cons_self)
      exact hbefore.of_edit happly (h.of_run hrun).size_le htexts

end Runs

/-- After every edit the pool can be written as the slots it has. The class is then read back as it
is, if its texts and the attributes of its methods can be counted. An edit before may have written
a method body from a longer text, which has to leave the body a length that can be written. -/
theorem writable_of_run {bytes : Bytes} {original current : ClassFile} {earlier : List ClassFile}
    (hdecode : decode bytes = .ok original) (hrun : ClassEdit.Run original earlier current) :
    current.pool.size ≤ 65535 ∧
      current.pool.entries[0]? = some .unusable ∧
      (∀ slot : Nat, current.pool.entries[slot + 1]? = some .unusable ↔
        ∃ constant, current.pool.entries[slot]? = some constant ∧ constant.isWide = true) ∧
      original.pool.KeepsKinds current.pool ∧
      ((∀ before ∈ earlier, before.pool.TextsBelow (2 ^ 29)) →
        current.pool.TextsBelow (2 ^ 16) →
        (∀ method ∈ current.methods, method.attributes.length < 2 ^ 16) →
        decode current.encode = .ok current) := by
  have hstart := sound_of_decode hdecode
  have hsound := hstart.of_run hrun
  refine ⟨hsound.size_le, hsound.laidOut.first, hsound.laidOut.unusable_iff, hsound.kinds, ?_⟩
  intro hearlier htexts hcounts
  have hbodies := (bodiesFit_of_decode hdecode).of_run hstart hrun hearlier
    (htexts.mono (by decide))
  refine decode_eq_ok_iff.2 ⟨⟨⟨hsound.laidOut, hsound.size_le, htexts⟩, hsound.interfaces,
    hsound.fields, ⟨hsound.methods, ?_⟩, hsound.attributes⟩, hsound.named, rfl⟩
  intro method hmethod
  exact ⟨hcounts method hmethod, hbodies method hmethod⟩

/-- A class `A` with a native method. -/
def nativeClass : ClassFile :=
  { minor := 0, major := 52, flags := 0x21, thisClass := 2, superClass := 0, interfaces := []
    pool := ⟨#[.unusable, .utf8 (Utf8.encode "A"), .classRef 1, .utf8 (Utf8.encode "f"),
      .utf8 (Utf8.encode "()V")]⟩
    fields := [], methods := [⟨AccessFlags.nativeBit, 3, 4, []⟩], attributes := [] }

/-- The same class with its method delegated. -/
def delegatingClass : ClassFile :=
  { nativeClass with
    pool := ⟨nativeClass.pool.entries ++ #[.utf8 (Utf8.encode "A_Delegate"), .classRef 5,
      .utf8 (Utf8.encode "(LA;)V"), .nameAndType 3 7, .methodRef 6 8, .utf8 (Utf8.encode "Code")]⟩
    methods := [⟨0, 3, 4, [⟨10, (Body.plain 1 1 [0x19, 0, 0xb8, 0, 9, 0xb1]).encode⟩]⟩] }

theorem writable_of_run_delegatingClass :
    decode nativeClass.encode = .ok nativeClass ∧
      ClassEdit.Run nativeClass [nativeClass] delegatingClass ∧
      decode delegatingClass.encode = .ok delegatingClass := by
  have hdecode : decode nativeClass.encode = .ok nativeClass := rfl
  have happly : (ClassEdit.replace [] true).apply nativeClass = .ok delegatingClass := by cbv
  have hrun : ClassEdit.Run nativeClass [nativeClass] delegatingClass := .step _ .start happly
  have hshort : ∀ constant ∈ delegatingClass.pool.entries, constant.encode.length < 100 := by
    decide
  have htexts : delegatingClass.pool.TextsBelow 100 := by
    intro bytes hbytes
    have hlength := hshort _ hbytes
    rw [Constant.encode, List.length_append, List.length_cons, length_be16] at hlength
    omega
  have hearlier : ∀ before ∈ [nativeClass], before.pool.TextsBelow (2 ^ 29) := by
    intro before hbefore
    rw [List.mem_singleton.1 hbefore]
    refine Pool.TextsBelow.mono (fun bytes hbytes => htexts bytes ?_) (by decide)
    exact Array.mem_append_left _ hbytes
  refine ⟨hdecode, hrun, ?_⟩
  exact (writable_of_run hdecode hrun).2.2.2.2 hearlier (htexts.mono (by decide)) (by decide)

end ClassFile

end JarTailor
