import JarTailor.Jar.Generated
import JarTailor.Proofs.ClassFile.Lossless
import JarTailor.Proofs.Edit.Promotions
import JarTailor.Proofs.Edit.Redirect
import JarTailor.Proofs.Edit.Replace
import JarTailor.Proofs.TypeUse.Uses

/-!
# Classes before they are renamed

The passes before the last append to the pool of a class, and what they leave of its attributes
finds no type that was not found before.
-/

namespace JarTailor

open TypeUse

namespace Member

/-- The second member has the descriptor of the first, and its attributes find nothing that those of
the first do not find. -/
def FindsNoMore (pool : Pool) (before after : Member) : Prop :=
  after.descriptor = before.descriptor ∧
    ∀ use, ∀ entry ∈ after.attributes, Finds pool use (.inAttribute entry) →
      ∃ other ∈ before.attributes, Finds pool use (.inAttribute other)

variable {pool : Pool} {before middle after : Member}

theorem FindsNoMore.refl (member : Member) : FindsNoMore pool member member :=
  ⟨rfl, fun _ entry hentry hfinds => ⟨entry, hentry, hfinds⟩⟩

theorem FindsNoMore.trans (h : FindsNoMore pool before middle)
    (h' : FindsNoMore pool middle after) : FindsNoMore pool before after := by
  refine ⟨h'.1.trans h.1, fun use entry hentry hfinds => ?_⟩
  obtain ⟨other, hother, hfinds⟩ := h'.2 use entry hentry hfinds
  exact h.2 use other hother hfinds

theorem findsNoMore_of_sameButFlags (h : Promotions.SameButFlags before after) :
    FindsNoMore pool before after := by
  obtain ⟨flags, rfl⟩ := h
  exact .refl _

/-- The second member has the descriptor of the first, and its attributes are looked into like
those of the first. -/
def FindsSame (pool : Pool) (before after : Member) : Prop :=
  after.descriptor = before.descriptor ∧
    List.Forall₂ (fun entry other =>
      step pool (.inAttribute other) = step pool (.inAttribute entry))
      before.attributes after.attributes

theorem FindsSame.refl (member : Member) : FindsSame pool member member :=
  ⟨rfl, List.forall₂_same.2 fun _ _ => rfl⟩

theorem FindsSame.ofMember_eq (h : FindsSame pool before after) :
    ofMember pool after = ofMember pool before := by
  rw [ofMember, ofMember, h.1, ofAttributes_eq_of_steps h.2]

theorem FindsSame.findsNoMore (h : FindsSame pool before after) :
    FindsNoMore pool before after := by
  refine ⟨h.1, fun use entry hentry hfinds => ?_⟩
  obtain ⟨other, hother, hstep⟩ := exists_related_left h.2 hentry
  exact ⟨other, hother, hfinds.of_step_eq hstep⟩

theorem FindsSame.withFlags (h : FindsSame pool before middle)
    (hflags : Promotions.SameButFlags middle after) : FindsSame pool before after := by
  obtain ⟨flags, rfl⟩ := hflags
  exact h

/-- A body holds its attributes. -/
theorem step_code {entry : Attribute} (body : Code) (hname : pool.text entry.name = .ok codeName)
    (hfits : body.Fits) (hinfo : entry.info = body.encode) :
    step pool (.inAttribute entry) = .ok ([], body.attributes.map .inAttribute) := by
  have hdecode : Code.decode entry.info = .ok body := Code.decode_eq_ok_iff.2 ⟨hfits, hinfo⟩
  rw [step, inAttribute, hname]
  show (Code.decode entry.info >>= _) = _
  rw [hdecode]
  rfl

/-- Other code leaves the attributes of a body. -/
theorem findsSame_of_rewrites {start : Pool} (h : Redirect.Rewrites start before after)
    (hextends : start.Extends pool)
    (hnames : ∀ entry ∈ before.attributes, ∃ name, start.text entry.name = .ok name) :
    FindsSame pool before after := by
  rcases h with rfl | ⟨grown, position, old, body, code, hgrown, hold, hnamed, hbody, hlength, rfl⟩
  · exact .refl _
  · refine ⟨rfl, related_withInfo (fun _ => rfl) fun found hfound => ?_⟩
    rw [hold] at hfound
    cases hfound
    obtain ⟨hfits, hinfo⟩ := Code.decode_eq_ok_iff.1 hbody
    obtain ⟨name, hname⟩ := hnames old (List.mem_of_getElem? hold)
    have hcode : pool.text old.name = .ok codeName := by
      rw [Attribute.isNamed_iff, hgrown.text hname] at hnamed
      rw [hextends.text hname, hnamed]
    have hfits' : ({ body with code } : Code).Fits :=
      ⟨by rw [hlength]; exact hfits.code, hfits.handlers, hfits.attributes⟩
    rw [step_code body hcode hfits hinfo]
    exact step_code { body with code } hcode hfits' rfl

/-- A new body that is short for a text that could be read has no attributes. -/
theorem findsNoMore_of_rebodies {start last : Pool} {descriptor : String}
    (h : Replace.Rebodies start last before after) (hextends : last.Extends pool)
    (hdescriptor : start.text before.descriptor = .ok descriptor)
    (hlength : (Utf8.encode descriptor).length < 2 ^ 16) : FindsNoMore pool before after := by
  rcases h with rfl | ⟨middle, text, name, body, hstart, hlast, htext, hname, hshort, rfl⟩
  · exact .refl _
  · refine ⟨descriptor_withCode, fun use entry hentry hfinds => ?_⟩
    rcases mem_withCode hentry with hentry | ⟨hinfo, hcode⟩
    · exact ⟨entry, hentry, hfinds⟩
    · have hcodeName : middle.text entry.name = .ok codeName := by
        rcases hcode with hcode | hcode
        · exact Attribute.isNamed_iff.1 hcode
        · rw [hcode, hname]
      have hfits : body.Fits := by
        rw [hstart.text hdescriptor] at htext
        cases htext
        have hcode := hshort.code
        refine ⟨by omega, ⟨0, by decide, by rw [hshort.handlers]; rfl⟩, ?_⟩
        rw [hshort.attributes]
        exact ⟨by decide, by simp⟩
      have hstep := step_code body (hextends.text (hlast.text hcodeName)) hfits hinfo
      rw [finds_iff_of_step hstep, hshort.attributes] at hfinds
      simp at hfinds

end Member

/-- Every operand of a call that may be redirected is a method. -/
def ClassFile.CallsMethods (classFile : ClassFile) : Prop :=
  ∀ method ∈ classFile.methods, ∀ entry ∈ method.attributes,
    entry.isNamed classFile.pool Member.codeName = true →
    ∀ body, Code.decode entry.info = .ok body →
    ∀ calls, Instruction.split body.code = .ok calls →
    ∀ call ∈ calls, Redirect.isCall call.opcode = true →
    ∀ high low tail, call.operands = high :: low :: tail →
    ∃ owner member, classFile.pool.get (ofBe16 high low) = .ok (.methodRef owner member) ∨
      classFile.pool.get (ofBe16 high low) = .ok (.interfaceMethodRef owner member)

/-- The descriptor of a method of a class. -/
def ClassFile.Describes (classFile : ClassFile) (text : String) : Prop :=
  ∃ method ∈ classFile.methods, classFile.pool.text method.descriptor = .ok text

namespace Tailor

/-- What the passes before the last make of a class. -/
def Prepares (tailor : Tailor) (name : String) (flags : ClassFlags) (before after : ClassFile) :
    Prop :=
  ∃ redirected count replaced promoted,
    (Redirect.apply tailor.config.redirects before).result = .ok (redirected, count) ∧
    (tailor.replaceBodies name flags redirected).result = .ok replaced ∧
    (tailor.promotions.apply replaced.classFile).result = .ok (after, promoted)

/-- The classes that entries may be added for. -/
def Introduces (tailor : Tailor) (flags : ClassFlags) (references : References) (name : String) :
    Prop :=
  Redirect.Targets tailor.config.redirects (· ∈ references.methods) name ∨
    flags.stubbed = true ∧ Replace.Introduces references.name name

/-- The descriptors that may be added. -/
def Describes (tailor : Tailor) (flags : ClassFlags) (references : References)
    (original : ClassFile) (text : String) : Prop :=
  Redirect.Describes tailor.config.redirects (· ∈ references.methods) text ∨
    flags.stubbed = true ∧ Replace.Describes references.name original.Describes text

/-- A class with constants added to its pool and with members and attributes that find no more, and
no less if no body was replaced. -/
structure Edited (replaced : Bool) (classes descriptors : String → Prop)
    (before after : ClassFile) : Prop where
  gains : Pool.Gains classes descriptors before.pool after.pool
  attributes : List.Forall₂ (Promotions.Rerecords after.pool) before.attributes after.attributes
  fields : List.Forall₂ Promotions.SameButFlags before.fields after.fields
  methods : ∀ method ∈ after.methods, ∃ old ∈ before.methods, old.FindsNoMore after.pool method
  unreplaced : replaced = false →
    List.Forall₂ (Member.FindsSame after.pool) before.methods after.methods
  thisClass : after.thisClass = before.thisClass

section Passes

variable {tailor : Tailor} {name : String} {flags : ClassFlags} {before after : ClassFile}
variable {references : References} {uses : List TypeUse}

theorem passes_eq_ok {tailored : Tailored}
    (h : (tailor.passes name flags before).result = .ok tailored) :
    ∃ prepared renamed, tailor.Prepares name flags before prepared ∧
      tailor.names.apply prepared = .ok (tailored.classFile, renamed) ∧
      (tailored.changed = false → renamed = false) := by
  simp only [passes, Traced.result_bind, Traced.result_monadLift] at h
  obtain ⟨⟨redirected, count⟩, hredirected, h⟩ := Except.bind_eq_ok_iff.1 h
  obtain ⟨replaced, hreplaced, h⟩ := Except.bind_eq_ok_iff.1 h
  obtain ⟨⟨prepared, promoted⟩, hpromoted, h⟩ := Except.bind_eq_ok_iff.1 h
  obtain ⟨⟨last, renamed⟩, hrenamed, h⟩ := Except.bind_eq_ok_iff.1 h
  cases h
  refine ⟨prepared, renamed, ⟨redirected, count, replaced, promoted, hredirected, hreplaced,
    hpromoted⟩, hrenamed, ?_⟩
  intro hchanged
  exact (Bool.or_eq_false_iff.1 hchanged).2

/-- The attributes of the members of a class whose references are known have names. -/
theorem exists_name_of_known (h : References.Known before references uses) {member : Member}
    (hmember : member ∈ before.methods) {entry : Attribute} (hentry : entry ∈ member.attributes) :
    ∃ text, before.pool.text entry.name = .ok text := by
  obtain ⟨ofClass, ofFields, ofMethods, hlists⟩ := lists_of_all h.all
  obtain ⟨ofMember, -, hofMember⟩ := exists_related_right hlists.methods hmember
  obtain ⟨inside, hinside⟩ := exists_step_of_ofMember hofMember hentry (.self _)
  exact exists_name_of_step hinside

theorem exists_descriptor_of_known (h : References.Known before references uses) {member : Member}
    (hmember : member ∈ before.methods) :
    ∃ text, before.pool.text member.descriptor = .ok text :=
  h.exists_text (mem_of_member h.all (List.mem_append_right _ hmember))

theorem methodCallsOnly_of_known (h : References.Known before references uses)
    (hcalls : before.CallsMethods) {member : Member} (hmember : member ∈ before.methods) :
    Redirect.MethodCallsOnly (· ∈ references.methods) before.pool member := by
  intro entry hentry larger hlarger hnamed body hbody calls hsplit call hcall hkind high low tail
    hoperands pool hpool callee hcallee
  obtain ⟨text, htext⟩ := exists_name_of_known h hmember hentry
  have hnamed : entry.isNamed before.pool Member.codeName = true := by
    rw [Attribute.isNamed_iff, hlarger.text htext] at hnamed
    rw [Attribute.isNamed_iff, htext, hnamed]
  obtain ⟨owner, pair, hget⟩ := hcalls member hmember entry hentry hnamed body hbody calls hsplit
    call hcall hkind high low tail hoperands
  obtain ⟨methods, hmethods, hmem⟩ := h.methods
  have hentry : before.pool.entries[(ofBe16 high low).toNat]? = some (.methodRef owner pair) ∨
      before.pool.entries[(ofBe16 high low).toNat]? = some (.interfaceMethodRef owner pair) :=
    hget.imp Pool.get_eq_ok_iff.1 Pool.get_eq_ok_iff.1
  obtain ⟨method, hmethod, hfound⟩ := References.exists_member_of_methodsOf hmethods hentry
  rw [UInt16.ofNat_toNat] at hfound
  obtain rfl : method = callee := Except.ok.inj ((hpool.member hfound).symm.trans hcallee)
  exact (hmem method).2 hmethod

theorem findsSame_of_redirected {after : ClassFile} (h : References.Known before references uses)
    (hredirected : Redirect.Redirected tailor.config.redirects (· ∈ references.methods) before after)
    {pool : Pool} (hextends : after.pool.Extends pool) :
    List.Forall₂ (Member.FindsSame pool) before.methods after.methods := by
  have hnames : ∀ old ∈ before.methods, ∀ entry ∈ old.attributes,
      ∃ name, before.pool.text entry.name = .ok name :=
    fun old hold entry hentry => exists_name_of_known h hold hentry
  have hgrown : before.pool.Extends pool := hredirected.gains.extends.trans hextends
  refine ((List.forall₂_and_left _ _).2 ⟨hnames, hredirected.methods⟩).imp fun old new hrelated => ?_
  exact Member.findsSame_of_rewrites hrelated.2 hgrown hrelated.1

/-- A descriptor of a class that was read is short. -/
theorem length_lt_of_decode {bytes : Bytes} {index : Index} {text : String}
    (h : ClassFile.decode bytes = .ok before) (htext : before.pool.text index = .ok text) :
    (Utf8.encode text).length < 2 ^ 16 := by
  obtain ⟨hfits, -⟩ := ClassFile.decode_eq_ok_iff.1 h
  have hget := Pool.get_eq_ok_iff.1 (Pool.text_eq_ok_iff.1 htext)
  exact hfits.pool.texts _ (Array.mem_of_getElem? hget)

/-- What replacing bodies gains, if bodies may be replaced. -/
theorem edited_of_replaceBodies {bytes : Bytes} {redirected : ClassFile} {replaced : Tailored}
    (hdecode : ClassFile.decode bytes = .ok before) (h : References.Known before references uses)
    (hredirected :
      Redirect.Redirected tailor.config.redirects (· ∈ references.methods) before redirected)
    (hreplaced : (tailor.replaceBodies name flags redirected).result = .ok replaced) :
    Pool.Gains (tailor.Introduces flags references) (tailor.Describes flags references before)
        before.pool replaced.classFile.pool ∧
      (∀ method ∈ replaced.classFile.methods,
        ∃ old ∈ before.methods, old.FindsNoMore replaced.classFile.pool method) ∧
      (flags.stubbed = false → List.Forall₂ (Member.FindsSame replaced.classFile.pool)
        before.methods replaced.classFile.methods) ∧
      replaced.classFile = { before with
        pool := replaced.classFile.pool, methods := replaced.classFile.methods } := by
  have hgains : Pool.Gains (tailor.Introduces flags references)
      (tailor.Describes flags references before) before.pool redirected.pool :=
    hredirected.gains.mono (fun _ => Or.inl) (fun _ => Or.inl)
  unfold replaceBodies at hreplaced
  cases hstubbed : flags.stubbed with
  | false =>
      rw [hstubbed] at hreplaced
      cases hreplaced
      have hsame := findsSame_of_redirected h hredirected fun _ _ h => h
      refine ⟨hgains, fun method hmethod => ?_, fun _ => hsame, hredirected.others⟩
      obtain ⟨old, hold, hfinds⟩ := exists_related_left hsame hmethod
      exact ⟨old, hold, hfinds.findsNoMore⟩
  | true =>
      rw [hstubbed] at hreplaced
      simp only [Bool.not_true, Bool.false_eq_true, if_false, Traced.result_bind] at hreplaced
      obtain ⟨⟨found, used⟩, happly, hdone⟩ := Except.bind_eq_ok_iff.1 hreplaced
      cases hdone
      have hsize : redirected.pool.size ≤ Pool.capacity :=
        hgains.size_le (ClassFile.decode_eq_ok_iff.1 hdecode).1.pool.size_le
      have hdescriptor : ∀ member ∈ redirected.methods, ∃ text, before.Describes text ∧
          redirected.pool.text member.descriptor = .ok text ∧
          (Utf8.encode text).length < 2 ^ 16 := by
        intro member hmember
        obtain ⟨old, hold, hfinds⟩ :=
          exists_related_left (findsSame_of_redirected h hredirected fun _ _ h => h) hmember
        obtain ⟨text, htext⟩ := exists_descriptor_of_known h hold
        refine ⟨text, ⟨old, hold, htext⟩, ?_, length_lt_of_decode hdecode htext⟩
        rw [hfinds.1, hgains.extends.text htext]
      have hdescribed : ∀ member ∈ redirected.methods,
          Replace.DescribedBy before.Describes redirected.pool member := by
        intro member hmember larger hlarger found hfound
        obtain ⟨text, htext, hread, -⟩ := hdescriptor member hmember
        rw [hlarger.text hread] at hfound
        rwa [← Except.ok.inj hfound]
      obtain ⟨owner, howner, hbodies⟩ := Replace.replaced_of_apply happly hsize hdescribed
      have hname : owner = references.name := by
        have hthis : redirected.thisClass = before.thisClass := by rw [hredirected.others]
        have hsame : redirected.name = .ok references.name := by
          rw [ClassFile.name, hthis]
          exact hgains.extends.className h.name
        exact Except.ok.inj (howner.symm.trans hsame)
      subst hname
      refine ⟨hgains.trans (hbodies.gains.mono (fun _ h => Or.inr ⟨hstubbed, h⟩)
        (fun _ h => Or.inr ⟨hstubbed, h⟩)), fun method hmethod => ?_, nofun, ?_⟩
      · obtain ⟨middle, hmiddle, hrebodies⟩ := exists_related_left hbodies.methods hmethod
        obtain ⟨old, hold, hfinds⟩ := exists_related_left
          (findsSame_of_redirected h hredirected hbodies.gains.extends) hmiddle
        obtain ⟨text, -, hread, hlength⟩ := hdescriptor middle hmiddle
        refine ⟨old, hold, hfinds.findsNoMore.trans ?_⟩
        exact Member.findsNoMore_of_rebodies hrebodies (fun _ _ h => h) hread hlength
      · rw [hbodies.others, hredirected.others]

theorem edited_of_prepares {bytes : Bytes} (hdecode : ClassFile.decode bytes = .ok before)
    (h : References.Known before references uses) (hcalls : before.CallsMethods)
    (hprepares : tailor.Prepares name flags before after) :
    Edited flags.stubbed (tailor.Introduces flags references)
      (tailor.Describes flags references before) before after := by
  obtain ⟨redirected, count, replaced, promoted, hredirect, hreplace, hpromote⟩ := hprepares
  have hsize := (ClassFile.decode_eq_ok_iff.1 hdecode).1.pool.size_le
  have hredirected := Redirect.redirected_of_apply hredirect hsize
    fun member hmember => methodCallsOnly_of_known h hcalls hmember
  obtain ⟨hgains, hmethods, hsame, hothers⟩ :=
    edited_of_replaceBodies hdecode h hredirected hreplace
  have hpromoted := Promotions.promoted_of_apply hpromote
  have hpool : after.pool = replaced.classFile.pool := by rw [hpromoted.others]
  refine ⟨hpool ▸ hgains, ?_, ?_, fun method hmethod => ?_, fun hstubbed => ?_, ?_⟩
  · have hattributes := hpromoted.attributes
    rw [← hpool, hothers] at hattributes
    exact hattributes
  · have hfields := hpromoted.fields
    rw [hothers] at hfields
    exact hfields
  · obtain ⟨middle, hmiddle, hflags⟩ := exists_related_left hpromoted.methods hmethod
    obtain ⟨old, hold, hfinds⟩ := hmethods middle hmiddle
    exact ⟨old, hold, hpool ▸ hfinds.trans (Member.findsNoMore_of_sameButFlags hflags)⟩
  · rw [hpool]
    exact related_trans (hsame hstubbed) hpromoted.methods fun _ _ _ hfinds hflags =>
      hfinds.withFlags hflags
  · rw [hpromoted.others, hothers]

end Passes

section Uses

variable {replaced : Bool} {classes descriptors : String → Prop} {before after : ClassFile}
variable {ofClass ofClass' uses uses' : List TypeUse}
variable {ofFields ofFields' ofMethods ofMethods' : List (List TypeUse)}

/-- Records of nested classes are not looked into. -/
theorem step_innerClasses {pool : Pool} {entry : Attribute}
    (h : entry.isNamed pool "InnerClasses" = true) :
    step pool (.inAttribute entry) = .ok ([], []) := by
  rw [step, inAttribute, Attribute.isNamed_iff.1 h]
  rfl

theorem Edited.ofClass_eq (h : Edited replaced classes descriptors before after)
    (hbefore : ofAttributes before.pool before.attributes = .ok ofClass)
    (hafter : ofAttributes after.pool after.attributes = .ok ofClass') : ofClass' = ofClass := by
  have hsteps : ofAttributes after.pool after.attributes =
      ofAttributes after.pool before.attributes := by
    refine ofAttributes_eq_of_steps (h.attributes.imp fun entry other hrerecords => ?_)
    rcases hrerecords with rfl | ⟨hnamed, hname, -⟩
    · rfl
    · have hother : other.isNamed after.pool "InnerClasses" = true := by
        rw [Attribute.isNamed, hname]
        exact hnamed
      rw [step_innerClasses hnamed, step_innerClasses hother]
  rw [hsteps, ofAttributes_extends h.gains.extends hbefore] at hafter
  exact (Except.ok.inj hafter).symm

/-- Members that are looked into alike use the same types in a pool that grew. -/
theorem membersUse_extends {first second : Pool} (hextends : first.Extends second)
    {members others : List Member} {found found' : List (List TypeUse)}
    (hmembers : List.Forall₂ (Member.FindsSame second) members others)
    (h : MembersUse first members found) (h' : MembersUse second others found') :
    found' = found := by
  have hsame : MembersUse second members found' :=
    related_trans hmembers h' fun _ _ _ hfinds hother => hfinds.ofMember_eq.symm.trans hother
  have hgrown : MembersUse second members found := h.imp fun _ _ => ofMember_extends hextends
  exact hgrown.unique hsame

theorem Edited.mem_ofMethods (h : Edited replaced classes descriptors before after)
    (hbefore : MembersUse before.pool before.methods ofMethods)
    (hafter : MembersUse after.pool after.methods ofMethods') {use : TypeUse}
    (huse : use ∈ ofMethods'.flatten) : use ∈ ofMethods.flatten := by
  obtain ⟨found, hfound, huse⟩ := List.mem_flatten.1 huse
  obtain ⟨method, hmethod, hofMethod⟩ := exists_related_left hafter hfound
  obtain ⟨old, hold, hdescriptor, hfinds⟩ := h.methods method hmethod
  obtain ⟨ofOld, hmem, hofOld⟩ := exists_related_right hbefore hold
  refine List.mem_flatten.2 ⟨ofOld, hmem, (mem_ofMember_iff hofOld).2 ?_⟩
  rcases (mem_ofMember_iff hofMethod).1 huse with rfl | ⟨entry, hentry, hfind⟩
  · exact Or.inl (by rw [hdescriptor])
  · obtain ⟨other, hother, hfind⟩ := hfinds use entry hentry hfind
    refine Or.inr ⟨other, hother, hfind.of_extends h.gains.extends fun met hmet => ?_⟩
    exact exists_step_of_ofMember hofOld hother hmet

/-- A text is used first as before, or a new constant uses it, or a body was replaced and only
methods used it before. -/
theorem Edited.first (h : Edited replaced classes descriptors before after)
    (hbefore : Lists before ofClass ofFields ofMethods uses)
    (hafter : all after = .ok uses') {use : TypeUse} (hfirst : First uses' use) :
    (use.role = .className ∧ ∃ text, after.pool.text use.index = .ok text ∧ classes text) ∨
      (use.role = .descriptor ∧ ∃ text, after.pool.text use.index = .ok text ∧
        descriptors text) ∨
      First uses use ∨
      replaced = true ∧ use ∈ ofMethods.flatten ∧ ∀ other ∈ uses, other.index = use.index →
        other ∈ ofMethods.flatten := by
  obtain ⟨ofClass', ofFields', ofMethods', hlists⟩ := lists_of_all hafter
  obtain ⟨newClasses, hclasses, hnewClass⟩ := exists_new_classEntries h.gains
  obtain ⟨newDescriptors, hdescriptors, hnewDescriptor⟩ := exists_new_descriptorEntries h.gains
  have hfields : List.Forall₂ (Member.FindsSame after.pool) before.fields after.fields :=
    h.fields.imp fun member _ hflags => (Member.FindsSame.refl member).withFlags hflags
  rw [hlists.uses, hclasses, hdescriptors, h.ofClass_eq hbefore.attributes hlists.attributes,
    membersUse_extends h.gains.extends hfields hbefore.fields hlists.fields] at hfirst
  rcases First.of_front ofMethods.flatten hfirst with hnew | hnew | hold | ⟨hmethods, hnone⟩
  · exact Or.inl (hnewClass use hnew)
  · exact Or.inr (Or.inl (hnewDescriptor use hnew))
  · rw [hbefore.uses]
    exact Or.inr (Or.inr (Or.inl hold))
  · cases replaced with
    | false =>
        have hsame := membersUse_extends h.gains.extends (h.unreplaced rfl) hbefore.methods
          hlists.methods
        rw [hbefore.uses, ← hsame]
        exact Or.inr (Or.inr (Or.inl (first_append_iff.2 (Or.inr ⟨hmethods, hnone⟩))))
    | true =>
        refine Or.inr (Or.inr (Or.inr ⟨rfl, ?_, fun other hother hindex => ?_⟩))
        · exact h.mem_ofMethods hbefore.methods hlists.methods hmethods.mem
        · rw [hbefore.uses] at hother
          rcases List.mem_append.1 hother with hother | hother
          · exact absurd hindex (hnone other hother)
          · exact hother

end Uses

end Tailor

end JarTailor
