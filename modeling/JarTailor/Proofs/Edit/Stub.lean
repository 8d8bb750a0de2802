import JarTailor.Edit.Stub
import JarTailor.Proofs.Edit.Bodies
import JarTailor.Proofs.Success

/-!
# Which classes have stubs

All bodies of a stub share the constants of one. A class that can be read has a stub if its pool
has room for these and what it offers has names and descriptors.
-/

namespace JarTailor

theorem Body.takes_throwParts (pool : Pool) : throwParts.Takes pool (2 + (2 + (4 + 0))) := by
  refine Pool.Edit.takes_bind (Pool.takes_internClass _) fun exception first _ hexception => ?_
  refine Pool.Edit.takes_bind (Pool.takes_internString _) fun message second hsecond _ => ?_
  have howner : (Pool.internClass exceptionConstructor.owner).Settled exception second :=
    hexception.mono hsecond
  exact Pool.Edit.takes_bind (Pool.takes_internMethod howner) fun initialiser last _ _ =>
    Pool.Edit.takes_pure last (exception, message, initialiser)

namespace Stub

/-- A method that stays in a stub and has a body to be replaced has a method's descriptor. -/
def HasType (pool : Pool) (member : Member) : Prop :=
  member.has AccessFlags.abstractBit = false → ∃ descriptor type,
    pool.text member.descriptor = .ok descriptor ∧ MethodType.parse descriptor = .ok type

/-- The pool has the constants of a body that throws, or room for them. -/
def Roomy (pool : Pool) : Prop :=
  ∃ count, Body.throwParts.Takes pool count ∧ pool.size + count ≤ Pool.capacity

/-- A method that a stub offers: part of the interface, and not the static initialiser. -/
def offers (pool : Pool) (member : Member) : Bool :=
  isApi member && !pool.isText member.name "<clinit>"

theorem offers_iff {pool : Pool} {member : Member} :
    offers pool member = true ↔
      isApi member = true ∧ pool.text member.name ≠ .ok "<clinit>" := by
  rw [offers, Bool.and_eq_true, Bool.not_eq_true', ← Bool.not_eq_true, Pool.isText_iff]

section Methods

variable {before after : Pool} {member : Member} {codeName : Index}

theorem HasType.mono (h : HasType before member) (hextends : before.Extends after) :
    HasType after member := by
  intro hconcrete
  obtain ⟨descriptor, type, htext, hparse⟩ := h hconcrete
  exact ⟨descriptor, type, hextends.text htext, hparse⟩

theorem exists_throwStub {descriptor : String} {type : MethodType} {isStatic : Bool}
    (hparse : MethodType.parse descriptor = .ok type) (hroomy : Roomy before) :
    ∃ body after, (Body.throwStub descriptor isStatic).complete before = .ok (body, after) ∧
      before.Extends after ∧ Roomy after := by
  obtain ⟨count, htakes, hroom⟩ := hroomy
  obtain ⟨parts, after, hparts, hextends, hsize, hsettled⟩ :=
    htakes before (.refl before) hroom
  -- the first body appends the constants, and every other one finds them
  have hroomy : Roomy after := ⟨0, hsettled.takes, Nat.le_trans hsize hroom⟩
  exact ⟨_, after, Body.throwStub_eq_ok_iff.2 ⟨type, parts, hparse, hparts, rfl⟩, hextends, hroomy⟩

/-- What becomes of one method: nothing, if it is abstract, and else it gets a body that throws. -/
theorem method_eq_ok_iff {stubbed : Member} :
    (method codeName member).complete before = .ok (stubbed, after) ↔
      member.has AccessFlags.abstractBit = true ∧ stubbed = member ∧ after = before ∨
        member.has AccessFlags.abstractBit = false ∧ ∃ descriptor body,
          before.text member.descriptor = .ok descriptor ∧
            (Body.throwStub descriptor (member.has AccessFlags.staticBit)).complete before =
              .ok (body, after) ∧
            stubbed = { member with
              flags := member.flags.dropNative
              attributes := (member.attributes.filter fun entry =>
                !entry.isNamed after Member.codeName) ++ [⟨codeName, body.encode⟩] } := by
  unfold method
  cases habstract : member.has AccessFlags.abstractBit with
  | true =>
      simp only [if_true, Pool.Edit.pure_eq_ok_iff]
      constructor
      · rintro ⟨rfl, rfl⟩
        exact Or.inl ⟨trivial, rfl, rfl⟩
      · rintro (⟨-, rfl, rfl⟩ | ⟨⟨⟩, -⟩)
        exact ⟨rfl, rfl⟩
  | false =>
      simp only [Bool.false_eq_true, if_false, Pool.Edit.bind_eq_ok_iff, Pool.Edit.lift_eq_ok_iff,
        Pool.Edit.pure_eq_ok_iff, Pool.Edit.get_eq_ok_iff]
      constructor
      · rintro ⟨_, _, ⟨rfl, rfl⟩, descriptor, _, ⟨htext, rfl⟩, body, _, hbody, _, _, ⟨rfl, rfl⟩,
          rfl, rfl⟩
        exact Or.inr ⟨trivial, descriptor, body, htext, hbody, rfl⟩
      · rintro (⟨⟨⟩, -⟩ | ⟨-, descriptor, body, htext, hbody, rfl⟩)
        exact ⟨before, before, ⟨rfl, rfl⟩, descriptor, before, ⟨htext, rfl⟩, body, after, hbody,
          after, after, ⟨rfl, rfl⟩, rfl, rfl⟩

theorem exists_method (htype : HasType before member) (hroomy : Roomy before) :
    ∃ stubbed after, (method codeName member).complete before = .ok (stubbed, after) ∧
      before.Extends after ∧ Roomy after := by
  cases habstract : member.has AccessFlags.abstractBit with
  | true =>
      exact ⟨member, before, method_eq_ok_iff.2 (Or.inl ⟨habstract, rfl, rfl⟩), .refl before,
        hroomy⟩
  | false =>
      obtain ⟨descriptor, type, htext, hparse⟩ := htype habstract
      obtain ⟨body, after, hbody, hextends, hroomy⟩ := exists_throwStub hparse hroomy
      exact ⟨_, after, method_eq_ok_iff.2 (Or.inr ⟨habstract, descriptor, body, htext, hbody, rfl⟩),
        hextends, hroomy⟩

theorem exists_mapM_method {kept : List Member} (htypes : ∀ member ∈ kept, HasType before member)
    (hroomy : Roomy before) : ∃ stubbed after,
      (kept.mapM (method codeName)).complete before = .ok (stubbed, after) ∧
        before.Extends after := by
  induction kept generalizing before with
  | nil => exact ⟨[], before, rfl, .refl before⟩
  | cons member kept ih =>
      obtain ⟨first, middle, hfirst, hextends, hroomy⟩ : ∃ first middle,
          (method codeName member).complete before = .ok (first, middle) ∧ _ :=
        exists_method (htypes member List.mem_cons_self) hroomy
      obtain ⟨others, after, hothers, hextends'⟩ := ih
        (fun other hother => (htypes other (List.mem_cons_of_mem _ hother)).mono hextends) hroomy
      refine ⟨first :: others, after, ?_, hextends.trans hextends'⟩
      rw [List.mapM_cons]
      exact Pool.Edit.bind_eq_ok_iff.2 ⟨first, middle, hfirst, Pool.Edit.bind_eq_ok_iff.2
        ⟨others, after, hothers, rfl⟩⟩

theorem keepsMethod_eq_ok_iff {pool : Pool} {keep : Bool} :
    keepsMethod pool member = .ok keep ↔
      (isApi member = true → ∃ name, pool.text member.name = .ok name) ∧
        offers pool member = keep := by
  unfold keepsMethod offers
  cases hapi : isApi member with
  | false => simp [pure, Except.pure]
  | true =>
      simp only [Bool.not_true, Bool.false_eq_true, if_false, Except.bind_eq_ok_iff, Bool.true_and,
        forall_const, Pool.isText]
      constructor
      · rintro ⟨name, hname, hkeep⟩
        rw [hname, ← Except.ok.inj hkeep]
        exact ⟨⟨name, rfl⟩, (decide_not ..).symm⟩
      · rintro ⟨⟨name, hname⟩, rfl⟩
        rw [hname]
        exact ⟨name, rfl, congrArg Except.ok (decide_not ..)⟩

theorem keptMethods_eq_ok_iff {pool : Pool} {methods kept : List Member} :
    keptMethods pool methods = .ok kept ↔
      (∀ member ∈ methods, isApi member = true → ∃ name, pool.text member.name = .ok name) ∧
        methods.filter (offers pool) = kept := by
  induction methods generalizing kept with
  | nil => simp [keptMethods, pure, Except.pure]
  | cons member methods ih =>
      simp only [keptMethods, Except.bind_eq_ok_iff, keepsMethod_eq_ok_iff, ih,
        List.forall_mem_cons]
      constructor
      · rintro ⟨_, ⟨hname, rfl⟩, _, ⟨hnames, rfl⟩, h⟩
        refine ⟨⟨hname, hnames⟩, ?_⟩
        rw [← Except.ok.inj h, List.filter_cons]
      · rintro ⟨⟨hname, hnames⟩, rfl⟩
        refine ⟨_, ⟨hname, rfl⟩, _, ⟨hnames, rfl⟩, ?_⟩
        rw [List.filter_cons]
        rfl

end Methods

end Stub

/-- What a class needs to have a stub: a name, room for nine constants, and names and descriptors
for the methods that it offers. -/
structure ClassFile.Stubbable (classFile : ClassFile) : Prop where
  declares : ∃ name, classFile.name = .ok name
  room : classFile.pool.size + 9 ≤ Pool.capacity
  names : ∀ method ∈ classFile.methods, Stub.isApi method = true →
    ∃ name, classFile.pool.text method.name = .ok name
  types : ∀ method ∈ classFile.methods, Stub.isApi method = true →
    classFile.pool.text method.name ≠ .ok "<clinit>" → Stub.HasType classFile.pool method

namespace Stub

theorem ofBytes_eq_ok_iff {bytes stub : Bytes} :
    (ofBytes bytes).result = .ok stub ↔ ∃ classFile kept stubbed pool,
      ClassFile.decode bytes = .ok classFile ∧
        keptMethods classFile.pool classFile.methods = .ok kept ∧
          (methods kept).complete classFile.pool = .ok (stubbed, pool) ∧
            (∃ name, pool.className classFile.thisClass = .ok name) ∧
              stub = ClassFile.encode { classFile with
                pool, methods := stubbed, fields := classFile.fields.filter isApi } := by
  simp only [ofBytes, Traced.result_bind, Traced.result_monadLift, result_log]
  constructor
  · intro h
    obtain ⟨classFile, hdecode, h⟩ := Except.bind_eq_ok_iff.1 h
    obtain ⟨kept, hkept, h⟩ := Except.bind_eq_ok_iff.1 h
    obtain ⟨⟨stubbed, pool⟩, hmethods, h⟩ := Except.bind_eq_ok_iff.1 h
    obtain ⟨name, hname, h⟩ := Except.bind_eq_ok_iff.1 h
    exact ⟨classFile, kept, stubbed, pool, hdecode, hkept, hmethods, ⟨name, hname⟩,
      (Except.ok.inj h).symm⟩
  · rintro ⟨classFile, kept, stubbed, pool, hdecode, hkept, hmethods, ⟨name, hname⟩, rfl⟩
    exact Except.bind_eq_ok_iff.2 ⟨classFile, hdecode, Except.bind_eq_ok_iff.2 ⟨kept, hkept,
      Except.bind_eq_ok_iff.2 ⟨(stubbed, pool), hmethods,
        Except.bind_eq_ok_iff.2 ⟨name, hname, rfl⟩⟩⟩⟩

theorem exists_ofBytes {bytes : Bytes} {classFile : ClassFile}
    (hdecode : ClassFile.decode bytes = .ok classFile) (h : classFile.Stubbable) :
    ∃ stub, (ofBytes bytes).result = .ok stub := by
  have hkept := keptMethods_eq_ok_iff.2 ⟨h.names, Eq.refl _⟩
  obtain ⟨codeName, named, hnamed, hgrown, hsize, -⟩ :=
    Pool.takes_internText Member.codeName classFile.pool (.refl _)
      (Nat.le_trans (Nat.add_le_add_left (by decide) _) h.room)
  have hroomy : Roomy named := ⟨_, Body.takes_throwParts named, by have := h.room; omega⟩
  have htypes : ∀ member ∈ classFile.methods.filter (offers classFile.pool),
      HasType named member := by
    intro member hmember
    obtain ⟨hmember, hoffered⟩ := List.mem_filter.1 hmember
    obtain ⟨hapi, hname⟩ := offers_iff.1 hoffered
    exact (h.types member hmember hapi hname).mono hgrown
  obtain ⟨stubbed, pool, hstubbed, hextends⟩ := exists_mapM_method htypes hroomy
  have hmethods : (methods (classFile.methods.filter (offers classFile.pool))).complete
      classFile.pool = .ok (stubbed, pool) :=
    Pool.Edit.bind_eq_ok_iff.2 ⟨codeName, named, hnamed, hstubbed⟩
  obtain ⟨name, hname⟩ := h.declares
  have hlast : pool.className classFile.thisClass = .ok name :=
    (hgrown.trans hextends).className hname
  exact ⟨_, ofBytes_eq_ok_iff.2 ⟨classFile, _, stubbed, pool, hdecode, hkept, hmethods,
    ⟨name, hlast⟩, rfl⟩⟩

/-- The failure is that of a class among the files, which has no stub. -/
def Refuses (files : FileMap) (root : String) (failure : Failure) : Prop :=
  ∃ path bytes cause, (path, bytes) ∈ under root files ∧
    (ofBytes bytes).result = .error cause ∧ failure = cause.within (.stubbing path) ∧
      ∀ classFile, ClassFile.decode bytes = .ok classFile → ¬classFile.Stubbable

theorem refuses_of_ofFiles {files : FileMap} {root : String} {failure : Failure}
    (h : (ofFiles files root).result = .error failure) : Refuses files root failure := by
  simp only [ofFiles, Traced.result_bind, Traced.result_mapM, result_log] at h
  obtain h | ⟨_, -, h⟩ := Except.bind_eq_error_iff.1 h
  · obtain ⟨⟨path, bytes⟩, hmem, h⟩ := Except.exists_of_mapM_eq_error h
    rw [Traced.result_within] at h
    obtain h | ⟨_, -, h⟩ := Except.bind_eq_error_iff.1 h
    · cases hbytes : (ofBytes bytes).result with
      | ok stub =>
          rw [hbytes] at h
          cases h
      | error cause =>
          rw [hbytes] at h
          cases h
          refine ⟨path, bytes, cause, hmem, hbytes, rfl, fun classFile hdecode hstubbable => ?_⟩
          obtain ⟨stub, hstub⟩ := exists_ofBytes hdecode hstubbable
          exact nomatch hbytes.symm.trans hstub
    · cases h
  · cases h

end Stub

end JarTailor
