import JarTailor.Edit.Replace
import JarTailor.Proofs.Bytecode.Made
import JarTailor.Proofs.ClassFile.Contents
import JarTailor.Proofs.Descriptor
import JarTailor.Proofs.Success

/-!
# What replacing bodies changes

Replacing bodies appends to the pool what the new bodies need. A new body is short for its
descriptor, and nothing in it but its code is not empty.
-/

namespace JarTailor

theorem Utf8.length_le (text : String) : text.toList.length ≤ (Utf8.encode text).length := by
  rw [Utf8.encode_eq_flatMap]
  induction text.toList with
  | nil => exact Nat.zero_le _
  | cons c chars ih =>
      have hpos : 0 < (String.utf8EncodeChar c).length :=
        List.length_pos_iff.2 String.utf8EncodeChar_ne_nil
      rw [List.flatMap_cons, List.length_append, List.length_cons]
      omega

namespace MethodType

theorem length_parameters {text : String} {type : MethodType}
    (h : MethodType.parse text = .ok type) : type.parameters.length ≤ text.toList.length := by
  obtain ⟨-, rfl⟩ := MethodType.parse_eq_ok_iff.1 h
  have hlist : ∀ types : List FieldType, types.length ≤ (types.flatMap FieldType.chars).length := by
    intro types
    induction types with
    | nil => exact Nat.zero_le _
    | cons type types ih =>
        have hpos : 0 < type.chars.length := List.length_pos_iff.2 type.chars_ne_nil
        rw [List.flatMap_cons, List.length_append, List.length_cons]
        omega
  have hparameters := hlist type.parameters
  rw [MethodType.text, String.toList_ofList, MethodType.chars_eq, List.length_cons,
    List.length_append]
  omega

end MethodType

namespace Body

theorem length_load (opcode : Opcode) (slot : UInt16) : (load opcode slot).length ≤ 4 := by
  unfold load indexed
  split <;> simp

theorem length_loadAll (slot : UInt16) (types : List FieldType) :
    (loadAll slot types).length ≤ 4 * types.length := by
  induction types generalizing slot with
  | nil => exact Nat.le_refl _
  | cons type types ih =>
      have hfirst := length_load type.kind.loadOpcode slot
      have hrest := ih (slot + type.kind.slots)
      rw [loadAll, List.length_append, List.length_cons]
      omega

end Body

namespace Replace

/-- The classes that new bodies name: an exception and the companion of their class. -/
def Introduces (owner name : String) : Prop :=
  name = Body.exceptionClass ∨ name = Body.delegateClass owner

/-- The descriptors that new bodies name: those of methods of their class, with the class as a
first parameter or without, and that of the constructor of the exception. -/
def Describes (owner : String) (described : String → Prop) (text : String) : Prop :=
  text = Body.exceptionConstructor.descriptor ∨
    ∃ descriptor, described descriptor ∧
      (descriptor = text ∨ Descriptor.withReceiver owner descriptor = .ok text)

/-- The pool gains what new bodies need. -/
abbrev GainsBodies (owner : String) (described : String → Prop) : Pool → Pool → Prop :=
  Pool.Gains (Introduces owner) (Describes owner described)

/-- A body that is only code, and not much of it for a method with this descriptor. -/
structure Short (descriptor : String) (body : Code) : Prop where
  handlers : body.handlers = []
  attributes : body.attributes = []
  code : body.code.length ≤ 4 * (Utf8.encode descriptor).length + 16

section Bodies

variable {owner : String} {described : String → Prop} {pool after : Pool} {method : MemberRef}
variable {isStatic : Bool} {code : Code}

theorem short_defaultReturn {descriptor : String}
    (h : Body.defaultReturn descriptor isStatic = .ok code) : Short descriptor code := by
  obtain ⟨type, -, h⟩ := Except.bind_eq_ok_iff.1 h
  cases h
  refine ⟨rfl, rfl, ?_⟩
  cases type.result with
  | none => simp [Body.plain]
  | some result => simp [Body.plain]

theorem gains_throwStub {descriptor : String} (hsize : pool.size ≤ Pool.capacity)
    (h : (Body.throwStub descriptor isStatic).complete pool = .ok (code, after)) :
    GainsBodies owner described pool after ∧ Short descriptor code := by
  obtain ⟨type, parts, -, hparts, rfl⟩ := Body.throwStub_eq_ok_iff.1 h
  refine ⟨(Body.gains_throwParts hsize hparts (Or.inl rfl) (Or.inl rfl)).1, rfl, rfl, ?_⟩
  simp [Body.throwing, Body.plain, Body.indexed]

theorem delegateMethod_eq_ok {target : MemberRef}
    (h : Body.delegateMethod owner method.name method.descriptor isStatic = .ok target) :
    target.owner = Body.delegateClass owner ∧
      (method.descriptor = target.descriptor ∨
        Descriptor.withReceiver owner method.descriptor = .ok target.descriptor) := by
  unfold Body.delegateMethod at h
  split at h
  · obtain ⟨descriptor, hdescriptor, h⟩ := Except.bind_eq_ok_iff.1 h
    cases h
    exact ⟨rfl, Or.inl (Except.ok.inj hdescriptor)⟩
  · obtain ⟨descriptor, hdescriptor, h⟩ := Except.bind_eq_ok_iff.1 h
    cases h
    exact ⟨rfl, Or.inr hdescriptor⟩

theorem gains_delegateCall (hsize : pool.size ≤ Pool.capacity)
    (h : (Body.delegateCall owner method.name method.descriptor isStatic).complete pool =
      .ok (code, after)) (hdescribed : described method.descriptor) :
    GainsBodies owner described pool after ∧ Short method.descriptor code := by
  obtain ⟨type, target, index, hparsed, hchosen, hindex, rfl⟩ := Body.delegateCall_eq_ok_iff.1 h
  obtain ⟨howner, hdescriptor⟩ := delegateMethod_eq_ok hchosen
  have hgains : GainsBodies owner described pool after :=
    (Pool.gains_internMethod hsize hindex (Or.inr howner)
      (Or.inr ⟨_, hdescribed, hdescriptor⟩)).1
  refine ⟨hgains, rfl, rfl, ?_⟩
  have hparameters := MethodType.length_parameters hparsed
  have hbytes := Utf8.length_le method.descriptor
  have hloads : (if isStatic then Body.loadAll 0 type.parameters
      else Body.load Opcode.aload 0 ++ Body.loadAll 1 type.parameters).length ≤
        4 + 4 * type.parameters.length := by
    split
    · have := Body.length_loadAll 0 type.parameters
      omega
    · have := Body.length_loadAll 1 type.parameters
      have := Body.length_load Opcode.aload 0
      rw [List.length_append]
      omega
  simp only [Body.delegating, Body.plain, Body.indexed, List.length_append, List.length_cons,
    List.length_nil, length_be16]
  omega

/-- The body that an action gives, with what the pool gains for it. -/
theorem gains_codeFor {action : ReplaceAction} {name : Index} {info : Bytes}
    (hsize : pool.size ≤ Pool.capacity)
    (h : (codeFor action method isStatic).complete pool = .ok ((name, info), after))
    (howner : method.owner = owner) (hdescribed : described method.descriptor) :
    GainsBodies owner described pool after ∧ after.text name = .ok Member.codeName ∧
      ∃ body : Code, Short method.descriptor body ∧ info = body.encode := by
  obtain ⟨code, middle, hcode, h⟩ := Pool.Edit.bind_eq_ok_iff.1 h
  obtain ⟨index, last, hindex, h⟩ := Pool.Edit.bind_eq_ok_iff.1 h
  obtain ⟨hresult, rfl⟩ := Pool.Edit.pure_eq_ok_iff.1 h
  cases hresult
  have hbody : GainsBodies owner described pool middle ∧ Short method.descriptor code := by
    cases action with
    | returnZero =>
        obtain ⟨hreturn, rfl⟩ := Pool.Edit.lift_eq_ok_iff.1 hcode
        exact ⟨.refl _, short_defaultReturn hreturn⟩
    | throwStub => exact gains_throwStub hsize hcode
    | delegate =>
        subst howner
        exact gains_delegateCall hsize hcode hdescribed
  obtain ⟨hgains, hshort⟩ := hbody
  obtain ⟨hname, htext⟩ : GainsBodies owner described middle last ∧ _ :=
    Pool.gains_internText (hgains.size_le hsize) hindex
  exact ⟨hgains.trans hname, htext, code, hshort, rfl⟩

end Bodies

/-- The second method is the first, or the first with a short new body that was written for a pool
between the given ones. -/
def Rebodies (start last : Pool) (before after : Member) : Prop :=
  after = before ∨ ∃ middle descriptor name body, start.Extends middle ∧ middle.Extends last ∧
    middle.text before.descriptor = .ok descriptor ∧ middle.text name = .ok Member.codeName ∧
    Short descriptor body ∧
    after = { before with flags := before.flags.dropNative }.withCode middle name body.encode

theorem Rebodies.descriptor {start last : Pool} {before after : Member}
    (h : Rebodies start last before after) : after.descriptor = before.descriptor := by
  rcases h with rfl | ⟨middle, descriptor, name, body, -, -, -, -, -, rfl⟩
  · rfl
  · exact Member.descriptor_withCode

theorem Rebodies.extends {start last larger : Pool} {before after : Member}
    (h : Rebodies start last before after) (hextends : last.Extends larger) :
    Rebodies start larger before after := by
  rcases h with rfl | ⟨middle, descriptor, name, body, hstart, hlast, hrest⟩
  · exact Or.inl rfl
  · exact Or.inr ⟨middle, descriptor, name, body, hstart, hlast.trans hextends, hrest⟩

/-- The descriptor of a method, in this pool or a larger one, is among some texts. -/
def DescribedBy (described : String → Prop) (pool : Pool) (member : Member) : Prop :=
  ∀ larger, pool.Extends larger → ∀ descriptor, larger.text member.descriptor = .ok descriptor →
    described descriptor

section Methods

variable {rules : List ReplaceRule} {natives : Bool} {owner : String}
variable {described : String → Prop} {start pool after : Pool}

theorem gains_method {member changed : Member} {position : Option Nat}
    (h : (method rules natives owner pool member).result = .ok (after, changed, position))
    (hsize : pool.size ≤ Pool.capacity) (hstart : start.Extends pool)
    (hdescribed : DescribedBy described start member) :
    GainsBodies owner described pool after ∧ Rebodies start after member changed := by
  simp only [method, Traced.result_bind, Traced.result_monadLift] at h
  obtain ⟨name, -, h⟩ := Except.bind_eq_ok_iff.1 h
  obtain ⟨descriptor, hdescriptor, h⟩ := Except.bind_eq_ok_iff.1 h
  split at h
  · cases h
    exact ⟨.refl _, Or.inl rfl⟩
  · next action _ =>
      split at h
      · simp only [Traced.result_bind, result_log] at h
        obtain ⟨_, -, h⟩ := Except.bind_eq_ok_iff.1 h
        cases h
        exact ⟨.refl _, Or.inl rfl⟩
      · simp only [Traced.result_bind, Traced.result_monadLift, result_log] at h
        obtain ⟨⟨⟨codeName, info⟩, last⟩, hcode, h⟩ := Except.bind_eq_ok_iff.1 h
        obtain ⟨_, -, h⟩ := Except.bind_eq_ok_iff.1 h
        cases h
        obtain ⟨hgains, hname, body, hshort, rfl⟩ :=
          gains_codeFor hsize hcode rfl (hdescribed pool hstart descriptor hdescriptor)
        refine ⟨hgains, Or.inr ⟨last, descriptor, codeName, body, hstart.trans hgains.extends,
          fun _ _ h => h, hgains.extends.text hdescriptor, hname, hshort, rfl⟩⟩

theorem gains_methods {members changed : List Member} {positions : List Nat}
    (h : (methods rules natives owner pool members).result = .ok (after, changed, positions))
    (hsize : pool.size ≤ Pool.capacity) (hstart : start.Extends pool)
    (hdescribed : ∀ member ∈ members, DescribedBy described start member) :
    GainsBodies owner described pool after ∧
      List.Forall₂ (Rebodies start after) members changed := by
  induction members generalizing pool after changed positions with
  | nil =>
      cases h
      exact ⟨.refl _, .nil⟩
  | cons member members ih =>
      simp only [methods, Traced.result_bind] at h
      obtain ⟨⟨middle, new, position⟩, hmethod, h⟩ := Except.bind_eq_ok_iff.1 h
      obtain ⟨⟨last, others, found⟩, hmethods, h⟩ := Except.bind_eq_ok_iff.1 h
      cases h
      obtain ⟨hfirst, hnew⟩ :=
        gains_method hmethod hsize hstart (hdescribed member List.mem_cons_self)
      obtain ⟨hrest, hothers⟩ := ih hmethods (hfirst.size_le hsize)
        (hstart.trans hfirst.extends)
        fun other hother => hdescribed other (List.mem_cons_of_mem _ hother)
      exact ⟨hfirst.trans hrest, .cons (hnew.extends hrest.extends) hothers⟩

end Methods

/-- A class with some bodies replaced. -/
structure Replaced (owner : String) (described : String → Prop) (before after : ClassFile) :
    Prop where
  gains : GainsBodies owner described before.pool after.pool
  methods : List.Forall₂ (Rebodies before.pool after.pool) before.methods after.methods
  others : after = { before with pool := after.pool, methods := after.methods }

theorem replaced_of_apply {rules : List ReplaceRule} {natives : Bool}
    {described : String → Prop} {before after : ClassFile} {used : RuleSet}
    (h : (apply rules natives before).result = .ok (after, used))
    (hsize : before.pool.size ≤ Pool.capacity)
    (hdescribed : ∀ member ∈ before.methods, DescribedBy described before.pool member) :
    ∃ owner, before.name = .ok owner ∧ Replaced owner described before after := by
  simp only [apply, Traced.result_bind, Traced.result_monadLift] at h
  obtain ⟨owner, howner, h⟩ := Except.bind_eq_ok_iff.1 h
  obtain ⟨⟨pool, members, found⟩, hmethods, h⟩ := Except.bind_eq_ok_iff.1 h
  cases h
  obtain ⟨hgains, hrebodies⟩ := gains_methods hmethods hsize (fun _ _ h => h) hdescribed
  exact ⟨owner, howner, hgains, hrebodies, rfl⟩

end Replace

end JarTailor
