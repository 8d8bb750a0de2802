import JarTailor.Bytecode.Body
import JarTailor.Proofs.ClassFile.Growth

/-!
# What bodies are made of

A body that throws and one that delegates hold constants of the pool of their class. The pool gains
those that it does not have, and nothing else.
-/

namespace JarTailor.Body

/-- The constants of a body that throws. -/
def throwParts : Pool.Edit (Index × Index × Index) := do
  let exception ← Pool.internClass exceptionClass
  let message ← Pool.internString stubMessage
  let initialiser ← Pool.internMethod exceptionConstructor
  return (exception, message, initialiser)

/-- A body that throws, from its constants. -/
def throwing (type : MethodType) (isStatic : Bool) (parts : Index × Index × Index) : Code :=
  plain 3 (type.argumentSlots isStatic) <|
    indexed Opcode.new parts.1 ++ [Opcode.dup] ++ indexed Opcode.ldcW parts.2.1 ++
      indexed Opcode.invokespecial parts.2.2 ++ [Opcode.athrow]

theorem throwStub_eq_ok_iff {descriptor : String} {isStatic : Bool} {body : Code}
    {before after : Pool} :
    (throwStub descriptor isStatic).complete before = .ok (body, after) ↔
      ∃ type parts, MethodType.parse descriptor = .ok type ∧
        throwParts.complete before = .ok (parts, after) ∧ throwing type isStatic parts = body := by
  simp only [throwStub, throwParts, Pool.Edit.bind_eq_ok_iff, Pool.Edit.lift_eq_ok_iff,
    Pool.Edit.pure_eq_ok_iff]
  constructor
  · rintro ⟨type, _, ⟨htype, rfl⟩, exception, first, hexception, message, second, hmessage,
      initialiser, third, hinitialiser, hbody, rfl⟩
    exact ⟨type, (exception, message, initialiser), htype, ⟨exception, first, hexception, message,
      second, hmessage, initialiser, third, hinitialiser, rfl, rfl⟩, hbody⟩
  · rintro ⟨type, _, htype, ⟨exception, first, hexception, message, second, hmessage, initialiser,
      third, hinitialiser, rfl, rfl⟩, hbody⟩
    exact ⟨type, before, ⟨htype, rfl⟩, exception, first, hexception, message, second, hmessage,
      initialiser, third, hinitialiser, hbody, rfl⟩

/-- A body that delegates, from the constant of the method that it calls. -/
def delegating (type : MethodType) (isStatic : Bool) (method : Index) : Code :=
  plain (max (type.argumentSlots isStatic) type.resultSlots) (type.argumentSlots isStatic) <|
    (if isStatic then loadAll 0 type.parameters
      else load Opcode.aload 0 ++ loadAll 1 type.parameters) ++
      indexed Opcode.invokestatic method ++ [type.returnOpcode]

theorem delegateCall_eq_ok_iff {owner name descriptor : String} {isStatic : Bool} {body : Code}
    {before after : Pool} :
    (delegateCall owner name descriptor isStatic).complete before = .ok (body, after) ↔
      ∃ type target method, MethodType.parse descriptor = .ok type ∧
        delegateMethod owner name descriptor isStatic = .ok target ∧
          (Pool.internMethod target).complete before = .ok (method, after) ∧
            delegating type isStatic method = body := by
  simp only [delegateCall, Pool.Edit.bind_eq_ok_iff, Pool.Edit.lift_eq_ok_iff,
    Pool.Edit.pure_eq_ok_iff]
  constructor
  · rintro ⟨type, _, ⟨htype, rfl⟩, target, _, ⟨htarget, rfl⟩, method, last, hmethod, hbody, rfl⟩
    exact ⟨type, target, method, htype, htarget, hmethod, hbody⟩
  · rintro ⟨type, target, method, htype, htarget, hmethod, hbody⟩
    exact ⟨type, before, ⟨htype, rfl⟩, target, before, ⟨htarget, rfl⟩, method, after, hmethod,
      hbody, rfl⟩

theorem gains_throwParts {classes descriptors : String → Prop} {before after : Pool}
    {parts : Index × Index × Index} (hsize : before.size ≤ Pool.capacity)
    (h : throwParts.complete before = .ok (parts, after)) (hclass : classes exceptionClass)
    (hdescriptor : descriptors exceptionConstructor.descriptor) :
    Pool.Gains classes descriptors before after ∧
      after.className parts.1 = .ok exceptionClass ∧ after.IsString parts.2.1 stubMessage ∧
        after.IsMethod parts.2.2 exceptionConstructor := by
  obtain ⟨exception, first, hexception, h⟩ := Pool.Edit.bind_eq_ok_iff.1 h
  obtain ⟨message, second, hmessage, h⟩ := Pool.Edit.bind_eq_ok_iff.1 h
  obtain ⟨initialiser, third, hinitialiser, h⟩ := Pool.Edit.bind_eq_ok_iff.1 h
  obtain ⟨rfl, rfl⟩ := Pool.Edit.pure_eq_ok_iff.1 h
  obtain ⟨hfirst, hname⟩ : Pool.Gains classes descriptors before first ∧ _ :=
    Pool.gains_internClass hsize hexception hclass
  have hsize := hfirst.size_le hsize
  obtain ⟨hsecond, htext⟩ : Pool.Gains classes descriptors first second ∧ _ :=
    Pool.gains_internString hsize hmessage
  have hsize := hsecond.size_le hsize
  obtain ⟨hthird, hmethod⟩ : Pool.Gains classes descriptors second third ∧ _ :=
    Pool.gains_internMethod hsize hinitialiser hclass hdescriptor
  exact ⟨(hfirst.trans hsecond).trans hthird,
    (hsecond.extends.trans hthird.extends).className hname, hthird.extends.isString htext, hmethod⟩

end JarTailor.Body
