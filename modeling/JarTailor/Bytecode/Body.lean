import JarTailor.Bytecode.Opcode
import JarTailor.ClassFile.Code

/-!
# Synthesised bodies

Bodies that stand in for a method's own: one returns the zero of the result type, one throws, and
one forwards to a static method of a companion class.
-/

namespace JarTailor.Body

def exceptionClass : String := "java/lang/RuntimeException"

def stubMessage : String := "Stub!"

def exceptionConstructor : MemberRef :=
  ⟨exceptionClass, "<init>", "(Ljava/lang/String;)V", false⟩

def delegateClass (owner : String) : String :=
  owner ++ "_Delegate"

/-- An instruction with a pool index as its operand. -/
def indexed (opcode : Opcode) (index : Index) : Bytes :=
  opcode :: be16 index

/-- Loads a local variable, in the wide form where its number needs two bytes. -/
def load (opcode : Opcode) (slot : UInt16) : Bytes :=
  if slot.toNat ≤ 0xff then [opcode, slot.toUInt8]
  else Opcode.wide :: indexed opcode slot

def plain (maxStack maxLocals : UInt16) (code : Bytes) : Code :=
  { maxStack, maxLocals, code, handlers := [], attributes := [] }

/-- Returns the zero of the result type. -/
def defaultReturn (descriptor : String) (isStatic : Bool) : Except Failure Code := do
  let type ← MethodType.parse descriptor
  let zero := match type.result with
    | some result => [result.kind.zeroOpcode]
    | none => []
  return plain type.resultSlots (type.argumentSlots isStatic) (zero ++ [type.returnOpcode])

/-- Throws an exception that says that the method is a stub. -/
def throwStub (descriptor : String) (isStatic : Bool) : Pool.Edit Code := do
  let type ← MethodType.parse descriptor
  let exception ← Pool.internClass exceptionClass
  let message ← Pool.internString stubMessage
  let initialiser ← Pool.internMethod exceptionConstructor
  return plain 3 (type.argumentSlots isStatic) <|
    indexed Opcode.new exception ++ [Opcode.dup] ++ indexed Opcode.ldcW message ++
      indexed Opcode.invokespecial initialiser ++ [Opcode.athrow]

/-- Loads parameters of the given types from a slot on. -/
def loadAll (slot : UInt16) : List FieldType → Bytes
  | [] => []
  | type :: types =>
      load type.kind.loadOpcode slot ++ loadAll (slot + type.kind.slots) types

/-- The static method that stands in for a method of `owner`. An instance becomes its first
argument. -/
def delegateMethod (owner name descriptor : String) (isStatic : Bool) :
    Except Failure MemberRef := do
  let descriptor ← if isStatic then pure descriptor else Descriptor.withReceiver owner descriptor
  return ⟨delegateClass owner, name, descriptor, false⟩

/-- Forwards every argument, the receiver first, and returns what comes back. -/
def delegateCall (owner name descriptor : String) (isStatic : Bool) : Pool.Edit Code := do
  let type ← MethodType.parse descriptor
  let target ← delegateMethod owner name descriptor isStatic
  let method ← Pool.internMethod target
  let loads :=
    if isStatic then loadAll 0 type.parameters
    else load Opcode.aload 0 ++ loadAll 1 type.parameters
  let maxLocals := type.argumentSlots isStatic
  return plain (max maxLocals type.resultSlots) maxLocals <|
    loads ++ indexed Opcode.invokestatic method ++ [type.returnOpcode]

end JarTailor.Body
