import JarTailor.Descriptor

/-!
# Opcodes

The instructions that this library writes or looks for, the fixed lengths of all instructions, and
which of the typed instructions handles a value of a given type.
-/

namespace JarTailor

abbrev Opcode := UInt8

namespace Opcode

def nop : Opcode := 0x00
def aconstNull : Opcode := 0x01
def iconst0 : Opcode := 0x03
def lconst0 : Opcode := 0x09
def fconst0 : Opcode := 0x0b
def dconst0 : Opcode := 0x0e
def ldcW : Opcode := 0x13
def iload : Opcode := 0x15
def lload : Opcode := 0x16
def fload : Opcode := 0x17
def dload : Opcode := 0x18
def aload : Opcode := 0x19
def dup : Opcode := 0x59
def iinc : Opcode := 0x84
def tableswitch : Opcode := 0xaa
def lookupswitch : Opcode := 0xab
def ireturn : Opcode := 0xac
def lreturn : Opcode := 0xad
def freturn : Opcode := 0xae
def dreturn : Opcode := 0xaf
def areturn : Opcode := 0xb0
def returnVoid : Opcode := 0xb1
def invokevirtual : Opcode := 0xb6
def invokespecial : Opcode := 0xb7
def invokestatic : Opcode := 0xb8
def invokeinterface : Opcode := 0xb9
def new : Opcode := 0xbb
def athrow : Opcode := 0xbf
def wide : Opcode := 0xc4

/-- The length of an instruction, its opcode included, where the opcode alone decides it. -/
def fixedLength? (opcode : Opcode) : Option Nat :=
  let op := opcode.toNat
  if op ≤ 0x0f then some 1
  else if op = 0x10 then some 2
  else if op = 0x11 then some 3
  else if op = 0x12 then some 2
  else if op ≤ 0x14 then some 3
  else if op ≤ 0x19 then some 2
  else if op ≤ 0x35 then some 1
  else if op ≤ 0x3a then some 2
  else if op ≤ 0x83 then some 1
  else if op = 0x84 then some 3
  else if op ≤ 0x98 then some 1
  else if op ≤ 0xa8 then some 3
  else if op = 0xa9 then some 2
  else if op ≤ 0xab then none
  else if op ≤ 0xb1 then some 1
  else if op ≤ 0xb8 then some 3
  else if op ≤ 0xba then some 5
  else if op = 0xbb then some 3
  else if op = 0xbc then some 2
  else if op = 0xbd then some 3
  else if op ≤ 0xbf then some 1
  else if op ≤ 0xc1 then some 3
  else if op ≤ 0xc3 then some 1
  else if op = 0xc4 then none
  else if op = 0xc5 then some 4
  else if op ≤ 0xc7 then some 3
  else if op ≤ 0xc9 then some 5
  else if op = 0xca then some 1
  else if op ≤ 0xfd then none
  else some 1

end Opcode

inductive ValueKind where
  | int
  | long
  | float
  | double
  | reference
deriving Repr, DecidableEq, Inhabited

namespace ValueKind

/-- The number of local variables or stack slots a value takes. -/
def slots : ValueKind → UInt16
  | .long | .double => 2
  | _ => 1

def loadOpcode : ValueKind → Opcode
  | .int => Opcode.iload
  | .long => Opcode.lload
  | .float => Opcode.fload
  | .double => Opcode.dload
  | .reference => Opcode.aload

def returnOpcode : ValueKind → Opcode
  | .int => Opcode.ireturn
  | .long => Opcode.lreturn
  | .float => Opcode.freturn
  | .double => Opcode.dreturn
  | .reference => Opcode.areturn

def zeroOpcode : ValueKind → Opcode
  | .int => Opcode.iconst0
  | .long => Opcode.lconst0
  | .float => Opcode.fconst0
  | .double => Opcode.dconst0
  | .reference => Opcode.aconstNull

end ValueKind

def BaseType.kind : BaseType → ValueKind
  | .long => .long
  | .float => .float
  | .double => .double
  | _ => .int

def FieldType.kind (type : FieldType) : ValueKind :=
  match type.rank, type.element with
  | 0, .base base => base.kind
  | _, _ => .reference

namespace MethodType

/-- The slots that the parameters take, counted in sixteen bits. -/
def parameterSlots (type : MethodType) : UInt16 :=
  (type.parameters.map (·.kind.slots)).foldl (· + ·) 0

def resultSlots (type : MethodType) : UInt16 :=
  match type.result with
  | some result => result.kind.slots
  | none => 0

def returnOpcode (type : MethodType) : Opcode :=
  match type.result with
  | some result => result.kind.returnOpcode
  | none => Opcode.returnVoid

/-- The local variables that the arguments of a call take, the receiver included. -/
def argumentSlots (type : MethodType) (isStatic : Bool) : UInt16 :=
  type.parameterSlots + if isStatic then 0 else 1

end MethodType

end JarTailor
