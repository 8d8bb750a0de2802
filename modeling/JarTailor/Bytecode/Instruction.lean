import JarTailor.Bytecode.Opcode
import JarTailor.Bytes

/-!
# Instructions

Code is a sequence of instructions one after another. Where an instruction starts matters for the
two switches, whose operands are padded to a multiple of four. `split` cuts code into its
instructions, or refuses it; `encode_split` says that nothing is lost.
-/

namespace JarTailor

structure Instruction where
  offset : Nat
  opcode : Opcode
  operands : Bytes
deriving Repr, DecidableEq, Inhabited

namespace Instruction

def encode (instruction : Instruction) : Bytes :=
  instruction.opcode :: instruction.operands

def length (instruction : Instruction) : Nat :=
  instruction.operands.length + 1

/-- The number of filler bytes after the opcode of a switch. -/
def padding (offset : Nat) : Nat :=
  (4 - (offset + 1) % 4) % 4

/-- The signed number at a distance from the start of some bytes. -/
def signedAt (distance : Nat) (bytes : Bytes) : Except Failure Int :=
  match bytes.drop distance with
  | a :: b :: c :: d :: _ => pure (ofBe32 a b c d).toInt32.toInt
  | _ => fail .codeWordBounds

/-- The largest number a signed word holds. -/
def maxSigned : Int := 0x7fffffff

/-- A table switch has a target for each number from its low to its high bound, and one more. -/
def tableswitchLength (offset : Nat) (operands : Bytes) : Except Failure Nat := do
  let low ← signedAt (padding offset + 4) operands
  let high ← signedAt (padding offset + 8) operands
  let count := high - low + 1
  if 0 ≤ count && count ≤ maxSigned then pure (1 + padding offset + 12 + count.toNat * 4)
  else fail .switchRange

/-- A lookup switch has so many pairs of a number and a target, and one more target. -/
def lookupswitchLength (offset : Nat) (operands : Bytes) : Except Failure Nat := do
  let count ← signedAt (padding offset + 4) operands
  if 0 ≤ count then pure (1 + padding offset + 8 + count.toNat * 8)
  else fail .switchPairs

def wideLength (operands : Bytes) : Except Failure Nat :=
  match operands with
  | opcode :: _ => pure (if opcode = Opcode.iinc then 6 else 4)
  | [] => fail .missingWideOpcode

/-- The length of the instruction at an offset; `operands` is all the code after its opcode. -/
def lengthAt (offset : Nat) (opcode : Opcode) (operands : Bytes) : Except Failure Nat :=
  match opcode.fixedLength? with
  | some length => pure length
  | none =>
      if opcode = Opcode.tableswitch then tableswitchLength offset operands
      else if opcode = Opcode.lookupswitch then lookupswitchLength offset operands
      else if opcode = Opcode.wide then wideLength operands
      else fail (.unknownOpcode opcode)

/-- The instructions of code that starts at an offset. -/
def splitFrom (offset : Nat) (code : Bytes) : Except Failure (List Instruction) :=
  match code with
  | [] => pure []
  | opcode :: operands => do
      let length ← lengthAt offset opcode operands
      let own := operands.take (length - 1)
      if own.length + 1 = length then
        let others ← splitFrom (offset + length) (operands.drop (length - 1))
        pure (⟨offset, opcode, own⟩ :: others)
      else fail (.instructionLength offset)
termination_by code.length

def split (code : Bytes) : Except Failure (List Instruction) :=
  splitFrom 0 code

theorem encode_splitFrom {offset : Nat} {code : Bytes} {instructions : List Instruction}
    (h : splitFrom offset code = .ok instructions) : instructions.flatMap encode = code := by
  fun_induction splitFrom offset code generalizing instructions with
  | case1 =>
      cases h
      rfl
  | case2 offset opcode operands ih =>
      obtain ⟨length, -, h⟩ := Except.bind_eq_ok_iff.1 h
      simp only at h
      split at h
      · obtain ⟨others, hothers, hresult⟩ := Except.bind_eq_ok_iff.1 h
        cases hresult
        simp [encode, ih _ hothers]
      · cases h

theorem encode_split {code : Bytes} {instructions : List Instruction}
    (h : split code = .ok instructions) : instructions.flatMap encode = code :=
  encode_splitFrom h

end Instruction

end JarTailor
