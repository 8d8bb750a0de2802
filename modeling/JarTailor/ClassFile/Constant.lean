import JarTailor.Bytes

/-!
# Constants of a class file

The kinds of constant-pool entries and their encoding: a tag byte and the fields in order. The
slot at index 0 and the slot after a wide constant hold nothing and are written as nothing.
-/

namespace JarTailor

abbrev Index := UInt16

inductive Constant where
  | unusable
  | utf8 (bytes : Bytes)
  | integer (bits : UInt32)
  | float (bits : UInt32)
  | long (bits : UInt64)
  | double (bits : UInt64)
  | classRef (name : Index)
  | stringRef (text : Index)
  | fieldRef (owner member : Index)
  | methodRef (owner member : Index)
  | interfaceMethodRef (owner member : Index)
  | nameAndType (name descriptor : Index)
  | methodHandle (kind : UInt8) (target : Index)
  | methodType (descriptor : Index)
  | dynamic (bootstrap member : Index)
  | invokeDynamic (bootstrap member : Index)
  | moduleRef (name : Index)
  | packageRef (name : Index)
deriving Repr, DecidableEq, Inhabited

namespace Constant

/-- Long and double constants take two slots. -/
def isWide : Constant → Bool
  | .long _ | .double _ => true
  | _ => false

def width (constant : Constant) : Nat :=
  if constant.isWide then 2 else 1

def encode : Constant → Bytes
  | .unusable => []
  | .utf8 bytes => 1 :: be16 (UInt16.ofNat bytes.length) ++ bytes
  | .integer bits => 3 :: be32 bits
  | .float bits => 4 :: be32 bits
  | .long bits => 5 :: be64 bits
  | .double bits => 6 :: be64 bits
  | .classRef name => 7 :: be16 name
  | .stringRef text => 8 :: be16 text
  | .fieldRef owner member => 9 :: be16 owner ++ be16 member
  | .methodRef owner member => 10 :: be16 owner ++ be16 member
  | .interfaceMethodRef owner member => 11 :: be16 owner ++ be16 member
  | .nameAndType name descriptor => 12 :: be16 name ++ be16 descriptor
  | .methodHandle kind target => 15 :: kind :: be16 target
  | .methodType descriptor => 16 :: be16 descriptor
  | .dynamic bootstrap member => 17 :: be16 bootstrap ++ be16 member
  | .invokeDynamic bootstrap member => 18 :: be16 bootstrap ++ be16 member
  | .moduleRef name => 19 :: be16 name
  | .packageRef name => 20 :: be16 name

open Decode in
/-- Reads one constant; `index` is the slot it is for. -/
def decode (index : Nat) : Decode Constant := do
  let tag ← u8
  match tag with
  | 1 => do
      let length ← u16
      return .utf8 (← take length.toNat)
  | 3 => return .integer (← u32)
  | 4 => return .float (← u32)
  | 5 => return .long (← u64)
  | 6 => return .double (← u64)
  | 7 => return .classRef (← u16)
  | 8 => return .stringRef (← u16)
  | 9 => return .fieldRef (← u16) (← u16)
  | 10 => return .methodRef (← u16) (← u16)
  | 11 => return .interfaceMethodRef (← u16) (← u16)
  | 12 => return .nameAndType (← u16) (← u16)
  | 15 => return .methodHandle (← u8) (← u16)
  | 16 => return .methodType (← u16)
  | 17 => return .dynamic (← u16) (← u16)
  | 18 => return .invokeDynamic (← u16) (← u16)
  | 19 => return .moduleRef (← u16)
  | 20 => return .packageRef (← u16)
  | _ => fail (.unknownTag tag index)

end Constant

end JarTailor
