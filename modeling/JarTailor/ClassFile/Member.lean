import JarTailor.ClassFile.Access
import JarTailor.ClassFile.Attribute

/-!
# Fields and methods
-/

namespace JarTailor

structure Member where
  flags : AccessFlags
  name : Index
  descriptor : Index
  attributes : List Attribute
deriving Repr, DecidableEq, Inhabited

namespace Member

def decode : Decode Member := do
  let flags ← Decode.u16
  let name ← Decode.u16
  let descriptor ← Decode.u16
  return ⟨flags, name, descriptor, ← Attribute.decodeList⟩

def encode (member : Member) : Bytes :=
  be16 member.flags ++ be16 member.name ++ be16 member.descriptor ++
    Attribute.encodeList member.attributes

def decodeList : Decode (List Member) := do
  let count ← Decode.u16
  Decode.times count.toNat decode

def encodeList (members : List Member) : Bytes :=
  be16 (UInt16.ofNat members.length) ++ members.flatMap encode

def has (member : Member) (bit : AccessFlags) : Bool :=
  member.flags.has bit

def codeName : String := "Code"

/-- The position of the body, the first attribute of its name, among a method's attributes. -/
def codeIndex? (pool : Pool) (member : Member) : Option Nat :=
  member.attributes.findIdx? (·.isNamed pool codeName)

def code? (pool : Pool) (member : Member) : Option Bytes :=
  (member.attributes.find? (·.isNamed pool codeName)).map Attribute.info

/-- With other bytes in the attribute at a position. -/
def withInfo (member : Member) (position : Nat) (info : Bytes) : Member :=
  { member with attributes := member.attributes.modify position fun entry => { entry with info } }

/-- With another body: in place of the old one, or else as a last attribute of the given name. -/
def withCode (pool : Pool) (member : Member) (name : Index) (info : Bytes) : Member :=
  match member.codeIndex? pool with
  | some position => member.withInfo position info
  | none => { member with attributes := member.attributes ++ [⟨name, info⟩] }

end Member

end JarTailor
