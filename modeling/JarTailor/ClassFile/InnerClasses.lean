import JarTailor.ClassFile.Access
import JarTailor.ClassFile.Constant

/-!
# Records of nested classes
-/

namespace JarTailor

structure InnerClass where
  inner : Index
  outer : Index
  name : Index
  flags : AccessFlags
deriving Repr, DecidableEq, Inhabited

namespace InnerClass

def decode : Decode InnerClass := do
  let inner ← Decode.u16
  let outer ← Decode.u16
  let name ← Decode.u16
  return ⟨inner, outer, name, ← Decode.u16⟩

def encode (record : InnerClass) : Bytes :=
  be16 record.inner ++ be16 record.outer ++ be16 record.name ++ be16 record.flags

/-- The records of an attribute. Bytes after the last record are not looked at. -/
def decodeList (info : Bytes) : Except Failure (List InnerClass) := do
  let (count, rest) ← Decode.u16 info
  let (records, _) ← Decode.times count.toNat decode rest
  pure records

def encodeList (records : List InnerClass) : Bytes :=
  be16 (UInt16.ofNat records.length) ++ records.flatMap encode

end InnerClass

end JarTailor
