import JarTailor.ClassFile.Pool

/-!
# Attributes

An attribute is a name and bytes that only some passes look into. `size_decodeList` accounts for
every byte a list of attributes is read from.
-/

namespace JarTailor

structure Attribute where
  name : Index
  info : Bytes
deriving Repr, DecidableEq, Inhabited

namespace Attribute

def decode : Decode Attribute := do
  let name ← Decode.u16
  let length ← Decode.u32
  return ⟨name, ← Decode.take length.toNat⟩

def encode (entry : Attribute) : Bytes :=
  be16 entry.name ++ be32 (UInt32.ofNat entry.info.length) ++ entry.info

def decodeList : Decode (List Attribute) := do
  let count ← Decode.u16
  Decode.times count.toNat decode

def encodeList (attributes : List Attribute) : Bytes :=
  be16 (UInt16.ofNat attributes.length) ++ attributes.flatMap encode

def isNamed (pool : Pool) (name : String) (entry : Attribute) : Bool :=
  pool.isText entry.name name

def size (entry : Attribute) : Nat :=
  6 + entry.info.length

theorem size_decode {input rest : Bytes} {entry : Attribute}
    (h : decode input = .ok (entry, rest)) : entry.size + rest.length = input.length := by
  obtain ⟨name, mid, hname, h⟩ := Decode.bind_eq_ok_iff.1 h
  obtain ⟨length, tail, hlength, h⟩ := Decode.bind_eq_ok_iff.1 h
  obtain ⟨info, tail', hinfo, h⟩ := Decode.bind_eq_ok_iff.1 h
  obtain ⟨rfl, rfl⟩ := Decode.pure_eq_ok_iff.1 h
  rw [Decode.u16_eq_ok_iff.1 hname, Decode.u32_eq_ok_iff.1 hlength,
    (Decode.take_eq_ok_iff.1 hinfo).2]
  simp [size]
  omega

theorem size_decodeList {input rest : Bytes} {attributes : List Attribute}
    (h : decodeList input = .ok (attributes, rest)) :
    total size attributes + 2 + rest.length = input.length := by
  obtain ⟨count, mid, hcount, h⟩ := Decode.bind_eq_ok_iff.1 h
  have := Decode.length_u16 hcount
  have := Decode.length_times (fun _ _ _ => size_decode) h
  omega

end Attribute

end JarTailor
