import JarTailor.ClassFile.Attribute

/-!
# Method bodies
-/

namespace JarTailor

/-- A decoded method body. The handlers of its exception table stay raw, eight bytes each. -/
structure Code where
  maxStack : UInt16
  maxLocals : UInt16
  code : Bytes
  handlers : Bytes
  attributes : List Attribute
deriving Repr, DecidableEq, Inhabited

namespace Code

/-- Reads a body that takes up the whole of `info`. -/
def decode (info : Bytes) : Except Failure Code := do
  let (code, rest) ← reader info
  if rest.isEmpty then pure code else fail .trailingCode
where
  reader : Decode Code := do
    let maxStack ← Decode.u16
    let maxLocals ← Decode.u16
    let length ← Decode.u32
    let code ← Decode.take length.toNat
    let count ← Decode.u16
    let handlers ← Decode.take (count.toNat * 8)
    return ⟨maxStack, maxLocals, code, handlers, ← Attribute.decodeList⟩

def encode (body : Code) : Bytes :=
  be16 body.maxStack ++ be16 body.maxLocals ++
    be32 (UInt32.ofNat body.code.length) ++ body.code ++
    be16 (UInt16.ofNat (body.handlers.length / 8)) ++ body.handlers ++
    Attribute.encodeList body.attributes

/-- The attributes of a body fit into the bytes of the body. -/
theorem size_attributes_le {info : Bytes} {body : Code} (h : decode info = .ok body) :
    total Attribute.size body.attributes ≤ info.length := by
  obtain ⟨⟨found, rest⟩, hread, h⟩ := Except.bind_eq_ok_iff.1 h
  obtain ⟨maxStack, mid₁, h₁, hread⟩ := Decode.bind_eq_ok_iff.1 hread
  obtain ⟨maxLocals, mid₂, h₂, hread⟩ := Decode.bind_eq_ok_iff.1 hread
  obtain ⟨length, mid₃, h₃, hread⟩ := Decode.bind_eq_ok_iff.1 hread
  obtain ⟨code, mid₄, h₄, hread⟩ := Decode.bind_eq_ok_iff.1 hread
  obtain ⟨count, mid₅, h₅, hread⟩ := Decode.bind_eq_ok_iff.1 hread
  obtain ⟨handlers, mid₆, h₆, hread⟩ := Decode.bind_eq_ok_iff.1 hread
  obtain ⟨attributes, mid₇, h₇, hread⟩ := Decode.bind_eq_ok_iff.1 hread
  obtain ⟨rfl, rfl⟩ := Decode.pure_eq_ok_iff.1 hread
  have := Decode.length_u16 h₁
  have := Decode.length_u16 h₂
  have := congrArg List.length (Decode.u32_eq_ok_iff.1 h₃)
  have := Decode.length_take h₄
  have := Decode.length_u16 h₅
  have := Decode.length_take h₆
  have := Attribute.size_decodeList h₇
  simp only at h
  split at h
  · cases h
    simp only [List.length_append, length_be32] at *
    omega
  · cases h

end Code

end JarTailor
