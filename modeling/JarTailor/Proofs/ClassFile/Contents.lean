import JarTailor.Proofs.ClassFile.Growth
import Mathlib.Data.List.Forall2

/-!
# Contents of attributes

Method bodies are read without loss. Records of nested classes are too, but for the bytes behind
the last one. A new body takes the place of the old one.
-/

namespace JarTailor

namespace Code

/-- The counts and lengths of a body can be written. -/
structure Fits (body : Code) : Prop where
  code : body.code.length < 2 ^ 32
  handlers : ∃ count < 2 ^ 16, body.handlers.length = count * 8
  attributes : Decode.ListFits Attribute.Fits body.attributes

theorem exact_reader : Decode.Exact decode.reader encode Fits := by
  intro input rest body
  simp only [decode.reader, Decode.bind_eq_ok_iff, Decode.pure_eq_ok_iff, Decode.u16_eq_ok_iff,
    Decode.u32_eq_ok_iff, Decode.take_eq_ok_iff, Attribute.exact_list.eq_ok_iff]
  constructor
  · rintro ⟨maxStack, _, rfl, maxLocals, _, rfl, length, _, rfl, code, _, ⟨hcode, rfl⟩, count, _,
      rfl, handlers, _, ⟨hhandlers, rfl⟩, attributes, _, ⟨hattributes, rfl⟩, rfl, rfl⟩
    have hword : UInt32.ofNat code.length = length := by
      rw [hcode, UInt32.ofNat_toNat]
    have hcount : UInt16.ofNat (handlers.length / 8) = count := by
      rw [hhandlers, Nat.mul_div_cancel _ (by decide), UInt16.ofNat_toNat]
    refine ⟨⟨?_, ⟨count.toNat, count.toNat_lt, hhandlers⟩, hattributes⟩, ?_⟩
    · rw [hcode]
      exact length.toNat_lt
    · simp only [encode, hword, hcount, List.append_assoc]
  · rintro ⟨⟨hcode, ⟨count, hcount, hhandlers⟩, hattributes⟩, rfl⟩
    refine ⟨body.maxStack, _, ?_, body.maxLocals, _, rfl, UInt32.ofNat body.code.length, _, rfl,
      body.code, _, ⟨?_, rfl⟩, UInt16.ofNat (body.handlers.length / 8), _, rfl, body.handlers, _,
      ⟨?_, rfl⟩, body.attributes, rest, ⟨hattributes, rfl⟩, rfl, rfl⟩
    · simp only [encode, List.append_assoc]
    · rw [UInt32.toNat_ofNat_of_lt' hcode]
    · rw [hhandlers, Nat.mul_div_cancel _ (by decide), UInt16.toNat_ofNat_of_lt' hcount]

theorem decode_eq_ok_iff {info : Bytes} {body : Code} :
    decode info = .ok body ↔ body.Fits ∧ info = body.encode := by
  rw [decode, Except.bind_eq_ok_iff]
  constructor
  · rintro ⟨⟨found, rest⟩, hread, h⟩
    obtain ⟨hfits, hinfo⟩ := exact_reader.eq_ok_iff.1 hread
    cases rest with
    | nil =>
        obtain rfl : found = body := Except.ok.inj h
        exact ⟨hfits, by rw [hinfo, List.append_nil]⟩
    | cons byte rest => cases h
  · rintro ⟨hfits, rfl⟩
    exact ⟨(body, []), exact_reader.eq_ok_iff.2 ⟨hfits, (List.append_nil _).symm⟩, rfl⟩

theorem length_encode (body : Code) :
    body.encode.length =
      10 + body.code.length + body.handlers.length +
        (Attribute.encodeList body.attributes).length := by
  simp only [encode, List.length_append, length_be16, length_be32]
  omega

/-- The three parts of a body are counted in bytes, in handlers and in attributes. -/
theorem fits_iff {body : Code} :
    body.Fits ↔ body.code.length < 2 ^ 32 ∧
      8 ∣ body.handlers.length ∧ body.handlers.length / 8 ≤ 65535 ∧
      body.attributes.length ≤ 65535 ∧ ∀ entry ∈ body.attributes, entry.info.length < 2 ^ 32 := by
  constructor
  · intro hfits
    obtain ⟨count, hcount, hhandlers⟩ := hfits.handlers
    have hdivides : 8 ∣ body.handlers.length := ⟨count, by omega⟩
    exact ⟨hfits.code, hdivides, by omega, by have := hfits.attributes.1; omega,
      hfits.attributes.2⟩
  · intro hlimits
    obtain ⟨hcode, ⟨count, hhandlers⟩, hcount, hlength, hattributes⟩ := hlimits
    exact ⟨hcode, ⟨count, by omega, by omega⟩, by omega, hattributes⟩

/-- Bytes that are read as a body are the bytes that it is written as, and a written body is read
back unchanged exactly when its parts are within their counts. -/
theorem encode_decode_and_decode_encode_iff :
    (∀ info body, decode info = .ok body → body.encode = info) ∧
      ∀ body, decode body.encode = .ok body ↔ body.code.length < 2 ^ 32 ∧
        8 ∣ body.handlers.length ∧ body.handlers.length / 8 ≤ 65535 ∧
        body.attributes.length ≤ 65535 ∧
        ∀ entry ∈ body.attributes, entry.info.length < 2 ^ 32 := by
  constructor
  · intro info body h
    exact (decode_eq_ok_iff.1 h).2.symm
  · intro body
    rw [decode_eq_ok_iff, fits_iff]
    exact and_iff_left rfl

/-- A body with a handler and two attributes. -/
def bodyWithHandler : Code :=
  { maxStack := 2, maxLocals := 1, code := [0x2a, 0xb1], handlers := [0, 0, 0, 1, 0, 1, 0, 0]
    attributes := [⟨5, [0, 1, 0xff]⟩, ⟨6, []⟩] }

theorem encode_decode_and_decode_encode_iff_bodyWithHandler :
    decode bodyWithHandler.encode = .ok bodyWithHandler ∧
      ∀ body, decode bodyWithHandler.encode = .ok body →
        body.encode = bodyWithHandler.encode := by
  obtain ⟨hencode, hdecode⟩ := encode_decode_and_decode_encode_iff
  exact ⟨(hdecode bodyWithHandler).2 (by decide), hencode bodyWithHandler.encode⟩

end Code

namespace InnerClass

theorem exact : Decode.Exact decode encode fun _ => True := by
  intro input rest record
  simp only [decode, Decode.bind_eq_ok_iff, Decode.pure_eq_ok_iff, Decode.u16_eq_ok_iff, true_and]
  constructor
  · rintro ⟨inner, _, rfl, outer, _, rfl, name, _, rfl, flags, _, rfl, rfl, rfl⟩
    simp only [encode, List.append_assoc]
  · rintro rfl
    refine ⟨record.inner, _, ?_, record.outer, _, rfl, record.name, _, rfl, record.flags, rest,
      rfl, rfl, rfl⟩
    simp only [encode, List.append_assoc]

theorem length_encodeList (records : List InnerClass) :
    (encodeList records).length = 2 + records.length * 8 := by
  have hwidth (record : InnerClass) : record.encode.length = 8 := rfl
  rw [encodeList, List.length_append, length_be16, length_flatMap_of_width hwidth]

/-- Records are read from the bytes that they are written as, whatever follows. -/
theorem decodeList_eq_ok_iff {info : Bytes} {records : List InnerClass} :
    decodeList info = .ok records ↔
      records.length < 2 ^ 16 ∧ ∃ rest, info = encodeList records ++ rest := by
  constructor
  · intro h
    obtain ⟨⟨count, tail⟩, hcount, h⟩ := Except.bind_eq_ok_iff.1 h
    obtain ⟨⟨found, rest⟩, hfound, h⟩ := Except.bind_eq_ok_iff.1 h
    obtain rfl : found = records := Except.ok.inj h
    obtain ⟨⟨hlength, -⟩, hinfo⟩ := (Decode.exact_counted exact).eq_ok_iff.1
      (Decode.bind_eq_ok_iff.2 ⟨count, tail, hcount, hfound⟩)
    exact ⟨hlength, rest, hinfo⟩
  · rintro ⟨hlength, rest, rfl⟩
    obtain ⟨count, tail, hcount, hfound⟩ := Decode.bind_eq_ok_iff.1
      ((Decode.exact_counted exact).eq_ok_iff.2 ⟨⟨hlength, fun _ _ => trivial⟩, rfl⟩)
    exact Except.bind_eq_ok_iff.2 ⟨(count, tail), hcount,
      Except.bind_eq_ok_iff.2 ⟨(records, rest), hfound, rfl⟩⟩

theorem length_of_decodeList {info : Bytes} {records : List InnerClass}
    (h : decodeList info = .ok records) : (encodeList records).length ≤ info.length := by
  obtain ⟨-, rest, rfl⟩ := decodeList_eq_ok_iff.1 h
  rw [List.length_append]
  exact Nat.le_add_right _ _

end InnerClass

theorem Attribute.isNamed_iff {pool : Pool} {name : String} {entry : Attribute} :
    entry.isNamed pool name = true ↔ pool.text entry.name = .ok name :=
  Pool.isText_iff

/-- A name that can be read stays what it is in a larger pool. -/
theorem Attribute.isNamed_of_extends {before after : Pool} (hextends : before.Extends after)
    {entry : Attribute} (hname : ∃ name, before.text entry.name = .ok name) (name : String) :
    entry.isNamed after name = entry.isNamed before name := by
  obtain ⟨text, htext⟩ := hname
  rw [isNamed, isNamed, Pool.isText, Pool.isText, htext, hextends.text htext]

namespace Member

variable {pool : Pool} {member : Member} {position : Nat}

/-- The body of a method is the content of the attribute at its position. -/
theorem exists_codeAttribute (h : member.codeIndex? pool = some position) :
    ∃ entry, member.attributes[position]? = some entry ∧
      entry.isNamed pool codeName = true ∧ member.code? pool = some entry.info := by
  obtain ⟨hlt, hnamed, hbefore⟩ := List.findIdx?_eq_some_iff_getElem.1 h
  refine ⟨_, List.getElem?_eq_getElem hlt, hnamed, ?_⟩
  rw [code?, Option.map_eq_some_iff]
  refine ⟨_, List.find?_eq_some_iff_getElem.2 ⟨hnamed, position, hlt, rfl, ?_⟩, rfl⟩
  intro earlier hearlier
  simpa using hbefore earlier hearlier

theorem mem_withInfo {info : Bytes} {entry : Attribute}
    (h : entry ∈ (member.withInfo position info).attributes) :
    entry ∈ member.attributes ∨
      ∃ old, member.attributes[position]? = some old ∧ entry = { old with info } := by
  obtain ⟨place, hplace⟩ := List.mem_iff_getElem?.1 h
  rw [withInfo, List.getElem?_modify, Option.map_eq_map, Option.map_eq_some_iff] at hplace
  obtain ⟨found, hfound, rfl⟩ := hplace
  split
  · next hposition =>
      subst hposition
      exact Or.inr ⟨found, hfound, rfl⟩
  · exact Or.inl (List.mem_of_getElem? hfound)

theorem related_withInfo {related : Attribute → Attribute → Prop} {info : Bytes}
    (hrefl : ∀ entry, related entry entry)
    (h : ∀ old, member.attributes[position]? = some old → related old { old with info }) :
    List.Forall₂ related member.attributes (member.withInfo position info).attributes := by
  rw [withInfo, List.forall₂_iff_get]
  refine ⟨(List.length_modify ..).symm, fun place hplace hplace' => ?_⟩
  rw [List.get_eq_getElem, List.get_eq_getElem, List.getElem_modify]
  split
  · next hposition =>
      subst hposition
      exact h _ (List.getElem?_eq_getElem hplace)
  · exact hrefl _

/-- A new body stands in an attribute of the name for bodies. -/
theorem mem_withCode {name : Index} {info : Bytes} {entry : Attribute}
    (h : entry ∈ (member.withCode pool name info).attributes) :
    entry ∈ member.attributes ∨
      entry.info = info ∧ (entry.isNamed pool codeName = true ∨ entry.name = name) := by
  unfold withCode at h
  split at h
  · next hposition =>
      obtain ⟨found, hfound, hnamed, -⟩ := exists_codeAttribute hposition
      rcases mem_withInfo h with h | ⟨old, hold, rfl⟩
      · exact Or.inl h
      · rw [hfound] at hold
        cases hold
        exact Or.inr ⟨rfl, Or.inl hnamed⟩
  · rcases List.mem_append.1 h with h | h
    · exact Or.inl h
    · rw [List.mem_singleton.1 h]
      exact Or.inr ⟨rfl, Or.inr rfl⟩

@[simp]
theorem descriptor_withCode {name : Index} {info : Bytes} :
    (member.withCode pool name info).descriptor = member.descriptor := by
  unfold withCode
  split <;> rfl

theorem length_attributes_withCode {name : Index} {info : Bytes} :
    (member.withCode pool name info).attributes.length ≤ member.attributes.length + 1 := by
  unfold withCode
  split
  · rw [withInfo, List.length_modify]
    exact Nat.le_succ _
  · exact Nat.le_of_eq List.length_append

end Member

end JarTailor
