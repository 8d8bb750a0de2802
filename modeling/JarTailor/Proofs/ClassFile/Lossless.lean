import JarTailor.Proofs.ClassFile.Layout

/-!
# Class files are read without loss

`ClassFile.decode_eq_ok_iff` says which bytes are class files: those written for a class whose
counts and lengths fit and whose name resolves.
-/

namespace JarTailor

/-- A check before a reader: what fails the check is not read. -/
theorem Decode.guarded_eq_ok_iff {α β : Type} {holds : Prop} [Decidable holds] {fault : Fault}
    {reader : Decode α} {other : β → Decode α} {input : Bytes} {result : α × Bytes} :
    (if holds then reader else fail fault >>= other) input = .ok result ↔
      holds ∧ reader input = .ok result := by
  by_cases h : holds
  · simp only [h, if_true, true_and]
  · simp only [h, if_false, false_and, iff_false]
    intro hfail
    obtain ⟨_, _, hfail, -⟩ := Decode.bind_eq_ok_iff.1 hfail
    exact Decode.fail_ne_ok hfail

namespace ClassFile

/-- Every count and length of the class can be written. -/
structure Fits (classFile : ClassFile) : Prop where
  pool : classFile.pool.Fits
  interfaces : classFile.interfaces.length < 2 ^ 16
  fields : Decode.ListFits Member.Fits classFile.fields
  methods : Decode.ListFits Member.Fits classFile.methods
  attributes : Decode.ListFits Attribute.Fits classFile.attributes

theorem exact_reader : Decode.Exact reader encode Fits := by
  intro input rest classFile
  rw [reader, Decode.bind_eq_ok_iff]
  simp only [ne_eq, ite_not, Decode.guarded_eq_ok_iff, Decode.bind_eq_ok_iff,
    Decode.pure_eq_ok_iff, Decode.u16_eq_ok_iff, Decode.u32_eq_ok_iff, Decode.within_eq_ok_iff,
    Pool.exact.eq_ok_iff, Decode.times_eq_ok_iff exact_be16, Member.exact_list.eq_ok_iff,
    Attribute.exact_list.eq_ok_iff]
  constructor
  · rintro ⟨found, _, rfl, rfl, minor, _, rfl, major, _, rfl, pool, _, ⟨hpool, rfl⟩, flags, _, rfl,
      thisClass, _, rfl, superClass, _, rfl, count, _, rfl, interfaces, _, ⟨hcount, -, rfl⟩,
      fields, _, ⟨hfields, rfl⟩, methods, _, ⟨hmethods, rfl⟩, attributes, _, ⟨hattributes, rfl⟩,
      rfl, rfl⟩
    have hword : UInt16.ofNat interfaces.length = count := by
      rw [hcount, UInt16.ofNat_toNat]
    have hlength : interfaces.length < 2 ^ 16 := by
      rw [hcount]
      exact count.toNat_lt
    refine ⟨⟨hpool, hlength, hfields, hmethods, hattributes⟩, ?_⟩
    simp only [encode, hword, List.append_assoc]
  · rintro ⟨⟨hpool, hlength, hfields, hmethods, hattributes⟩, rfl⟩
    refine ⟨magic, _, ?_, rfl, classFile.minor, _, rfl, classFile.major, _, rfl, classFile.pool, _,
      ⟨hpool, rfl⟩, classFile.flags, _, rfl, classFile.thisClass, _, rfl, classFile.superClass, _,
      rfl, UInt16.ofNat classFile.interfaces.length, _, rfl, classFile.interfaces, _,
      ⟨?_, fun _ _ => trivial, rfl⟩, classFile.fields, _, ⟨hfields, rfl⟩, classFile.methods, _,
      ⟨hmethods, rfl⟩, classFile.attributes, rest, ⟨hattributes, rfl⟩, rfl, rfl⟩
    · simp only [encode, List.append_assoc]
    · rw [UInt16.toNat_ofNat_of_lt' hlength]

theorem decode_eq_ok_iff {bytes : Bytes} {classFile : ClassFile} :
    decode bytes = .ok classFile ↔
      classFile.Fits ∧ (∃ name, classFile.name = .ok name) ∧ bytes = classFile.encode := by
  rw [decode, Except.bind_eq_ok_iff]
  constructor
  · rintro ⟨⟨found, rest⟩, hread, h⟩
    obtain ⟨hfits, hbytes⟩ := exact_reader.eq_ok_iff.1 hread
    cases rest with
    | nil =>
        obtain ⟨name, hname, h⟩ := Except.bind_eq_ok_iff.1 h
        obtain rfl : found = classFile := Except.ok.inj h
        exact ⟨hfits, ⟨name, Except.within_eq_ok_iff.1 hname⟩, by rw [hbytes, List.append_nil]⟩
    | cons byte rest => cases h
  · rintro ⟨hfits, ⟨name, hname⟩, rfl⟩
    have hread : reader classFile.encode = .ok (classFile, []) :=
      exact_reader.eq_ok_iff.2 ⟨hfits, (List.append_nil _).symm⟩
    refine ⟨(classFile, []), hread, ?_⟩
    exact Except.bind_eq_ok_iff.2 ⟨name, Except.within_eq_ok_iff.2 hname, rfl⟩

theorem encode_eq_of_decode {bytes : Bytes} {classFile : ClassFile}
    (h : decode bytes = .ok classFile) : classFile.encode = bytes :=
  (decode_eq_ok_iff.1 h).2.2.symm

/-- A class `A` with a wide constant, a field and attributes at two levels. -/
def wideConstantBytes : Bytes :=
  [0xca, 0xfe, 0xba, 0xbe, 0, 0, 0, 52, 0, 5, 1, 0, 1, 65, 7, 0, 1, 5, 0, 0, 0, 0, 0, 0, 0, 7,
    0, 0x21, 0, 2, 0, 0, 0, 0, 0, 1, 0, 2, 0, 1, 0, 1, 0, 1, 0, 1, 0, 0, 0, 0, 0, 0,
    0, 1, 0, 1, 0, 0, 0, 2, 0xff, 0]

theorem encode_eq_of_decode_wideConstantBytes :
    ∃ classFile, decode wideConstantBytes = .ok classFile ∧
      classFile.encode = wideConstantBytes := by
  have hdecode : ∃ classFile, decode wideConstantBytes = .ok classFile := ⟨_, rfl⟩
  obtain ⟨classFile, hdecode⟩ := hdecode
  exact ⟨classFile, hdecode, encode_eq_of_decode hdecode⟩

end ClassFile

end JarTailor
