import JarTailor.ClassFile.Basic
import Mathlib.Algebra.Group.Nat.Defs

/-!
# Reading and writing as one relation

A decoder accepts exactly the bytes that its encoder writes for values that fit the counts and
lengths of the format. Every record of a class file gets one equivalence of this form, so that
both round trips are read off the same statement.
-/

namespace JarTailor

theorem Except.within_eq_ok_iff {α : Type} {context : Context} {x : Except Failure α} {a : α} :
    Except.within context x = .ok a ↔ x = .ok a := by
  cases x with
  | error failure => constructor <;> intro h <;> cases h
  | ok found => exact Iff.rfl

namespace Decode

/-- A decoder accepts what the encoder writes for the values that fit, and nothing else. -/
def Exact {α : Type} (decoder : Decode α) (encode : α → Bytes) (fits : α → Prop) : Prop :=
  ∀ (input rest : Bytes) (value : α),
    decoder input = .ok (value, rest) ↔ fits value ∧ input = encode value ++ rest

theorem Exact.eq_ok_iff {α : Type} {decoder : Decode α} {encode : α → Bytes} {fits : α → Prop}
    (h : Exact decoder encode fits) {input rest : Bytes} {value : α} :
    decoder input = .ok (value, rest) ↔ fits value ∧ input = encode value ++ rest :=
  h input rest value

/-- Values whose number and sizes fit a list that begins with a sixteen-bit count. -/
def ListFits {α : Type} (fits : α → Prop) (values : List α) : Prop :=
  values.length < 2 ^ 16 ∧ ∀ value ∈ values, fits value

theorem u8_eq_ok_iff {input rest : Bytes} {value : UInt8} :
    u8 input = .ok (value, rest) ↔ input = value :: rest := by
  cases input with
  | nil => simp [u8]
  | cons first tail => simp [u8, pure, Except.pure]

theorem u64_eq_ok_iff {input rest : Bytes} {value : UInt64} :
    u64 input = .ok (value, rest) ↔ input = be64 value ++ rest := by
  simp only [u64, bind_eq_ok_iff, pure_eq_ok_iff, u32_eq_ok_iff]
  constructor
  · rintro ⟨high, _, rfl, low, _, rfl, rfl, rfl⟩
    rw [be64_ofHalves, List.append_assoc]
  · rintro rfl
    refine ⟨(value >>> 32).toUInt32, be32 value.toUInt32 ++ rest, ?_, value.toUInt32, rest, rfl, ?_,
      rfl⟩
    · simp only [be64, List.append_assoc]
    · exact ofHalves_be64 value

theorem within_eq_ok_iff {α : Type} {context : Context} {decoder : Decode α} {input : Bytes}
    {result : α × Bytes} :
    decoder.within context input = .ok result ↔ decoder input = .ok result :=
  Except.within_eq_ok_iff

theorem times_eq_ok_iff {α : Type} {one : Decode α} {encode : α → Bytes} {fits : α → Prop}
    (hone : Exact one encode fits) {count : Nat} {input rest : Bytes} {values : List α} :
    times count one input = .ok (values, rest) ↔
      values.length = count ∧ (∀ value ∈ values, fits value) ∧
        input = values.flatMap encode ++ rest := by
  induction count generalizing input values with
  | zero =>
      rw [times_zero, pure_eq_ok_iff, List.length_eq_zero_iff]
      constructor
      · rintro ⟨rfl, rfl⟩
        simp
      · rintro ⟨rfl, -, rfl⟩
        exact ⟨rfl, rfl⟩
  | succ count ih =>
      rw [times_succ]
      simp only [bind_eq_ok_iff, pure_eq_ok_iff]
      constructor
      · rintro ⟨value, mid, hvalue, others, tail, hothers, rfl, rfl⟩
        obtain ⟨hfits, rfl⟩ := hone.eq_ok_iff.1 hvalue
        obtain ⟨rfl, hall, rfl⟩ := ih.1 hothers
        refine ⟨rfl, ?_, by simp⟩
        intro other hother
        rcases List.mem_cons.1 hother with rfl | hother
        · exact hfits
        · exact hall other hother
      · rintro ⟨hlength, hall, rfl⟩
        obtain ⟨value, others, rfl⟩ := List.exists_cons_of_length_eq_add_one hlength
        have hfits : fits value := hall value List.mem_cons_self
        have hothers : ∀ other ∈ others, fits other := fun other hother =>
          hall other (List.mem_cons_of_mem _ hother)
        refine ⟨value, others.flatMap encode ++ rest, hone.eq_ok_iff.2 ⟨hfits, by simp⟩, others, rest, ?_, rfl,
          rfl⟩
        exact ih.2 ⟨by simpa using hlength, hothers, rfl⟩

/-- A list behind its count. -/
theorem exact_counted {α : Type} {one : Decode α} {encode : α → Bytes} {fits : α → Prop}
    (hone : Exact one encode fits) :
    Exact (do let count ← u16; times count.toNat one)
      (fun values => be16 (UInt16.ofNat values.length) ++ values.flatMap encode)
      (ListFits fits) := by
  intro input rest values
  simp only [bind_eq_ok_iff, u16_eq_ok_iff, times_eq_ok_iff hone]
  constructor
  · rintro ⟨count, _, rfl, hlength, hall, rfl⟩
    have hcount : UInt16.ofNat values.length = count := by
      rw [hlength, UInt16.ofNat_toNat]
    refine ⟨⟨?_, hall⟩, ?_⟩
    · rw [hlength]
      exact count.toNat_lt
    · rw [hcount, List.append_assoc]
  · rintro ⟨⟨hlength, hall⟩, rfl⟩
    refine ⟨UInt16.ofNat values.length, values.flatMap encode ++ rest, ?_, ?_, hall, rfl⟩
    · rw [List.append_assoc]
    · rw [UInt16.toNat_ofNat_of_lt' hlength]

end Decode

theorem exact_be16 : Decode.Exact Decode.u16 be16 fun _ => True := by
  intro input rest value
  rw [Decode.u16_eq_ok_iff, true_and]

namespace Attribute

/-- The length of the content is written in four bytes. -/
def Fits (entry : Attribute) : Prop :=
  entry.info.length < 2 ^ 32

theorem exact : Decode.Exact decode encode Fits := by
  intro input rest entry
  simp only [decode, Decode.bind_eq_ok_iff, Decode.pure_eq_ok_iff, Decode.u16_eq_ok_iff,
    Decode.u32_eq_ok_iff, Decode.take_eq_ok_iff]
  constructor
  · rintro ⟨name, _, rfl, length, _, rfl, info, _, ⟨hlength, rfl⟩, rfl, rfl⟩
    have hword : UInt32.ofNat info.length = length := by
      rw [hlength, UInt32.ofNat_toNat]
    refine ⟨?_, ?_⟩
    · simpa only [Fits, hlength] using length.toNat_lt
    · simp only [encode, hword, List.append_assoc]
  · rintro ⟨hfits, rfl⟩
    refine ⟨entry.name, _, ?_, UInt32.ofNat entry.info.length, _, rfl, entry.info, rest,
      ⟨?_, rfl⟩, rfl, rfl⟩
    · simp only [encode, List.append_assoc]
    · rw [UInt32.toNat_ofNat_of_lt' hfits]

theorem exact_list : Decode.Exact decodeList encodeList (Decode.ListFits Fits) :=
  Decode.exact_counted exact

end Attribute

namespace Member

/-- The attributes can be counted in two bytes, and each of them can be written. -/
def Fits (member : Member) : Prop :=
  Decode.ListFits Attribute.Fits member.attributes

theorem exact : Decode.Exact decode encode Fits := by
  intro input rest member
  simp only [decode, Decode.bind_eq_ok_iff, Decode.pure_eq_ok_iff, Decode.u16_eq_ok_iff,
    Attribute.exact_list.eq_ok_iff]
  constructor
  · rintro ⟨flags, _, rfl, name, _, rfl, descriptor, _, rfl, attributes, _, ⟨hfits, rfl⟩, rfl,
      rfl⟩
    exact ⟨hfits, by simp only [encode, List.append_assoc]⟩
  · rintro ⟨hfits, rfl⟩
    refine ⟨member.flags, _, ?_, member.name, _, rfl, member.descriptor, _, rfl,
      member.attributes, rest, ⟨hfits, rfl⟩, rfl, rfl⟩
    simp only [encode, List.append_assoc]

theorem exact_list : Decode.Exact decodeList encodeList (Decode.ListFits Fits) :=
  Decode.exact_counted exact

end Member

end JarTailor
