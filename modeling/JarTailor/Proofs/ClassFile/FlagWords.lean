import JarTailor.Proofs.ClassFile.Contents

/-!
# Where the flags of a class file stand

A class file is cut into words of access flags and the bytes between them. Class files whose
pieces differ in flag words only are written as bytes that differ in these words only.
-/

namespace JarTailor

/-- A word of access flags, or bytes that belong to none. -/
inductive Segment where
  | flags (word : AccessFlags)
  | plain (bytes : Bytes)
deriving Repr, DecidableEq, Inhabited

namespace Segment

def bytes : Segment → Bytes
  | .flags word => be16 word
  | .plain bytes => bytes

/-- Which bytes belong to a flag word. -/
def mask : Segment → List Bool
  | .flags _ => [true, true]
  | .plain bytes => bytes.map fun _ => false

/-- The second segment is the first, but for its flags. -/
inductive Reflags : Segment → Segment → Prop
  | flags (old new : AccessFlags) : Reflags (.flags old) (.flags new)
  | plain (bytes : Bytes) : Reflags (.plain bytes) (.plain bytes)

theorem Reflags.refl (segment : Segment) : Reflags segment segment := by
  cases segment with
  | flags word => exact .flags word word
  | plain bytes => exact .plain bytes

theorem reflags_refl (segments : List Segment) : List.Forall₂ Reflags segments segments :=
  List.forall₂_same.2 fun segment _ => .refl segment

@[simp] theorem length_mask (segment : Segment) : segment.mask.length = segment.bytes.length := by
  cases segment with
  | flags word => rfl
  | plain bytes => exact List.length_map _

theorem Reflags.length_eq {before after : Segment} (h : Reflags before after) :
    after.bytes.length = before.bytes.length := by
  cases h with
  | flags old new => rfl
  | plain bytes => rfl

theorem Reflags.getElem?_eq {before after : Segment} (h : Reflags before after) {position : Nat}
    (hmask : before.mask[position]? ≠ some true) :
    after.bytes[position]? = before.bytes[position]? := by
  cases h with
  | plain bytes => rfl
  | flags old new =>
      match position with
      | 0 => exact absurd rfl hmask
      | 1 => exact absurd rfl hmask
      | position + 2 => rfl

section Lists

variable {before after : List Segment}

theorem length_flatMap_of_reflags (h : List.Forall₂ Reflags before after) :
    (after.flatMap bytes).length = (before.flatMap bytes).length := by
  induction h with
  | nil => rfl
  | cons hfirst _ ih =>
      rw [List.flatMap_cons, List.flatMap_cons, List.length_append, List.length_append,
        hfirst.length_eq, ih]

/-- Outside the flag words nothing changes. -/
theorem getElem?_flatMap_of_reflags (h : List.Forall₂ Reflags before after) {position : Nat}
    (hmask : (before.flatMap mask)[position]? ≠ some true) :
    (after.flatMap bytes)[position]? = (before.flatMap bytes)[position]? := by
  induction h generalizing position with
  | nil => rfl
  | @cons first first' rest rest' hfirst _ ih =>
      rw [List.flatMap_cons] at hmask
      rw [List.flatMap_cons, List.flatMap_cons]
      rcases Nat.lt_or_ge position first.bytes.length with hlt | hge
      · have hlt' : position < first'.bytes.length := hfirst.length_eq.symm ▸ hlt
        rw [List.getElem?_append_left (by rwa [length_mask])] at hmask
        rw [List.getElem?_append_left hlt, List.getElem?_append_left hlt']
        exact hfirst.getElem?_eq hmask
      · have hge' : first'.bytes.length ≤ position := hfirst.length_eq.symm ▸ hge
        rw [List.getElem?_append_right (by rwa [length_mask]), length_mask] at hmask
        rw [List.getElem?_append_right hge, List.getElem?_append_right hge', hfirst.length_eq]
        exact ih hmask

/-- Related values are cut into related segments. -/
theorem reflags_flatMap {α : Type} {related : α → α → Prop} {segments : α → List Segment}
    {values values' : List α} (h : List.Forall₂ related values values')
    (hsegments : ∀ value value', related value value' →
      List.Forall₂ Reflags (segments value) (segments value')) :
    List.Forall₂ Reflags (values.flatMap segments) (values'.flatMap segments) := by
  induction h with
  | nil => exact .nil
  | cons hfirst _ ih => exact List.rel_append (hsegments _ _ hfirst) ih

theorem flatMap_bytes_flatMap {α : Type} {segments : α → List Segment} {encode : α → Bytes}
    (h : ∀ value, (segments value).flatMap bytes = encode value) (values : List α) :
    (values.flatMap segments).flatMap bytes = values.flatMap encode := by
  rw [List.flatMap_assoc]
  exact List.flatMap_congr fun value _ => h value

end Lists

end Segment

def Member.segments (member : Member) : List Segment :=
  [.flags member.flags,
    .plain (be16 member.name ++ be16 member.descriptor ++ Attribute.encodeList member.attributes)]

def InnerClass.segments (record : InnerClass) : List Segment :=
  [.plain (be16 record.inner ++ be16 record.outer ++ be16 record.name), .flags record.flags]

/-- Flags stand in an attribute only if it holds records of nested classes. -/
def Attribute.segments (pool : Pool) (entry : Attribute) : List Segment :=
  if entry.isNamed pool "InnerClasses" then
    match InnerClass.decodeList entry.info with
    | .error _ => [.plain entry.encode]
    | .ok records =>
        .plain (be16 entry.name ++ be32 (UInt32.ofNat entry.info.length) ++
            be16 (UInt16.ofNat records.length)) ::
          records.flatMap InnerClass.segments ++
            [.plain (entry.info.drop (InnerClass.encodeList records).length)]
  else [.plain entry.encode]

namespace ClassFile

def segments (classFile : ClassFile) : List Segment :=
  [.plain (be32 magic ++ be16 classFile.minor ++ be16 classFile.major ++ classFile.pool.encode),
    .flags classFile.flags,
    .plain (be16 classFile.thisClass ++ be16 classFile.superClass ++
      be16 (UInt16.ofNat classFile.interfaces.length) ++ classFile.interfaces.flatMap be16),
    .plain (be16 (UInt16.ofNat classFile.fields.length))] ++
    classFile.fields.flatMap Member.segments ++
    .plain (be16 (UInt16.ofNat classFile.methods.length)) ::
      classFile.methods.flatMap Member.segments ++
    .plain (be16 (UInt16.ofNat classFile.attributes.length)) ::
      classFile.attributes.flatMap (Attribute.segments classFile.pool)

/-- Which bytes of a class file belong to the flags of the class, of a field or method, or of a
record of a nested class. -/
def flagMask (classFile : ClassFile) : List Bool :=
  classFile.segments.flatMap Segment.mask

/-- Both classes are written as equally many bytes, which differ in words of access flags only. -/
def SameOutsideFlags (before after : ClassFile) : Prop :=
  after.encode.length = before.encode.length ∧
    ∀ position : Nat, before.flagMask[position]? ≠ some true →
      after.encode[position]? = before.encode[position]?

end ClassFile

theorem Member.flatMap_segments (member : Member) :
    member.segments.flatMap Segment.bytes = member.encode := by
  simp only [segments, encode, List.flatMap_cons, List.flatMap_nil, List.append_nil, Segment.bytes,
    List.append_assoc]

theorem InnerClass.flatMap_segments (record : InnerClass) :
    record.segments.flatMap Segment.bytes = record.encode := by
  simp only [segments, encode, List.flatMap_cons, List.flatMap_nil, List.append_nil, Segment.bytes,
    List.append_assoc]

theorem Attribute.segments_of_decodeList {pool : Pool} {entry : Attribute}
    {records : List InnerClass} (hnamed : entry.isNamed pool "InnerClasses" = true)
    (hrecords : InnerClass.decodeList entry.info = .ok records) :
    entry.segments pool =
      .plain (be16 entry.name ++ be32 (UInt32.ofNat entry.info.length) ++
          be16 (UInt16.ofNat records.length)) ::
        records.flatMap InnerClass.segments ++
          [.plain (entry.info.drop (InnerClass.encodeList records).length)] := by
  rw [segments, if_pos hnamed, hrecords]

theorem Attribute.flatMap_segments (pool : Pool) (entry : Attribute) :
    (entry.segments pool).flatMap Segment.bytes = entry.encode := by
  have hplain : [Segment.plain entry.encode].flatMap Segment.bytes = entry.encode :=
    List.append_nil _
  unfold segments
  split
  · split
    · exact hplain
    · next records hrecords =>
        obtain ⟨name, info⟩ := entry
        obtain ⟨-, rest, rfl⟩ := InnerClass.decodeList_eq_ok_iff.1 hrecords
        rw [List.flatMap_append, List.flatMap_cons,
          Segment.flatMap_bytes_flatMap InnerClass.flatMap_segments, List.drop_left]
        simp only [List.flatMap_cons, List.flatMap_nil, List.append_nil, Segment.bytes, encode,
          InnerClass.encodeList, List.append_assoc]
  · exact hplain

/-- The segments make up the class file. -/
theorem ClassFile.flatMap_segments (classFile : ClassFile) :
    classFile.segments.flatMap Segment.bytes = classFile.encode := by
  simp only [segments, List.flatMap_append, List.flatMap_cons, List.flatMap_nil, List.append_nil,
    Segment.flatMap_bytes_flatMap Member.flatMap_segments,
    Segment.flatMap_bytes_flatMap (Attribute.flatMap_segments classFile.pool), Segment.bytes,
    encode, Member.encodeList, Attribute.encodeList, List.append_assoc]

theorem ClassFile.sameOutsideFlags_of_segments {before after : ClassFile}
    (h : List.Forall₂ Segment.Reflags before.segments after.segments) :
    before.SameOutsideFlags after := by
  rw [SameOutsideFlags, ← before.flatMap_segments, ← after.flatMap_segments]
  exact ⟨Segment.length_flatMap_of_reflags h, fun _ => Segment.getElem?_flatMap_of_reflags h⟩

end JarTailor
