import JarTailor.Bytes

/-!
# Texts as UTF-8 bytes

A text and its UTF-8 bytes determine each other: `decode_eq_ok_iff` says that exactly the bytes
of a text decode to it. For bytes of no text, `firstFault` says where they go wrong.
-/

namespace JarTailor.Utf8

def isContinuation (byte : UInt8) : Bool :=
  0x80 ≤ byte && byte ≤ 0xbf

/-- Whether `second` may follow the first byte of a three-byte character: overlong forms and
surrogates are ruled out here. -/
def startsThree (first second : UInt8) : Bool :=
  if first == 0xe0 then 0xa0 ≤ second && second ≤ 0xbf
  else if first == 0xed then 0x80 ≤ second && second ≤ 0x9f
  else isContinuation second

/-- Whether `second` may follow the first byte of a four-byte character: overlong forms and
everything above the last code point are ruled out here. -/
def startsFour (first second : UInt8) : Bool :=
  if first == 0xf0 then 0x90 ≤ second && second ≤ 0xbf
  else if first == 0xf4 then 0x80 ≤ second && second ≤ 0x8f
  else isContinuation second

/-- The first place where bytes starting at `index` are no UTF-8. -/
def firstFault (index : Nat) : Bytes → EncodingFault
  | [] => .incomplete index
  | first :: rest =>
      if first < 0x80 then firstFault (index + 1) rest
      else if 0xc2 ≤ first && first ≤ 0xdf then
        match rest with
        | [] => .incomplete index
        | second :: rest =>
            if !isContinuation second then .malformed 1 index
            else firstFault (index + 2) rest
      else if 0xe0 ≤ first && first ≤ 0xef then
        match rest with
        | [] => .incomplete index
        | [second] => if startsThree first second then .incomplete index else .malformed 1 index
        | second :: third :: rest =>
            if !startsThree first second then .malformed 1 index
            else if !isContinuation third then .malformed 2 index
            else firstFault (index + 3) rest
      else if 0xf0 ≤ first && first ≤ 0xf4 then
        match rest with
        | [] => .incomplete index
        | [second] => if startsFour first second then .incomplete index else .malformed 1 index
        | [second, third] =>
            if !startsFour first second then .malformed 1 index
            else if !isContinuation third then .malformed 2 index
            else .incomplete index
        | second :: third :: fourth :: rest =>
            if !startsFour first second then .malformed 1 index
            else if !isContinuation third then .malformed 2 index
            else if !isContinuation fourth then .malformed 3 index
            else firstFault (index + 4) rest
      else .malformed 1 index

def encode (text : String) : Bytes :=
  text.toByteArray.data.toList

def lead (c : Char) : UInt8 :=
  (String.utf8EncodeChar c).headD 0

def decode (bytes : Bytes) : Except EncodingFault String :=
  let block := ByteArray.mk bytes.toArray
  if valid : block.IsValidUTF8 then .ok (String.ofByteArray block valid)
  else .error (firstFault 0 bytes)

theorem encode_ofList (chars : List Char) :
    encode (String.ofList chars) = chars.flatMap String.utf8EncodeChar := by
  rw [encode, String.toByteArray_ofList, List.utf8Encode, List.toList_data_toByteArray]

theorem encode_eq_flatMap (text : String) :
    encode text = text.toList.flatMap String.utf8EncodeChar := by
  rw [← encode_ofList, String.ofList_toList]

theorem encode_inj {s t : String} : encode s = encode t ↔ s = t := by
  rw [← String.toByteArray_inj]
  simp [encode, ByteArray.ext_iff, ← Array.toList_inj]

theorem decode_eq_ok_iff {bytes : Bytes} {text : String} :
    decode bytes = .ok text ↔ encode text = bytes := by
  unfold decode
  constructor
  · intro h
    by_cases valid : (ByteArray.mk bytes.toArray).IsValidUTF8
    · simp only [valid, dite_true, Except.ok.injEq] at h
      subst h
      simp [encode]
    · simp [valid] at h
  · rintro rfl
    have key : ByteArray.mk (encode text).toArray = text.toByteArray := by simp [encode]
    have valid : (ByteArray.mk (encode text).toArray).IsValidUTF8 := key ▸ text.isValidUTF8
    simp only [valid, dite_true, Except.ok.injEq]
    exact String.toByteArray_inj.1 key

@[simp] theorem decode_encode (text : String) : decode (encode text) = .ok text :=
  decode_eq_ok_iff.2 rfl

end JarTailor.Utf8
