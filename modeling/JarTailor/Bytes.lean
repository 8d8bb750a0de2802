import JarTailor.Failure
import JarTailor.Total

/-!
# Big-endian bytes

A `Decode` takes what it needs from the front of a byte string and leaves the rest; when the
bytes run out it fails. Beside each decoder stands the encoder that it undoes: `Decode.u16_be16`
and its neighbours say so for any bytes that follow.
-/

namespace JarTailor

abbrev Bytes := List UInt8

abbrev Decode := StateT Bytes (Except Failure)

/-- Two bytes, the more significant first. -/
def be16 (value : UInt16) : Bytes :=
  [(value >>> 8).toUInt8, value.toUInt8]

def be32 (value : UInt32) : Bytes :=
  [(value >>> 24).toUInt8, (value >>> 16).toUInt8, (value >>> 8).toUInt8, value.toUInt8]

def be64 (value : UInt64) : Bytes :=
  be32 (value >>> 32).toUInt32 ++ be32 value.toUInt32

def ofBe16 (high low : UInt8) : UInt16 :=
  UInt16.ofNat (high.toNat * 0x100 + low.toNat)

def ofBe32 (a b c d : UInt8) : UInt32 :=
  UInt32.ofNat (((a.toNat * 0x100 + b.toNat) * 0x100 + c.toNat) * 0x100 + d.toNat)

def ofHalves (high low : UInt32) : UInt64 :=
  UInt64.ofNat (high.toNat * 0x100000000 + low.toNat)

namespace Decode

def u8 : Decode UInt8
  | a :: rest => pure (a, rest)
  | [] => fail .outOfBounds

def u16 : Decode UInt16
  | a :: b :: rest => pure (ofBe16 a b, rest)
  | _ => fail .outOfBounds

def u32 : Decode UInt32
  | a :: b :: c :: d :: rest => pure (ofBe32 a b c d, rest)
  | _ => fail .outOfBounds

def u64 : Decode UInt64 := do
  let high ← u32
  let low ← u32
  pure (ofHalves high low)

def take (count : Nat) : Decode Bytes := fun input =>
  let (front, rest) := input.splitAt count
  if front.length = count then pure (front, rest) else fail .outOfBounds

def times {α : Type} (count : Nat) (one : Decode α) : Decode (List α) :=
  go count []
where
  go : Nat → List α → Decode (List α)
    | 0, found => pure found.reverse
    | count + 1, found => do
        let value ← one
        go count (value :: found)

/-- Running a decoder so that its failures say what was being read. -/
def within {α : Type} (context : Context) (decoder : Decode α) : Decode α := fun input =>
  Except.within context (decoder input)

end Decode

@[simp] theorem length_be16 (value : UInt16) : (be16 value).length = 2 := rfl

@[simp] theorem length_be32 (value : UInt32) : (be32 value).length = 4 := rfl

@[simp] theorem length_be64 (value : UInt64) : (be64 value).length = 8 := rfl

/-- The bytes of items that take equally many. -/
theorem length_flatMap_of_width {α : Type} {bytes : α → Bytes} {width : Nat}
    (hwidth : ∀ item, (bytes item).length = width) (items : List α) :
    (items.flatMap bytes).length = items.length * width := by
  induction items with
  | nil => exact (Nat.zero_mul width).symm
  | cons item items ih =>
      rw [List.flatMap_cons, List.length_append, hwidth, ih, List.length_cons, Nat.succ_mul,
        Nat.add_comm]

theorem ofBe16_be16 (value : UInt16) :
    ofBe16 (value >>> 8).toUInt8 value.toUInt8 = value := by
  apply UInt16.toNat_inj.1
  have := value.toNat_lt
  simp [ofBe16, Nat.shiftRight_eq_div_pow]
  omega

theorem be16_ofBe16 (high low : UInt8) : be16 (ofBe16 high low) = [high, low] := by
  have := high.toNat_lt
  have := low.toNat_lt
  simp only [be16, ofBe16, List.cons.injEq, and_true]
  constructor <;> apply UInt8.toNat_inj.1 <;> simp [Nat.shiftRight_eq_div_pow] <;> omega

theorem ofBe32_be32 (value : UInt32) :
    ofBe32 (value >>> 24).toUInt8 (value >>> 16).toUInt8 (value >>> 8).toUInt8 value.toUInt8 =
      value := by
  apply UInt32.toNat_inj.1
  have := value.toNat_lt
  simp [ofBe32, Nat.shiftRight_eq_div_pow]
  omega

theorem be32_ofBe32 (a b c d : UInt8) : be32 (ofBe32 a b c d) = [a, b, c, d] := by
  have := a.toNat_lt
  have := b.toNat_lt
  have := c.toNat_lt
  have := d.toNat_lt
  simp only [be32, ofBe32, List.cons.injEq, and_true]
  refine ⟨?_, ?_, ?_, ?_⟩ <;> apply UInt8.toNat_inj.1 <;>
    simp [Nat.shiftRight_eq_div_pow] <;> omega

theorem ofHalves_be64 (value : UInt64) :
    ofHalves (value >>> 32).toUInt32 value.toUInt32 = value := by
  apply UInt64.toNat_inj.1
  have := value.toNat_lt
  simp [ofHalves, Nat.shiftRight_eq_div_pow]
  omega

theorem be64_ofHalves (high low : UInt32) : be64 (ofHalves high low) = be32 high ++ be32 low := by
  have := high.toNat_lt
  have := low.toNat_lt
  unfold be64 ofHalves
  congr 2 <;> apply UInt32.toNat_inj.1 <;> simp [Nat.shiftRight_eq_div_pow] <;> omega

namespace Decode

theorem bind_eq_ok_iff {α β : Type} {x : Decode α} {f : α → Decode β} {input rest : Bytes}
    {b : β} :
    (x >>= f) input = .ok (b, rest) ↔
      ∃ a mid, x input = .ok (a, mid) ∧ f a mid = .ok (b, rest) := by
  show (x input >>= fun p => f p.1 p.2) = _ ↔ _
  rw [Except.bind_eq_ok_iff]
  simp

theorem pure_eq_ok_iff {α : Type} {a b : α} {input rest : Bytes} :
    (pure a : Decode α) input = .ok (b, rest) ↔ a = b ∧ input = rest := by
  show Except.ok (a, input) = _ ↔ _
  simp

theorem fail_ne_ok {α : Type} {fault : Fault} {input rest : Bytes} {a : α} :
    (fail fault : Decode α) input ≠ .ok (a, rest) := by
  show Except.error (Failure.of fault) ≠ _
  simp

theorem u16_be16 (value : UInt16) (rest : Bytes) :
    u16 (be16 value ++ rest) = .ok (value, rest) := by
  simp [be16, u16, ofBe16_be16, pure, Except.pure]

theorem u32_be32 (value : UInt32) (rest : Bytes) :
    u32 (be32 value ++ rest) = .ok (value, rest) := by
  simp [be32, u32, ofBe32_be32, pure, Except.pure]

theorem u16_eq_ok_iff {input rest : Bytes} {value : UInt16} :
    u16 input = .ok (value, rest) ↔ input = be16 value ++ rest := by
  constructor
  · intro h
    match input, h with
    | a :: b :: tail, h =>
        simp only [u16, pure, Except.pure, Except.ok.injEq, Prod.mk.injEq] at h
        obtain ⟨rfl, rfl⟩ := h
        simp [be16_ofBe16]
    | [_], h => simp [u16] at h
    | [], h => simp [u16] at h
  · rintro rfl
    exact u16_be16 value rest

theorem u32_eq_ok_iff {input rest : Bytes} {value : UInt32} :
    u32 input = .ok (value, rest) ↔ input = be32 value ++ rest := by
  constructor
  · intro h
    match input, h with
    | a :: b :: c :: d :: tail, h =>
        simp only [u32, pure, Except.pure, Except.ok.injEq, Prod.mk.injEq] at h
        obtain ⟨rfl, rfl⟩ := h
        simp [be32_ofBe32]
    | [_, _, _], h => simp [u32] at h
    | [_, _], h => simp [u32] at h
    | [_], h => simp [u32] at h
    | [], h => simp [u32] at h
  · rintro rfl
    exact u32_be32 value rest

theorem length_u16 {input rest : Bytes} {value : UInt16} (h : u16 input = .ok (value, rest)) :
    rest.length + 2 = input.length := by
  rw [u16_eq_ok_iff.1 h]
  simp [Nat.add_comm]

theorem length_u8 {input rest : Bytes} {value : UInt8} (h : u8 input = .ok (value, rest)) :
    rest.length + 1 = input.length := by
  cases input with
  | nil => cases h
  | cons a tail =>
      cases h
      rfl

theorem take_eq_ok_iff {count : Nat} {input front rest : Bytes} :
    take count input = .ok (front, rest) ↔ front.length = count ∧ input = front ++ rest := by
  simp only [take, List.splitAt_eq]
  constructor
  · intro h
    by_cases hlen : (input.take count).length = count
    · simp only [hlen, if_true, pure, Except.pure, Except.ok.injEq, Prod.mk.injEq] at h
      obtain ⟨rfl, rfl⟩ := h
      simp [hlen]
    · simp only [if_neg hlen, fail_eq_error, reduceCtorEq] at h
  · rintro ⟨rfl, rfl⟩
    simp [pure, Except.pure]

theorem length_take {count : Nat} {input front rest : Bytes}
    (h : take count input = .ok (front, rest)) : rest.length + count = input.length := by
  obtain ⟨rfl, rfl⟩ := take_eq_ok_iff.1 h
  simp [Nat.add_comm]

section Times

variable {α : Type} {one : Decode α}

theorem times_go (count : Nat) (found : List α) :
    times.go one count found = (found.reverse ++ ·) <$> times count one := by
  induction count generalizing found with
  | zero => simp [times, times.go]
  | succ count ih =>
      simp only [times, times.go]
      simp only [ih (_ :: found), ih [_]]
      simp

@[simp] theorem times_zero : times 0 one = pure [] := rfl

theorem times_succ (count : Nat) :
    times (count + 1) one = (do
      let value ← one
      let values ← times count one
      pure (value :: values)) := by
  rw [times, times.go]
  simp [times_go]

/-- When every value accounts for the bytes it is read from, so do the values together. -/
theorem length_times {size : α → Nat}
    (hone : ∀ input value rest, one input = .ok (value, rest) →
      size value + rest.length = input.length)
    {count : Nat} {input rest : Bytes} {values : List α}
    (h : times count one input = .ok (values, rest)) :
    total size values + rest.length = input.length := by
  induction count generalizing input values with
  | zero =>
      obtain ⟨rfl, rfl⟩ := pure_eq_ok_iff.1 h
      simp
  | succ count ih =>
      rw [times_succ] at h
      obtain ⟨value, mid, hvalue, h⟩ := bind_eq_ok_iff.1 h
      obtain ⟨others, tail, hothers, h⟩ := bind_eq_ok_iff.1 h
      obtain ⟨rfl, rfl⟩ := pure_eq_ok_iff.1 h
      have := hone _ _ _ hvalue
      have := ih hothers
      simp only [total_cons]
      omega

end Times

end Decode

end JarTailor
