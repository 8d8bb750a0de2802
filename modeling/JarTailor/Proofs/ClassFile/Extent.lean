import JarTailor.Proofs.ClassFile.Lossless

/-!
# Where a class file ends

A decoder looks at bytes only as it takes them. On a longer input it does what it did before and
leaves the further bytes, unless the shorter input ended while it was still reading. So a class file
that is cut off anywhere runs out of bytes, and one that goes on has bytes left over.
-/

namespace JarTailor

/-- The bytes ended while they were still being read. -/
def Except.RunsOut {α : Type} (x : Except Failure α) : Prop :=
  ∃ failure, x = .error failure ∧ failure.fault = .outOfBounds

namespace Decode

variable {α β : Type}

/-- What was read, with further bytes behind the bytes that are left. -/
def leaving (more : Bytes) (x : Except Failure (α × Bytes)) : Except Failure (α × Bytes) :=
  x.map fun (value, rest) => (value, rest ++ more)

/-- The decoder runs out of bytes, or whatever follows its input makes no difference to it. -/
def Sequential (decoder : Decode α) : Prop :=
  ∀ input, Except.RunsOut (decoder input) ∨
    ∀ more, decoder (input ++ more) = leaving more (decoder input)

theorem bind_apply (x : Decode α) (f : α → Decode β) (input : Bytes) :
    (x >>= f) input = x input >>= fun (value, rest) => f value rest := rfl

theorem sequential_pure (value : α) : Sequential (pure value) :=
  fun _ => .inr fun _ => rfl

theorem sequential_fail (fault : Fault) : Sequential (fail fault : Decode α) :=
  fun _ => .inr fun _ => rfl

/-- What would have come after a failure is not looked at. -/
theorem sequential_fail_bind (fault : Fault) (f : α → Decode β) :
    Sequential (fail fault >>= f) :=
  fun _ => .inr fun _ => rfl

theorem Sequential.bind {x : Decode α} {f : α → Decode β} (hx : Sequential x)
    (hf : ∀ value, Sequential (f value)) : Sequential (x >>= f) := by
  intro input
  simp only [bind_apply]
  rcases hx input with ⟨failure, hfailure, hfault⟩ | hsame
  · exact .inl ⟨failure, by rw [hfailure]; rfl, hfault⟩
  · cases hread : x input with
    | error failure =>
        refine .inr fun more => ?_
        rw [hsame more, hread]
        rfl
    | ok found =>
        rcases hf found.1 found.2 with hout | hsame'
        · exact .inl hout
        · refine .inr fun more => ?_
          rw [hsame more, hread]
          exact hsame' more

theorem Sequential.within {decoder : Decode α} (h : Sequential decoder) (context : Context) :
    Sequential (decoder.within context) := by
  intro input
  rcases h input with ⟨failure, hfailure, hfault⟩ | hsame
  · refine .inl ⟨failure.within context, ?_, hfault⟩
    rw [Decode.within, hfailure]
    rfl
  · refine .inr fun more => ?_
    rw [Decode.within, Decode.within, hsame more]
    cases decoder input <;> rfl

theorem sequential_u8 : Sequential u8
  | [] => .inl ⟨_, rfl, rfl⟩
  | _ :: _ => .inr fun _ => rfl

theorem sequential_u16 : Sequential u16
  | [] | [_] => .inl ⟨_, rfl, rfl⟩
  | _ :: _ :: _ => .inr fun _ => rfl

theorem sequential_u32 : Sequential u32
  | [] | [_] | [_, _] | [_, _, _] => .inl ⟨_, rfl, rfl⟩
  | _ :: _ :: _ :: _ :: _ => .inr fun _ => rfl

theorem sequential_u64 : Sequential u64 :=
  sequential_u32.bind fun _ => sequential_u32.bind fun _ => sequential_pure _

theorem sequential_take (count : Nat) : Sequential (take count) := by
  intro input
  by_cases hlength : (input.take count).length = count
  · have hcount : count ≤ input.length := by
      rw [← hlength, List.length_take]
      exact Nat.min_le_right ..
    refine .inr fun more => ?_
    simp only [take, List.splitAt_eq, List.take_append_of_le_length hcount,
      List.drop_append_of_le_length hcount, hlength, if_true]
    rfl
  · refine .inl ⟨Failure.of .outOfBounds, ?_, rfl⟩
    simp only [take, List.splitAt_eq, if_neg hlength, fail_eq_error]

theorem Sequential.times {one : Decode α} (h : Sequential one) (count : Nat) :
    Sequential (times count one) := by
  induction count with
  | zero => exact sequential_pure []
  | succ count ih =>
      rw [times_succ]
      exact h.bind fun _ => ih.bind fun _ => sequential_pure _

end Decode

open Decode

theorem Constant.sequential_decode (index : Nat) : Sequential (decode index) := by
  have hword (f : Index → Constant) : Sequential (do return f (← u16)) :=
    sequential_u16.bind fun _ => sequential_pure _
  have hpair (f : Index → Index → Constant) : Sequential (do return f (← u16) (← u16)) :=
    sequential_u16.bind fun _ => sequential_u16.bind fun _ => sequential_pure _
  refine sequential_u8.bind fun tag => ?_
  split
  case h_1 =>
    exact sequential_u16.bind fun _ => (sequential_take _).bind fun _ => sequential_pure _
  case h_2 | h_3 => exact sequential_u32.bind fun _ => sequential_pure _
  case h_4 | h_5 => exact sequential_u64.bind fun _ => sequential_pure _
  case h_6 | h_7 | h_13 | h_16 | h_17 => exact hword _
  case h_8 | h_9 | h_10 | h_11 | h_14 | h_15 => exact hpair _
  case h_12 => exact sequential_u8.bind fun _ => sequential_u16.bind fun _ => sequential_pure _
  case h_18 => exact sequential_fail _

/-- The slots still to be filled decide how far a pool is read, not the bytes that follow. -/
theorem Pool.sequential_decodeSlots (slots : Nat) (pool : Pool) :
    Sequential (decodeSlots slots pool) := by
  induction slots using Nat.strongRecOn generalizing pool with
  | ind slots ih =>
      cases slots with
      | zero => exact sequential_pure pool
      | succ slots =>
          rw [decodeSlots]
          refine (Constant.sequential_decode pool.size).bind fun constant => ?_
          split
          · cases slots with
            | zero => exact sequential_fail .wideOverflow
            | succ slots => exact ih slots (by omega) (pool.append constant)
          · exact ih slots (Nat.lt_succ_self slots) (pool.append constant)

theorem Pool.sequential_decode : Sequential Pool.decode := by
  refine sequential_u16.bind fun count => ?_
  split
  · exact sequential_fail .emptyPool
  · exact sequential_decodeSlots _ _

/-- A list behind its count. -/
theorem Decode.Sequential.counted {α : Type} {one : Decode α} (h : Sequential one) :
    Sequential (do let count ← u16; Decode.times count.toNat one) :=
  sequential_u16.bind fun count => h.times count.toNat

theorem Attribute.sequential_decode : Sequential Attribute.decode :=
  sequential_u16.bind fun _ => sequential_u32.bind fun length =>
    (sequential_take length.toNat).bind fun _ => sequential_pure _

theorem Attribute.sequential_decodeList : Sequential Attribute.decodeList :=
  sequential_decode.counted

theorem Member.sequential_decode : Sequential Member.decode :=
  sequential_u16.bind fun _ => sequential_u16.bind fun _ => sequential_u16.bind fun _ =>
    Attribute.sequential_decodeList.bind fun _ => sequential_pure _

theorem Member.sequential_decodeList : Sequential Member.decodeList :=
  sequential_decode.counted

namespace ClassFile

theorem sequential_reader : Sequential reader := by
  refine sequential_u32.bind fun found => ?_
  split
  · exact sequential_fail_bind (.badMagic found) _
  refine sequential_u16.bind fun minor => ?_
  refine sequential_u16.bind fun major => ?_
  refine (Pool.sequential_decode.within .poolSection).bind fun pool => ?_
  refine sequential_u16.bind fun flags => ?_
  refine sequential_u16.bind fun thisClass => ?_
  refine sequential_u16.bind fun superClass => ?_
  refine sequential_u16.bind fun count => ?_
  refine (sequential_u16.times count.toNat).bind fun interfaces => ?_
  refine (Member.sequential_decodeList.within .fieldsSection).bind fun fields => ?_
  refine (Member.sequential_decodeList.within .methodsSection).bind fun methods => ?_
  refine (Attribute.sequential_decodeList.within .attributesSection).bind fun attributes => ?_
  exact sequential_pure _

section Extent

variable {bytes shorter more : Bytes} {classFile : ClassFile}

theorem decode_append (h : decode bytes = .ok classFile) (hmore : more ≠ []) :
    decode (bytes ++ more) = .error (Failure.of (.trailingBytes more.length)) := by
  obtain ⟨hfits, -, hbytes⟩ := decode_eq_ok_iff.1 h
  have hread : reader (bytes ++ more) = .ok (classFile, more) :=
    exact_reader.eq_ok_iff.2 ⟨hfits, by rw [hbytes]⟩
  cases more with
  | nil => exact absurd rfl hmore
  | cons byte rest =>
      rw [decode, hread]
      rfl

theorem runsOut_of_append (h : decode (shorter ++ more) = .ok classFile) (hmore : more ≠ []) :
    Except.RunsOut (decode shorter) := by
  obtain ⟨hfits, -, hbytes⟩ := decode_eq_ok_iff.1 h
  have hread : reader (shorter ++ more) = .ok (classFile, []) :=
    exact_reader.eq_ok_iff.2 ⟨hfits, by rw [hbytes, List.append_nil]⟩
  rcases sequential_reader shorter with ⟨failure, hfailure, hfault⟩ | hsame
  · refine ⟨failure, ?_, hfault⟩
    rw [decode, hfailure]
    rfl
  · -- a reader that ends inside the shorter bytes leaves the others
    rw [hsame more] at hread
    cases hshorter : reader shorter with
    | error failure =>
        rw [hshorter] at hread
        cases hread
    | ok found =>
        rw [hshorter] at hread
        have hnil : found.2 ++ more = [] := congrArg Prod.snd (Except.ok.inj hread)
        exact absurd (List.append_eq_nil_iff.1 hnil).2 hmore

/-- No class file is a proper prefix of another: what is cut off runs out of bytes, and what goes on
is refused for exactly the bytes that are too many. -/
theorem rejects_of_decode (h : decode bytes = .ok classFile) :
    (∀ shorter, shorter <+: bytes → shorter ≠ bytes →
      ∃ failure, decode shorter = .error failure ∧ failure.fault = .outOfBounds) ∧
    ∀ longer, bytes <+: longer → longer ≠ bytes →
      decode longer = .error (Failure.of (.trailingBytes (longer.length - bytes.length))) := by
  constructor
  · rintro shorter ⟨more, rfl⟩ hne
    have hmore : more ≠ [] := fun hnil => hne (by rw [hnil, List.append_nil])
    exact runsOut_of_append h hmore
  · rintro longer ⟨more, rfl⟩ hne
    have hmore : more ≠ [] := fun hnil => hne (by rw [hnil, List.append_nil])
    rw [decode_append h hmore, List.length_append, Nat.add_sub_cancel_left]

/-- The class with a wide constant is cut inside the constant, and goes on for two bytes. -/
theorem rejects_of_decode_wideConstantBytes :
    ∃ classFile, decode wideConstantBytes = .ok classFile ∧
      (∃ failure, decode (wideConstantBytes.take 20) = .error failure ∧
        failure.fault = .outOfBounds) ∧
      decode (wideConstantBytes ++ [0, 7]) = .error (Failure.of (.trailingBytes 2)) := by
  have hdecode : ∃ classFile, decode wideConstantBytes = .ok classFile := ⟨_, rfl⟩
  obtain ⟨classFile, hdecode⟩ := hdecode
  obtain ⟨hcut, hpadded⟩ := rejects_of_decode hdecode
  exact ⟨classFile, hdecode, hcut _ (List.take_prefix _ _) (by decide),
    hpadded _ (List.prefix_append _ _) (by decide)⟩

end Extent

end ClassFile

end JarTailor
