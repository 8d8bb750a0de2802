import JarTailor.Proofs.ClassFile.Lossless

/-!
# Texts that are too long

The bytes of a text are counted in two bytes, and of a greater length only these are written. What
follows the counted part of the text is then read as the next constant.
-/

namespace JarTailor

namespace Constant

theorem encode_utf8_eq (bytes : Bytes) :
    encode (.utf8 bytes) = encode (.utf8 (bytes.take (bytes.length % 2 ^ 16))) ++
      bytes.drop (bytes.length % 2 ^ 16) := by
  have hlength : (bytes.take (bytes.length % 2 ^ 16)).length = bytes.length % 2 ^ 16 := by
    rw [List.length_take, Nat.min_eq_left (Nat.mod_le ..)]
  have hword : UInt16.ofNat (bytes.length % 2 ^ 16) = UInt16.ofNat bytes.length := by
    apply UInt16.toNat_inj.1
    simp
  simp only [encode, hlength, hword, List.cons_append, List.append_assoc, List.take_append_drop]

theorem exists_tag {constant : Constant} (h : constant.Fits) :
    ∃ tag tail, constant.encode = tag :: tail ∧ tag ≤ 20 := by
  cases constant with
  | unusable => exact h.elim
  | _ => exact ⟨_, _, rfl, by decide⟩

theorem decode_ne_ok_of_lt {index : Nat} {byte : UInt8} {rest tail : Bytes} {constant : Constant}
    (h : 20 < byte) : decode index (byte :: rest) ≠ .ok (constant, tail) := by
  intro hdecode
  obtain ⟨hfits, hinput⟩ := (exact index).eq_ok_iff.1 hdecode
  obtain ⟨tag, others, hencode, htag⟩ := exists_tag hfits
  rw [hencode, List.cons_append] at hinput
  obtain rfl := (List.cons.inj hinput).1
  exact UInt8.not_lt.2 htag h

end Constant

namespace Pool

theorem total_width_cons (constant : Constant) (constants : List Constant) :
    total Constant.width (constant :: constants) =
      constant.width - 1 + total Constant.width constants + 1 := by
  have hpos := width_pos constant
  rw [total_cons]
  omega

/-- Behind constants that fit the remaining slots are read from the remaining bytes. -/
theorem exists_decodeSlots_of_append {constants : List Constant}
    (hfits : ∀ constant ∈ constants, constant.Fits) {slots : Nat} {pool found : Pool}
    {input rest : Bytes}
    (h : decodeSlots (total Constant.width constants + slots) pool
      (constants.flatMap Constant.encode ++ input) = .ok (found, rest)) :
    ∃ grown, decodeSlots slots grown input = .ok (found, rest) := by
  induction constants generalizing pool with
  | nil =>
      rw [total_nil, Nat.zero_add] at h
      exact ⟨pool, h⟩
  | cons constant constants ih =>
      have hpos := width_pos constant
      rw [total_width_cons, Nat.add_right_comm, decodeSlots_succ_eq_ok_iff, List.flatMap_cons,
        List.append_assoc] at h
      obtain ⟨first, mid, left, hfirst, hleft, h⟩ := h
      have hread : Constant.decode pool.size
          (constant.encode ++ (constants.flatMap Constant.encode ++ input)) =
            .ok (constant, constants.flatMap Constant.encode ++ input) :=
        (Constant.exact _).eq_ok_iff.2 ⟨hfits constant List.mem_cons_self, rfl⟩
      cases hread.symm.trans hfirst
      obtain rfl : left = total Constant.width constants + slots := by omega
      exact ih (fun other hother => hfits other (List.mem_cons_of_mem _ hother)) h

variable {before after : List Constant} {bytes rest tail : Bytes} {byte : UInt8} {found : Pool}

theorem decodeSlots_ne_ok_of_overlong {pool : Pool} (hbefore : ∀ constant ∈ before, constant.Fits)
    (hafter : after ≠ []) (hbyte : bytes[bytes.length % 2 ^ 16]? = some byte) (htag : 20 < byte) :
    decodeSlots (total Constant.width (before ++ .utf8 bytes :: after)) pool
      ((before ++ .utf8 bytes :: after).flatMap Constant.encode ++ rest) ≠ .ok (found, tail) := by
  intro h
  have hshort : (Constant.utf8 (bytes.take (bytes.length % 2 ^ 16))).Fits := by
    show (bytes.take (bytes.length % 2 ^ 16)).length < 2 ^ 16
    rw [List.length_take]
    exact Nat.lt_of_le_of_lt (Nat.min_le_left ..) (Nat.mod_lt _ (by decide))
  rw [total_append, List.flatMap_append, List.append_assoc] at h
  obtain ⟨grown, h⟩ := exists_decodeSlots_of_append hbefore h
  -- the overlong text is read as a short one, and its next byte begins no constant
  rw [total_cons, List.flatMap_cons, Constant.encode_utf8_eq, List.append_assoc,
    List.append_assoc] at h
  have hone : total Constant.width [.utf8 (bytes.take (bytes.length % 2 ^ 16))] = 1 := rfl
  obtain ⟨last, h⟩ := exists_decodeSlots_of_append (List.forall_mem_singleton.2 hshort)
    (by rwa [hone, List.flatMap_singleton])
  obtain ⟨next, others, rfl⟩ := List.exists_cons_of_ne_nil hafter
  obtain ⟨hlt, rfl⟩ := List.getElem?_eq_some_iff.1 hbyte
  rw [total_width_cons, decodeSlots_succ_eq_ok_iff, List.drop_eq_getElem_cons hlt,
    List.cons_append] at h
  obtain ⟨constant, mid, left, hdecode, -⟩ := h
  exact Constant.decode_ne_ok_of_lt htag hdecode

theorem decode_ne_ok_of_overlong {pool : Pool}
    (hentries : pool.entries.toList =
      .unusable :: (before ++ .utf8 bytes :: after).flatMap Constant.slots)
    (hsize : pool.size ≤ capacity) (hbefore : ∀ constant ∈ before, constant.Fits)
    (hafter : after ≠ []) (hbyte : bytes[bytes.length % 2 ^ 16]? = some byte) (htag : 20 < byte) :
    decode (pool.encode ++ rest) ≠ .ok (found, tail) := by
  intro h
  rw [size_eq_length, hentries, List.length_cons, Constant.length_flatMap_slots, capacity] at hsize
  rw [encode_eq_of_entries hentries, List.append_assoc] at h
  obtain ⟨count, mid, hcount, h⟩ := Decode.bind_eq_ok_iff.1 h
  cases (Decode.u16_be16 _ _).symm.trans hcount
  rw [UInt16.toNat_ofNat_of_lt' (Nat.lt_succ_of_le hsize)] at h
  exact decodeSlots_ne_ok_of_overlong hbefore hafter hbyte htag h

end Pool

/-- A class is unreadable if one of its texts is too long and goes on with a byte that begins no
constant where another constant should follow. -/
theorem ClassFile.decode_ne_ok_of_overlong {classFile found : ClassFile}
    {before after : List Constant} {bytes : Bytes} {byte : UInt8}
    (hentries : classFile.pool.entries.toList =
      .unusable :: (before ++ .utf8 bytes :: after).flatMap Constant.slots)
    (hsize : classFile.pool.size ≤ Pool.capacity) (hbefore : ∀ constant ∈ before, constant.Fits)
    (hafter : after ≠ []) (hbyte : bytes[bytes.length % 2 ^ 16]? = some byte) (htag : 20 < byte) :
    decode classFile.encode ≠ .ok found := by
  intro h
  obtain ⟨hfits, -, hbytes⟩ := decode_eq_ok_iff.1 h
  simp only [encode, List.append_assoc] at hbytes
  have hpools := congrArg (List.drop 8) hbytes
  exact Pool.decode_ne_ok_of_overlong hentries hsize hbefore hafter hbyte htag
    (Pool.exact.eq_ok_iff.2 ⟨hfits.pool, hpools⟩)

end JarTailor
