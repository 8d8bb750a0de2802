import JarTailor.Proofs.ClassFile.Codec

/-!
# The layout of a constant pool

A pool is laid out when its slots are those of usable constants, one after another, behind the
unusable slot 0. Laid-out pools of writable constants are exactly what is read from bytes.
-/

namespace JarTailor

namespace Constant

/-- Constants that can stand in a pool of their own and be written: the bytes of a text are
counted in two bytes. -/
def Fits : Constant → Prop
  | .unusable => False
  | .utf8 bytes => bytes.length < 2 ^ 16
  | _ => True

section Operands

open Decode

variable {input rest : Bytes} {constant : Constant}

theorem return_word_eq_ok_iff {f : Index → Constant} :
    (do return f (← u16) : Decode Constant) input = .ok (constant, rest) ↔
      ∃ word, f word = constant ∧ input = be16 word ++ rest := by
  simp only [bind_eq_ok_iff, pure_eq_ok_iff, u16_eq_ok_iff]
  constructor
  · rintro ⟨word, _, rfl, rfl, rfl⟩
    exact ⟨word, rfl, rfl⟩
  · rintro ⟨word, rfl, rfl⟩
    exact ⟨word, rest, rfl, rfl, rfl⟩

theorem return_pair_eq_ok_iff {f : Index → Index → Constant} :
    (do return f (← u16) (← u16) : Decode Constant) input = .ok (constant, rest) ↔
      ∃ first second, f first second = constant ∧ input = be16 first ++ be16 second ++ rest := by
  simp only [bind_eq_ok_iff, pure_eq_ok_iff, u16_eq_ok_iff, List.append_assoc]
  constructor
  · rintro ⟨first, _, rfl, second, _, rfl, rfl, rfl⟩
    exact ⟨first, second, rfl, rfl⟩
  · rintro ⟨first, second, rfl, rfl⟩
    exact ⟨first, _, rfl, second, rest, rfl, rfl, rfl⟩

end Operands

open Decode in
theorem exact (index : Nat) : Exact (decode index) encode Fits := by
  intro input rest constant
  constructor
  · intro h
    obtain ⟨tag, mid, htag, h⟩ := bind_eq_ok_iff.1 h
    rw [u8_eq_ok_iff.1 htag]
    split at h
    case h_1 =>
        simp only [bind_eq_ok_iff, pure_eq_ok_iff, u16_eq_ok_iff, take_eq_ok_iff] at h
        obtain ⟨length, _, rfl, bytes, _, ⟨hlength, rfl⟩, rfl, rfl⟩ := h
        have hword : UInt16.ofNat bytes.length = length := by
          rw [hlength, UInt16.ofNat_toNat]
        refine ⟨?_, ?_⟩
        · simpa only [Fits, hlength] using length.toNat_lt
        · simp only [encode, hword, List.cons_append, List.append_assoc]
    case h_2 | h_3 =>
        simp only [bind_eq_ok_iff, pure_eq_ok_iff, u32_eq_ok_iff] at h
        obtain ⟨bits, _, rfl, rfl, rfl⟩ := h
        exact ⟨trivial, rfl⟩
    case h_4 | h_5 =>
        simp only [bind_eq_ok_iff, pure_eq_ok_iff, u64_eq_ok_iff] at h
        obtain ⟨bits, _, rfl, rfl, rfl⟩ := h
        exact ⟨trivial, rfl⟩
    case h_6 | h_7 | h_13 | h_16 | h_17 =>
        obtain ⟨word, rfl, rfl⟩ := return_word_eq_ok_iff.1 h
        exact ⟨trivial, rfl⟩
    case h_8 | h_9 | h_10 | h_11 | h_14 | h_15 =>
        obtain ⟨first, second, rfl, rfl⟩ := return_pair_eq_ok_iff.1 h
        exact ⟨trivial, by simp only [encode, List.cons_append, List.append_assoc]⟩
    case h_12 =>
        simp only [bind_eq_ok_iff, pure_eq_ok_iff, u8_eq_ok_iff, u16_eq_ok_iff] at h
        obtain ⟨kind, _, rfl, target, _, rfl, rfl, rfl⟩ := h
        exact ⟨trivial, rfl⟩
    case h_18 => exact absurd h fail_ne_ok
  · rintro ⟨hfits, rfl⟩
    cases constant with
    | unusable => exact hfits.elim
    | utf8 bytes =>
        refine bind_eq_ok_iff.2 ⟨1, _, u8_eq_ok_iff.2 rfl, ?_⟩
        refine bind_eq_ok_iff.2 ⟨UInt16.ofNat bytes.length, bytes ++ rest, ?_, ?_⟩
        · exact u16_eq_ok_iff.2 (List.append_assoc ..)
        · refine bind_eq_ok_iff.2 ⟨bytes, rest, ?_, rfl⟩
          rw [take_eq_ok_iff, UInt16.toNat_ofNat_of_lt' hfits]
          exact ⟨rfl, rfl⟩
    | integer bits =>
        refine bind_eq_ok_iff.2 ⟨3, be32 bits ++ rest, u8_eq_ok_iff.2 rfl, ?_⟩
        exact bind_eq_ok_iff.2 ⟨bits, rest, u32_eq_ok_iff.2 rfl, rfl⟩
    | float bits =>
        refine bind_eq_ok_iff.2 ⟨4, be32 bits ++ rest, u8_eq_ok_iff.2 rfl, ?_⟩
        exact bind_eq_ok_iff.2 ⟨bits, rest, u32_eq_ok_iff.2 rfl, rfl⟩
    | long bits =>
        refine bind_eq_ok_iff.2 ⟨5, be64 bits ++ rest, u8_eq_ok_iff.2 rfl, ?_⟩
        exact bind_eq_ok_iff.2 ⟨bits, rest, u64_eq_ok_iff.2 rfl, rfl⟩
    | double bits =>
        refine bind_eq_ok_iff.2 ⟨6, be64 bits ++ rest, u8_eq_ok_iff.2 rfl, ?_⟩
        exact bind_eq_ok_iff.2 ⟨bits, rest, u64_eq_ok_iff.2 rfl, rfl⟩
    | methodHandle kind target =>
        refine bind_eq_ok_iff.2 ⟨15, kind :: be16 target ++ rest, u8_eq_ok_iff.2 rfl, ?_⟩
        refine bind_eq_ok_iff.2 ⟨kind, be16 target ++ rest, u8_eq_ok_iff.2 rfl, ?_⟩
        exact bind_eq_ok_iff.2 ⟨target, rest, u16_eq_ok_iff.2 rfl, rfl⟩
    | classRef word | stringRef word | methodType word | moduleRef word | packageRef word =>
        refine bind_eq_ok_iff.2 ⟨_, _, u8_eq_ok_iff.2 rfl, ?_⟩
        exact return_word_eq_ok_iff.2 ⟨word, rfl, rfl⟩
    | fieldRef first second | methodRef first second | interfaceMethodRef first second
    | nameAndType first second | dynamic first second | invokeDynamic first second =>
        refine bind_eq_ok_iff.2 ⟨_, _, u8_eq_ok_iff.2 rfl, ?_⟩
        exact return_pair_eq_ok_iff.2 ⟨first, second, rfl, List.append_assoc ..⟩

/-- The slots that a usable constant fills. -/
def slots (constant : Constant) : List Constant :=
  if constant.isWide then [constant, .unusable] else [constant]

theorem mem_slots_iff {constant other : Constant} :
    other ∈ constant.slots ↔ other = constant ∨ constant.isWide = true ∧ other = .unusable := by
  unfold slots
  split <;> simp_all

theorem length_slots (constant : Constant) : constant.slots.length = constant.width := by
  unfold slots width
  split <;> rfl

theorem encode_slots (constant : Constant) : constant.slots.flatMap encode = constant.encode := by
  unfold slots
  split <;> simp [encode]

theorem flatMap_encode_slots (constants : List Constant) :
    (constants.flatMap slots).flatMap encode = constants.flatMap encode := by
  induction constants with
  | nil => rfl
  | cons constant constants ih => simp [encode_slots, ih]

theorem length_flatMap_slots (constants : List Constant) :
    (constants.flatMap slots).length = total width constants := by
  induction constants with
  | nil => rfl
  | cons constant constants ih => simp [length_slots, ih]

end Constant

namespace Pool

theorem ext_toList {p q : Pool} (h : p.entries.toList = q.entries.toList) : p = q := by
  cases p
  cases q
  simpa using Array.toList_inj.1 h

theorem toList_append (pool : Pool) (constant : Constant) :
    (pool.append constant).entries.toList = pool.entries.toList ++ constant.slots := by
  unfold append Constant.slots
  split <;> simp

/-- Reading some slots is reading one constant and then the slots it leaves. -/
theorem decodeSlots_succ_eq_ok_iff {slots : Nat} {pool found : Pool} {input rest : Bytes} :
    decodeSlots (slots + 1) pool input = .ok (found, rest) ↔
      ∃ constant mid left, Constant.decode pool.size input = .ok (constant, mid) ∧
        constant.width + left = slots + 1 ∧
        decodeSlots left (pool.append constant) mid = .ok (found, rest) := by
  rw [decodeSlots, Decode.bind_eq_ok_iff]
  refine exists_congr fun constant => exists_congr fun mid => ?_
  rw [exists_and_left]
  refine and_congr_right fun _ => ?_
  cases hwide : constant.isWide with
  | true =>
      simp only [hwide, if_true, Constant.width]
      cases slots with
      | zero =>
          constructor
          · intro h
            exact absurd h Decode.fail_ne_ok
          · rintro ⟨left, hleft, -⟩
            omega
      | succ slots =>
          constructor
          · intro h
            exact ⟨slots, by omega, h⟩
          · rintro ⟨left, hleft, h⟩
            obtain rfl : left = slots := by omega
            exact h
  | false =>
      simp only [hwide, Bool.false_eq_true, if_false, Constant.width]
      constructor
      · intro h
        exact ⟨slots, by omega, h⟩
      · rintro ⟨left, hleft, h⟩
        obtain rfl : left = slots := by omega
        exact h

theorem width_pos (constant : Constant) : 0 < constant.width := by
  unfold Constant.width
  split <;> decide

theorem decodeSlots_eq_ok_iff {slots : Nat} {pool found : Pool} {input rest : Bytes} :
    decodeSlots slots pool input = .ok (found, rest) ↔
      ∃ constants : List Constant, (∀ constant ∈ constants, constant.Fits) ∧
        total Constant.width constants = slots ∧
        found.entries.toList = pool.entries.toList ++ constants.flatMap Constant.slots ∧
        input = constants.flatMap Constant.encode ++ rest := by
  induction slots using Nat.strongRecOn generalizing pool input with
  | ind slots ih => ?_
  cases slots with
  | zero =>
      rw [decodeSlots, Decode.pure_eq_ok_iff]
      constructor
      · rintro ⟨rfl, rfl⟩
        exact ⟨[], by simp⟩
      · rintro ⟨constants, -, htotal, hentries, rfl⟩
        cases constants with
        | nil => exact ⟨Pool.ext_toList (by simpa using hentries.symm), rfl⟩
        | cons constant constants =>
            have := width_pos constant
            simp only [total_cons] at htotal
            omega
  | succ slots =>
      rw [decodeSlots_succ_eq_ok_iff]
      constructor
      · rintro ⟨constant, mid, left, hdecode, hleft, h⟩
        have hpos := width_pos constant
        obtain ⟨hconstant, rfl⟩ := (Constant.exact _).eq_ok_iff.1 hdecode
        obtain ⟨constants, hfits, htotal, hentries, rfl⟩ := (ih left (by omega)).1 h
        refine ⟨constant :: constants, ?_, ?_, ?_, ?_⟩
        · intro other hother
          rcases List.mem_cons.1 hother with rfl | hother
          · exact hconstant
          · exact hfits other hother
        · rw [total_cons, htotal, hleft]
        · rw [hentries, toList_append, List.flatMap_cons, List.append_assoc]
        · rw [List.flatMap_cons, List.append_assoc]
      · rintro ⟨constants, hfits, htotal, hentries, rfl⟩
        cases constants with
        | nil => simp at htotal
        | cons constant constants =>
            have hpos := width_pos constant
            have hconstant : constant.Fits := hfits constant List.mem_cons_self
            rw [total_cons] at htotal
            refine ⟨constant, constants.flatMap Constant.encode ++ rest,
              total Constant.width constants, ?_, htotal, ?_⟩
            · rw [(Constant.exact _).eq_ok_iff, List.flatMap_cons, List.append_assoc]
              exact ⟨hconstant, rfl⟩
            · refine (ih _ (by omega)).2 ⟨constants, ?_, rfl, ?_, rfl⟩
              · intro other hother
                exact hfits other (List.mem_cons_of_mem _ hother)
              · rw [hentries, toList_append, List.flatMap_cons, List.append_assoc]

/-- The unusable slot 0 and then the slots of usable constants. -/
def LaidOut (pool : Pool) : Prop :=
  ∃ constants : List Constant, (∀ constant ∈ constants, constant ≠ .unusable) ∧
    pool.entries.toList = .unusable :: constants.flatMap Constant.slots

/-- Every text has fewer bytes than the limit. -/
def TextsBelow (limit : Nat) (pool : Pool) : Prop :=
  ∀ bytes, .utf8 bytes ∈ pool.entries → bytes.length < limit

theorem TextsBelow.mono {limit larger : Nat} {pool : Pool} (h : pool.TextsBelow limit)
    (hle : limit ≤ larger) : pool.TextsBelow larger :=
  fun bytes hbytes => Nat.lt_of_lt_of_le (h bytes hbytes) hle

structure Fits (pool : Pool) : Prop where
  laidOut : pool.LaidOut
  size_le : pool.size ≤ capacity
  texts : pool.TextsBelow (2 ^ 16)

theorem size_eq_length (pool : Pool) : pool.size = pool.entries.toList.length := by
  simp [size]

theorem encode_eq_of_entries {pool : Pool} {constants : List Constant}
    (h : pool.entries.toList = .unusable :: constants.flatMap Constant.slots) :
    pool.encode = be16 (UInt16.ofNat (total Constant.width constants + 1)) ++
      constants.flatMap Constant.encode := by
  rw [encode, size_eq_length, h, List.length_cons, Constant.length_flatMap_slots,
    List.flatMap_cons, Constant.flatMap_encode_slots]
  rfl

theorem fits_of_entries {pool : Pool} {constants : List Constant}
    (h : pool.entries.toList = .unusable :: constants.flatMap Constant.slots)
    (hfits : ∀ constant ∈ constants, constant.Fits)
    (hsize : total Constant.width constants + 1 ≤ capacity) : pool.Fits := by
  refine ⟨⟨constants, ?_, h⟩, ?_, ?_⟩
  · intro constant hconstant heq
    exact (heq ▸ hfits constant hconstant : Constant.Fits .unusable)
  · rwa [size_eq_length, h, List.length_cons, Constant.length_flatMap_slots]
  · intro bytes hbytes
    rw [← Array.mem_toList_iff, h, List.mem_cons, List.mem_flatMap] at hbytes
    rcases hbytes with hbytes | ⟨constant, hconstant, hbytes⟩
    · cases hbytes
    · rcases Constant.mem_slots_iff.1 hbytes with rfl | ⟨-, hbytes⟩
      · exact hfits _ hconstant
      · cases hbytes

theorem Fits.constants {pool : Pool} (h : pool.Fits) :
    ∃ constants : List Constant, (∀ constant ∈ constants, constant.Fits) ∧
      pool.entries.toList = .unusable :: constants.flatMap Constant.slots := by
  obtain ⟨constants, husable, hentries⟩ := h.laidOut
  refine ⟨constants, ?_, hentries⟩
  intro constant hconstant
  have hmem : constant ∈ pool.entries := by
    rw [← Array.mem_toList_iff, hentries]
    refine List.mem_cons_of_mem _ (List.mem_flatMap.2 ⟨constant, hconstant, ?_⟩)
    exact Constant.mem_slots_iff.2 (Or.inl rfl)
  cases constant with
  | unusable => exact husable _ hconstant rfl
  | utf8 bytes => exact h.texts bytes hmem
  | _ => trivial

theorem exact : Decode.Exact decode encode Fits := by
  intro input rest pool
  rw [decode, Decode.bind_eq_ok_iff]
  constructor
  · rintro ⟨count, mid, hcount, h⟩
    rw [Decode.u16_eq_ok_iff] at hcount
    have hlt := count.toNat_lt
    cases hslots : count.toNat with
    | zero =>
        rw [hslots] at h
        exact absurd h Decode.fail_ne_ok
    | succ slots =>
        rw [hslots] at h
        obtain ⟨constants, hfits, htotal, hentries, rfl⟩ := decodeSlots_eq_ok_iff.1 h
        have hall : pool.entries.toList = .unusable :: constants.flatMap Constant.slots := hentries
        refine ⟨fits_of_entries hall hfits ?_, ?_⟩
        · rw [htotal, ← hslots, capacity]
          omega
        · rw [encode_eq_of_entries hall, htotal, ← hslots, UInt16.ofNat_toNat, hcount,
            List.append_assoc]
  · rintro ⟨hfits, rfl⟩
    obtain ⟨constants, hall, hentries⟩ := hfits.constants
    have hsize := hfits.size_le
    rw [size_eq_length, hentries, List.length_cons, Constant.length_flatMap_slots,
      capacity] at hsize
    refine ⟨UInt16.ofNat (total Constant.width constants + 1),
      constants.flatMap Constant.encode ++ rest, ?_, ?_⟩
    · rw [Decode.u16_eq_ok_iff, encode_eq_of_entries hentries, List.append_assoc]
    · rw [UInt16.toNat_ofNat_of_lt' (Nat.lt_succ_of_le hsize)]
      exact decodeSlots_eq_ok_iff.2 ⟨constants, hall, rfl, hentries, rfl⟩

end Pool

end JarTailor
