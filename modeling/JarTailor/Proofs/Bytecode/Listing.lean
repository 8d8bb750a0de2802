import JarTailor.Proofs.Bytecode.Boundaries
import Mathlib

/-!
# Code written as a listing

A listing is a list of instructions by their meaning, none of which says where it stands. Placed one
after another they become code, and `offsets_of_listing` says that the walk over that code finds
each of them again, and what any code that it accepts is made of.
-/

namespace JarTailor.Instruction

/-- Where the instructions of code start. -/
def offsets (code : Bytes) : Except Failure (List Nat) :=
  List.map offset <$> split code

theorem offsets_eq_ok_iff {code : Bytes} {found : List Nat} :
    offsets code = .ok found ↔
      ∃ instructions, LaidOut 0 instructions ∧ instructions.flatMap encode = code ∧
        instructions.map offset = found := by
  rw [offsets, Except.map_eq_ok_iff]
  constructor
  · rintro ⟨instructions, hsplit, rfl⟩
    obtain ⟨hlaid, hcode⟩ := split_eq_ok_iff.1 hsplit
    exact ⟨instructions, hlaid, hcode, rfl⟩
  · rintro ⟨instructions, hlaid, hcode, rfl⟩
    exact ⟨instructions, split_eq_ok_iff.2 ⟨hlaid, hcode⟩, rfl⟩

end JarTailor.Instruction

namespace JarTailor.Assembly

open Instruction

/-- The number of operand bytes, of opcodes that have the same number wherever they stand. -/
inductive Format where
  | none
  | one
  | two
  | three
  | four
deriving DecidableEq

namespace Format

def width : Format → Nat
  | .none => 0
  | .one => 1
  | .two => 2
  | .three => 3
  | .four => 4

/-- The opcodes of a format, as ranges with their last opcodes. -/
def ranges : Format → List (Opcode × Opcode)
  -- Constants, local variables 0 to 3, arrays, the stack, arithmetic and comparisons; returns;
  -- `arraylength` and `athrow`; monitors; the three reserved opcodes.
  | .none => [(0x00, 0x0f), (0x1a, 0x35), (0x3b, 0x83), (0x85, 0x98), (0xac, 0xb1), (0xbe, 0xbf),
      (0xc2, 0xc3), (0xca, 0xca), (0xfe, 0xff)]
  -- `bipush`, `ldc`, loads, stores, `ret` and `newarray`.
  | .one => [(0x10, 0x10), (0x12, 0x12), (0x15, 0x19), (0x36, 0x3a), (0xa9, 0xa9), (0xbc, 0xbc)]
  -- `sipush`, `ldc_w` and `ldc2_w`, `iinc`, branches, fields and the calls without a count, `new`,
  -- `anewarray`, `checkcast` and `instanceof`, branches on null.
  | .two => [(0x11, 0x11), (0x13, 0x14), (0x84, 0x84), (0x99, 0xa8), (0xb2, 0xb8), (0xbb, 0xbb),
      (0xbd, 0xbd), (0xc0, 0xc1), (0xc6, 0xc7)]
  -- `multianewarray`.
  | .three => [(0xc5, 0xc5)]
  -- `invokeinterface` and `invokedynamic`, `goto_w` and `jsr_w`.
  | .four => [(0xb9, 0xba), (0xc8, 0xc9)]

def Has (format : Format) (opcode : Opcode) : Prop :=
  ∃ range ∈ format.ranges, range.1 ≤ opcode ∧ opcode ≤ range.2

instance (format : Format) (opcode : Opcode) : Decidable (format.Has opcode) :=
  inferInstanceAs (Decidable (∃ range ∈ format.ranges, range.1 ≤ opcode ∧ opcode ≤ range.2))

def all : List Format := [.none, .one, .two, .three, .four]

theorem mem_all (format : Format) : format ∈ all := by
  cases format <;> decide

theorem fixedLength?_table : ∀ byte : Fin 256,
    (∀ format ∈ all, format.Has (UInt8.ofNat byte) →
      Opcode.fixedLength? (UInt8.ofNat byte) = some (format.width + 1)) ∧
    ((Opcode.fixedLength? (UInt8.ofNat byte)).isSome →
      ∃ format ∈ all, format.Has (UInt8.ofNat byte)) := by
  decide +kernel

theorem fixedLength?_eq_some {format : Format} {opcode : Opcode} (h : format.Has opcode) :
    opcode.fixedLength? = some (format.width + 1) := by
  have htable := (fixedLength?_table ⟨opcode.toNat, opcode.toNat_lt⟩).1 format (mem_all format)
  rw [UInt8.ofNat_toNat] at htable
  exact htable h

theorem exists_has {opcode : Opcode} {length : Nat} (h : opcode.fixedLength? = some length) :
    ∃ format : Format, format.Has opcode := by
  have htable := (fixedLength?_table ⟨opcode.toNat, opcode.toNat_lt⟩).2
  rw [UInt8.ofNat_toNat, h] at htable
  obtain ⟨format, -, hformat⟩ := htable rfl
  exact ⟨format, hformat⟩

end Format

/-- The opcodes with a wide form: loads, stores and `ret`. -/
def IsWidened (opcode : Opcode) : Prop :=
  0x15 ≤ opcode ∧ opcode ≤ 0x19 ∨ 0x36 ≤ opcode ∧ opcode ≤ 0x3a ∨ opcode = 0xa9

/-- The filler of a switch, of which as much is written as the place asks for. -/
abbrev Filler := Fin 3 → UInt8

/-- The number of filler bytes after the opcode of a switch. -/
def gap (offset : Nat) : Nat :=
  3 - offset % 4

/-- What comes after the filler stands at a multiple of four. -/
theorem dvd_gap (offset : Nat) : 4 ∣ offset + 1 + gap offset := by
  rw [gap]
  omega

theorem gap_le (offset : Nat) : gap offset ≤ 3 :=
  Nat.sub_le _ _

theorem padding_eq (offset : Nat) : padding offset = gap offset := by
  rw [padding, gap]
  omega

/-- An instruction that has no place yet. The number of the pairs of a switch is a signed word. -/
inductive Line where
  | fixed (format : Format) (opcode : Opcode) (operands : Bytes) (hopcode : format.Has opcode)
      (hoperands : operands.length = format.width)
  | tableswitch (filler : Filler) (fallback : UInt32) (low high : Int32) (targets : List UInt32)
      (hbounds : low ≤ high) (htargets : low.toInt + targets.length = high.toInt + 1)
  | lookupswitch (filler : Filler) (fallback : UInt32) (pairs : List (UInt32 × UInt32))
      (hpairs : pairs.length < 2 ^ 31)
  | wide (opcode : Opcode) (slot : UInt16) (hopcode : IsWidened opcode)
  | wideIncrement (slot amount : UInt16)

namespace Line

def opcode : Line → Opcode
  | .fixed _ opcode _ _ _ => opcode
  | .tableswitch .. => Opcode.tableswitch
  | .lookupswitch .. => Opcode.lookupswitch
  | .wide .. => Opcode.wide
  | .wideIncrement .. => Opcode.wide

/-- What the operands of a switch begin with. -/
def switchHead (filler : Filler) (fallback : UInt32) (offset : Nat) : Bytes :=
  (List.ofFn filler).take (gap offset) ++ be32 fallback

/-- The operands at an offset. -/
def operands (offset : Nat) : Line → Bytes
  | .fixed _ _ operands _ _ => operands
  | .tableswitch filler fallback low high targets _ _ =>
      switchHead filler fallback offset ++
        (be32 low.toUInt32 ++ (be32 high.toUInt32 ++ targets.flatMap be32))
  | .lookupswitch filler fallback pairs _ =>
      switchHead filler fallback offset ++ (be32 (UInt32.ofNat pairs.length) ++
        pairs.flatMap fun pair => be32 pair.1 ++ be32 pair.2)
  | .wide opcode slot _ => opcode :: be16 slot
  | .wideIncrement slot amount => Opcode.iinc :: (be16 slot ++ be16 amount)

def place (line : Line) (offset : Nat) : Instruction :=
  ⟨offset, line.opcode, line.operands offset⟩

/-- A signed word holds the number of targets. With more of them an instruction takes over eight
gibibytes. -/
def Countable : Line → Prop
  | .tableswitch _ _ _ _ targets _ _ => targets.length < 2 ^ 31
  | _ => True

end Line

/-- The instructions of a listing one after another, the first at an offset. -/
def placeFrom : Nat → List Line → List Instruction
  | _, [] => []
  | offset, line :: lines =>
      line.place offset :: placeFrom (offset + (line.place offset).length) lines

def encode (lines : List Line) : Bytes :=
  (placeFrom 0 lines).flatMap Instruction.encode

/-- Where the instructions of a listing start. -/
def starts (lines : List Line) : List Nat :=
  (placeFrom 0 lines).map Instruction.offset

def invokedynamic : Opcode := 0xba

/-- The instructions of code start at its first byte, each ends where the next one starts, and the
last ends where the code ends. -/
structure Tiles (code : Bytes) (found : List Nat) : Prop where
  first : found.head? = if code = [] then none else some 0
  increasing : found.Pairwise (· < ·)
  gaps : ∀ {front offset back}, found = front ++ offset :: back →
    ∃ opcode operands length, code.drop offset = opcode :: operands ∧
      lengthAt offset opcode operands = .ok length ∧
      offset + length = back.headD code.length
  calls : ∀ offset ∈ found, ∀ opcode, code[offset]? = some opcode →
    (opcode ∈ [Opcode.invokevirtual, Opcode.invokespecial, Opcode.invokestatic] →
      offset + 3 ≤ code.length) ∧
    (opcode ∈ [Opcode.invokeinterface, invokedynamic] → offset + 5 ≤ code.length)

namespace Line

theorem length_switchHead (filler : Filler) (fallback : UInt32) (offset : Nat) :
    (switchHead filler fallback offset).length = padding offset + 4 := by
  have hgap := gap_le offset
  rw [switchHead, List.length_append, List.length_take, List.length_ofFn, length_be32, padding_eq]
  omega

theorem signedAt_be32 {front : Bytes} {distance : Nat} (hfront : front.length = distance)
    (value : UInt32) (more : Bytes) :
    signedAt distance (front ++ (be32 value ++ more)) = .ok value.toInt32.toInt := by
  subst hfront
  rw [signedAt, List.drop_left]
  show Except.ok (ofBe32 _ _ _ _).toInt32.toInt = _
  rw [ofBe32_be32]

section Switches

variable {filler : Filler} {fallback : UInt32} {low high : Int32} {targets : List UInt32}
  {pairs : List (UInt32 × UInt32)} {offset : Nat}

theorem signedAt_low (more : Bytes) :
    signedAt (padding offset + 4)
      (switchHead filler fallback offset ++ (be32 low.toUInt32 ++ more)) = .ok low.toInt := by
  rw [signedAt_be32 (length_switchHead filler fallback offset), Int32.toInt32_toUInt32]

theorem signedAt_high (more : Bytes) :
    signedAt (padding offset + 8)
      (switchHead filler fallback offset ++
        (be32 low.toUInt32 ++ (be32 high.toUInt32 ++ more))) = .ok high.toInt := by
  have hfront : (switchHead filler fallback offset ++ be32 low.toUInt32).length =
      padding offset + 8 := by
    rw [List.length_append, length_switchHead, length_be32]
  rw [← List.append_assoc, signedAt_be32 hfront, Int32.toInt32_toUInt32]

theorem tableswitchLength_operands (hcount : targets.length < 2 ^ 31)
    (htargets : low.toInt + targets.length = high.toInt + 1) :
    tableswitchLength offset (switchHead filler fallback offset ++
      (be32 low.toUInt32 ++ (be32 high.toUInt32 ++ targets.flatMap be32))) =
        .ok (1 + padding offset + 12 + targets.length * 4) := by
  have hnumber : high.toInt - low.toInt + 1 = targets.length := by omega
  refine tableswitchLength_eq_ok_iff.2 ⟨_, _, signedAt_low _, signedAt_high _, ?_, ?_, ?_⟩
  · omega
  · rw [hnumber, maxSigned]
    omega
  · rw [hnumber, Int.toNat_natCast]

theorem lookupswitchLength_operands (hpairs : pairs.length < 2 ^ 31) (more : Bytes) :
    lookupswitchLength offset (switchHead filler fallback offset ++
      (be32 (UInt32.ofNat pairs.length) ++ more)) =
        .ok (1 + padding offset + 8 + pairs.length * 8) := by
  have hcount : (UInt32.ofNat pairs.length).toInt32.toInt = pairs.length := by
    rw [UInt32.toInt32_ofNat', Int32.toInt_ofNat_of_lt hpairs]
  refine lookupswitchLength_eq_ok_iff.2
    ⟨_, signedAt_be32 (length_switchHead filler fallback offset) _ _, ?_, ?_⟩
  · rw [hcount]
    exact Int.natCast_nonneg _
  · rw [hcount, Int.toNat_natCast]

end Switches

theorem ne_iinc {opcode : Opcode} (h : IsWidened opcode) : opcode ≠ Opcode.iinc := by
  rintro rfl
  revert h
  rw [IsWidened]
  decide

/-- An instruction is as long as its own bytes say. -/
theorem complete_place {line : Line} (hcount : line.Countable) (offset : Nat) :
    (line.place offset).Complete := by
  refine lengthAt_eq_ok_iff.2 ?_
  cases line with
  | fixed format opcode operands hopcode hoperands =>
      refine Or.inl ((Format.fixedLength?_eq_some hopcode).trans ?_)
      rw [← hoperands]
      rfl
  | tableswitch filler fallback low high targets hbounds htargets =>
      refine Or.inr (Or.inl ⟨rfl, (tableswitchLength_operands hcount htargets).trans ?_⟩)
      rw [Instruction.length]
      simp only [place, operands, List.length_append, length_switchHead, length_be32,
        length_flatMap_of_width length_be32]
      congr 1
      omega
  | lookupswitch filler fallback pairs hpairs =>
      refine Or.inr (Or.inr (Or.inl ⟨rfl, (lookupswitchLength_operands hpairs _).trans ?_⟩))
      rw [Instruction.length]
      have hwidth (pair : UInt32 × UInt32) : (be32 pair.1 ++ be32 pair.2).length = 8 := rfl
      simp only [place, operands, List.length_append, length_switchHead, length_be32,
        length_flatMap_of_width hwidth]
      congr 1
      omega
  | wide opcode slot hopcode =>
      refine Or.inr (Or.inr (Or.inr ⟨rfl, wideLength_eq_ok_iff.2 ⟨opcode, _, rfl, ?_⟩⟩))
      rw [if_neg (ne_iinc hopcode)]
      rfl
  | wideIncrement slot amount =>
      exact Or.inr (Or.inr (Or.inr ⟨rfl, wideLength_eq_ok_iff.2 ⟨Opcode.iinc, _, rfl, rfl⟩⟩))

/-- The walk gets past no switch with more targets than it can count. -/
theorem countable_of_lengthAt {line : Line} {offset length : Nat} {more : Bytes}
    (h : lengthAt offset line.opcode (line.operands offset ++ more) = .ok length) :
    line.Countable := by
  cases line with
  | tableswitch filler fallback low high targets hbounds htargets =>
      rcases lengthAt_eq_ok_iff.1 h with h | ⟨-, h⟩ | ⟨h, -⟩ | ⟨h, -⟩
      · cases h
      · obtain ⟨first, last, hfirst, hlast, -, hcount, -⟩ := tableswitchLength_eq_ok_iff.1 h
        simp only [operands, List.append_assoc] at hfirst hlast
        obtain rfl := Except.ok.inj ((signedAt_low _).symm.trans hfirst)
        obtain rfl := Except.ok.inj ((signedAt_high _).symm.trans hlast)
        rw [maxSigned] at hcount
        show targets.length < 2 ^ 31
        omega
      · exact absurd h (show Opcode.tableswitch ≠ Opcode.lookupswitch by decide)
      · exact absurd h (show Opcode.tableswitch ≠ Opcode.wide by decide)
  | fixed => exact trivial
  | lookupswitch => exact trivial
  | wide => exact trivial
  | wideIncrement => exact trivial

theorem countable_of_length {line : Line} {offset : Nat}
    (h : (line.place offset).length < 2 ^ 32) : line.Countable := by
  cases line with
  | tableswitch filler fallback low high targets hbounds htargets =>
      rw [Instruction.length] at h
      simp only [place, operands, List.length_append, length_flatMap_of_width length_be32] at h
      show targets.length < 2 ^ 31
      omega
  | fixed => exact trivial
  | lookupswitch => exact trivial
  | wide => exact trivial
  | wideIncrement => exact trivial

/-- No opcode that the walk gets past is missing. -/
theorem exists_of_lengthAt {opcode : Opcode} {offset length : Nat} {operands : Bytes}
    (h : lengthAt offset opcode operands = .ok length) : ∃ line : Line, line.opcode = opcode := by
  rcases lengthAt_eq_ok_iff.1 h with h | ⟨rfl, -⟩ | ⟨rfl, -⟩ | ⟨rfl, -⟩
  · obtain ⟨format, hformat⟩ := Format.exists_has h
    exact ⟨.fixed format opcode _ hformat (List.length_replicate (n := format.width) (a := 0)), rfl⟩
  · exact ⟨.tableswitch (fun _ => 0) 0 0 0 [0] (by decide) (by decide), rfl⟩
  · exact ⟨.lookupswitch (fun _ => 0) 0 [] (by decide), rfl⟩
  · exact ⟨.wideIncrement 0 0, rfl⟩

end Line

section Listing

variable {lines : List Line}

theorem laidOut_placeFrom (h : ∀ line ∈ lines, line.Countable) (offset : Nat) :
    LaidOut offset (placeFrom offset lines) := by
  induction lines generalizing offset with
  | nil => exact .nil offset
  | cons line lines ih =>
      obtain ⟨hline, hlines⟩ := List.forall_mem_cons.1 h
      exact .cons (Line.complete_place hline offset) (ih hlines _)

theorem countable_of_laidOut {offset : Nat} {instructions : List Instruction}
    (hlaid : LaidOut offset instructions)
    (hcode : instructions.flatMap Instruction.encode =
      (placeFrom offset lines).flatMap Instruction.encode) :
    ∀ line ∈ lines, line.Countable := by
  induction lines generalizing offset instructions with
  | nil => exact fun _ h => absurd h List.not_mem_nil
  | cons line lines ih =>
      cases hlaid with
      | nil => cases hcode
      | @cons first others hcomplete hothers =>
          obtain ⟨offset, opcode, operands⟩ := first
          rw [placeFrom, List.flatMap_cons, List.flatMap_cons, Instruction.encode,
            Instruction.encode, List.cons_append, List.cons_append] at hcode
          obtain ⟨rfl, hbytes⟩ : opcode = line.opcode ∧ operands ++ _ = line.operands offset ++ _ :=
            List.cons.inj hcode
          have hlength := lengthAt_append hcomplete (others.flatMap Instruction.encode)
          simp only at hlength hbytes hothers
          rw [hbytes] at hlength
          have hcount : line.Countable := Line.countable_of_lengthAt hlength
          have hsame : (⟨offset, line.opcode, operands⟩ : Instruction).length =
              (line.place offset).length :=
            Except.ok.inj (hlength.symm.trans
              (lengthAt_append (Line.complete_place hcount offset) _))
          have hrest : others.flatMap Instruction.encode =
              (placeFrom (offset + (line.place offset).length) lines).flatMap
                Instruction.encode :=
            (List.append_inj hbytes (Nat.succ.inj hsame)).2
          rw [hsame] at hothers
          exact List.forall_mem_cons.2 ⟨hcount, ih hothers hrest⟩

theorem countable_of_length_encode {offset : Nat}
    (h : ((placeFrom offset lines).flatMap Instruction.encode).length < 2 ^ 32) :
    ∀ line ∈ lines, line.Countable := by
  induction lines generalizing offset with
  | nil => exact fun _ h => absurd h List.not_mem_nil
  | cons line lines ih =>
      rw [placeFrom, List.flatMap_cons, List.length_append, Instruction.encode,
        List.length_cons] at h
      have hline : (line.place offset).length < 2 ^ 32 := by
        rw [Instruction.length]
        omega
      have hlines : ((placeFrom (offset + (line.place offset).length) lines).flatMap
          Instruction.encode).length < 2 ^ 32 :=
        Nat.lt_of_le_of_lt (Nat.le_add_left _ _) h
      exact List.forall_mem_cons.2 ⟨Line.countable_of_length hline, ih hlines⟩

theorem offsets_encode_iff :
    offsets (encode lines) = .ok (starts lines) ↔ ∀ line ∈ lines, line.Countable := by
  rw [offsets_eq_ok_iff]
  constructor
  · rintro ⟨instructions, hlaid, hcode, -⟩
    exact countable_of_laidOut hlaid hcode
  · intro h
    exact ⟨placeFrom 0 lines, laidOut_placeFrom h 0, rfl, rfl⟩

end Listing

section Tiling

variable {start : Nat} {instructions : List Instruction}

theorem le_offset (h : LaidOut start instructions) :
    ∀ instruction ∈ instructions, start ≤ instruction.offset := by
  induction h with
  | nil offset => exact fun _ h => absurd h List.not_mem_nil
  | @cons first others hcomplete hothers ih =>
      refine List.forall_mem_cons.2 ⟨Nat.le_refl _, fun instruction hinstruction => ?_⟩
      exact Nat.le_trans (Nat.le_add_right _ _) (ih instruction hinstruction)

theorem pairwise_offset (h : LaidOut start instructions) :
    (instructions.map Instruction.offset).Pairwise (· < ·) := by
  induction h with
  | nil offset => exact .nil
  | @cons first others hcomplete hothers ih =>
      refine List.pairwise_cons.2 ⟨List.forall_mem_map.2 fun instruction hinstruction => ?_, ih⟩
      have hle := le_offset hothers instruction hinstruction
      rw [Instruction.length] at hle
      omega

/-- What follows an instruction starts where that instruction ends. -/
theorem headD_offset (h : LaidOut start instructions) :
    (instructions.map Instruction.offset).headD
      (start + (instructions.flatMap Instruction.encode).length) = start := by
  cases h <;> rfl

theorem laidOut_append_cons {front back : List Instruction} {instruction : Instruction}
    (h : LaidOut start (front ++ instruction :: back)) :
    instruction.offset = start + (front.flatMap Instruction.encode).length ∧
      instruction.Complete ∧ LaidOut (instruction.offset + instruction.length) back := by
  induction front generalizing start with
  | nil =>
      cases h with
      | cons hcomplete hothers => exact ⟨rfl, hcomplete, hothers⟩
  | cons first front ih =>
      rw [List.cons_append] at h
      cases h with
      | cons hcomplete hothers =>
          obtain ⟨hoffset, hrest⟩ := ih hothers
          refine ⟨?_, hrest⟩
          rw [hoffset, List.flatMap_cons, List.length_append, Nat.add_assoc]
          rfl

theorem gaps_of_laidOut (h : LaidOut 0 instructions) {front back : List Nat} {offset : Nat}
    (hfound : instructions.map Instruction.offset = front ++ offset :: back) :
    ∃ opcode operands length,
      (instructions.flatMap Instruction.encode).drop offset = opcode :: operands ∧
      lengthAt offset opcode operands = .ok length ∧
      offset + length = back.headD (instructions.flatMap Instruction.encode).length := by
  obtain ⟨before, others, rfl, rfl, hothers⟩ := List.map_eq_append_iff.1 hfound
  obtain ⟨instruction, after, rfl, rfl, rfl⟩ := List.map_eq_cons_iff.1 hothers
  obtain ⟨hoffset, hcomplete, hafter⟩ := laidOut_append_cons h
  rw [Nat.zero_add] at hoffset
  refine ⟨instruction.opcode, instruction.operands ++ after.flatMap Instruction.encode,
    instruction.length, ?_, lengthAt_append hcomplete _, ?_⟩
  · rw [List.flatMap_append, hoffset, List.drop_left, List.flatMap_cons]
    rfl
  · have hend : ((before ++ instruction :: after).flatMap Instruction.encode).length =
        instruction.offset + instruction.length +
          (after.flatMap Instruction.encode).length := by
      rw [List.flatMap_append, List.length_append, List.flatMap_cons, List.length_append, hoffset,
        Nat.add_assoc]
      rfl
    rw [hend, headD_offset hafter]

theorem headD_le_length (h : LaidOut 0 instructions) {front back : List Nat} {offset : Nat}
    (hfound : instructions.map Instruction.offset = front ++ offset :: back) :
    back.headD (instructions.flatMap Instruction.encode).length ≤
      (instructions.flatMap Instruction.encode).length := by
  cases back with
  | nil => exact Nat.le_refl _
  | cons next back =>
      rw [← List.singleton_append, ← List.append_assoc] at hfound
      obtain ⟨opcode, operands, length, hdrop, -⟩ := gaps_of_laidOut h hfound
      refine Nat.le_of_not_lt fun (hlt : _ < next) => ?_
      rw [List.drop_eq_nil_of_le (Nat.le_of_lt hlt)] at hdrop
      cases hdrop

theorem add_width_le_length (h : LaidOut 0 instructions) {offset width : Nat} {opcode : Opcode}
    (hoffset : offset ∈ instructions.map Instruction.offset)
    (hopcode : (instructions.flatMap Instruction.encode)[offset]? = some opcode)
    (hwidth : opcode.fixedLength? = some width) :
    offset + width ≤ (instructions.flatMap Instruction.encode).length := by
  obtain ⟨front, back, hfound⟩ := List.append_of_mem hoffset
  obtain ⟨own, operands, length, hdrop, hlength, hend⟩ := gaps_of_laidOut h hfound
  have hown := congrArg List.head? hdrop
  rw [List.head?_drop, hopcode] at hown
  obtain rfl : opcode = own := Option.some.inj hown
  rw [lengthAt, hwidth] at hlength
  obtain rfl : width = length := Except.ok.inj hlength
  rw [hend]
  exact headD_le_length h hfound

theorem tiles_of_laidOut (h : LaidOut 0 instructions) :
    Tiles (instructions.flatMap Instruction.encode) (instructions.map Instruction.offset) where
  first := by
    cases instructions with
    | nil => rfl
    | cons first others =>
        have hfirst : LaidOut 0 ([] ++ first :: others) := h
        obtain ⟨hoffset, -⟩ := laidOut_append_cons hfirst
        rw [List.map_cons, List.head?_cons, hoffset]
        rfl
  increasing := pairwise_offset h
  gaps := gaps_of_laidOut h
  calls offset hoffset opcode hopcode := by
    have hinside {width : Nat} (hwidth : Opcode.fixedLength? opcode = some width) :
        offset + width ≤ (instructions.flatMap Instruction.encode).length :=
      add_width_le_length h hoffset hopcode hwidth
    constructor
    · intro hcall
      refine hinside ?_
      simp only [List.mem_cons, List.not_mem_nil, or_false] at hcall
      rcases hcall with rfl | rfl | rfl <;> rfl
    · intro hcall
      refine hinside ?_
      simp only [List.mem_cons, List.not_mem_nil, or_false] at hcall
      rcases hcall with rfl | rfl <;> rfl

theorem tiles_of_offsets {code : Bytes} {found : List Nat} (h : offsets code = .ok found) :
    Tiles code found := by
  obtain ⟨instructions, hlaid, rfl, rfl⟩ := offsets_eq_ok_iff.1 h
  exact tiles_of_laidOut hlaid

end Tiling

/-- The walk recovers the instructions of every listing. The length of code is a 32-bit number, and
any listing of such a length is recovered; longer ones are as long as no switch has more targets
than a signed word counts. There is a line for every opcode with which the walk can go on. The other
way round, whatever the walk accepts is made of instructions that touch each other from the first
byte to the last. -/
theorem offsets_of_listing :
    (∀ lines : List Line, (encode lines).length < 2 ^ 32 →
      offsets (encode lines) = .ok (starts lines)) ∧
    (∀ lines : List Line,
      offsets (encode lines) = .ok (starts lines) ↔ ∀ line ∈ lines, line.Countable) ∧
    (∀ opcode offset operands length, lengthAt offset opcode operands = .ok length →
      ∃ line : Line, line.opcode = opcode) ∧
    ∀ code found, offsets code = .ok found → Tiles code found := by
  refine ⟨fun lines hlength => ?_, fun lines => offsets_encode_iff, ?_, ?_⟩
  · exact offsets_encode_iff.2 (countable_of_length_encode hlength)
  · exact fun _ _ _ _ => Line.exists_of_lengthAt
  · exact fun _ _ => tiles_of_offsets

/-- A switch at offset 1, a wide increment, a call and a return. -/
def listingWithSwitch : List Line :=
  [.fixed .none Opcode.iconst0 [] (by decide) rfl,
    .tableswitch (fun _ => 0xff) 0x23 (-1) 1 [0x23, 0x23, 0x23] (by decide) (by decide),
    .wideIncrement 0x100 0xffff,
    .fixed .two Opcode.invokestatic [0x00, 0x07] (by decide) rfl,
    .fixed .none Opcode.returnVoid [] (by decide) rfl]

theorem offsets_of_listing_withSwitch :
    (encode listingWithSwitch).length = 38 ∧
      offsets (encode listingWithSwitch) = .ok [0, 1, 28, 34, 37] ∧
      Tiles (encode listingWithSwitch) [0, 1, 28, 34, 37] := by
  have hlength : (encode listingWithSwitch).length = 38 := by decide
  have hoffsets : offsets (encode listingWithSwitch) = .ok [0, 1, 28, 34, 37] :=
    offsets_of_listing.1 listingWithSwitch (by rw [hlength]; decide)
  exact ⟨hlength, hoffsets, offsets_of_listing.2.2.2 _ _ hoffsets⟩

end JarTailor.Assembly
