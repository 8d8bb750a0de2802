import JarTailor.Bytecode.Instruction

/-!
# Instruction boundaries

How long an instruction is depends on where it stands and on its own bytes, never on what follows.
So code is cut into instructions in one way only, `splitFrom_eq_ok_iff`, and instructions that are
written one after another are found again.
-/

namespace JarTailor.Instruction

/-- An instruction has as many operand bytes as it needs at its offset. -/
def Complete (instruction : Instruction) : Prop :=
  lengthAt instruction.offset instruction.opcode instruction.operands = .ok instruction.length

/-- Complete instructions one after another, the first at an offset. -/
inductive LaidOut : Nat → List Instruction → Prop
  | nil (offset : Nat) : LaidOut offset []
  | cons {instruction : Instruction} {others : List Instruction} (hcomplete : instruction.Complete)
      (hothers : LaidOut (instruction.offset + instruction.length) others) :
      LaidOut instruction.offset (instruction :: others)

section Length

variable {offset length : Nat} {opcode : Opcode} {operands : Bytes}

theorem signedAt_append {distance : Nat} {value : Int} (h : signedAt distance operands = .ok value)
    (more : Bytes) : signedAt distance (operands ++ more) = .ok value := by
  unfold signedAt at h
  split at h
  · next a b c d rest hdrop =>
      cases h
      have hle : distance ≤ operands.length := by
        refine Nat.le_of_not_lt fun hlt => ?_
        rw [List.drop_eq_nil_of_le (Nat.le_of_lt hlt)] at hdrop
        cases hdrop
      rw [signedAt, List.drop_append_of_le_length hle, hdrop]
      rfl
  · cases h

theorem signedAt_take {distance count : Nat} (h : distance + 4 ≤ count) :
    signedAt distance (operands.take count) = signedAt distance operands := by
  obtain ⟨more, rfl⟩ := Nat.exists_eq_add_of_le h
  rw [signedAt, signedAt, List.drop_take, show distance + 4 + more - distance = more + 4 by omega]
  rcases operands.drop distance with _ | ⟨a, _ | ⟨b, _ | ⟨c, _ | ⟨d, rest⟩⟩⟩⟩ <;> rfl

theorem tableswitchLength_eq_ok_iff :
    tableswitchLength offset operands = .ok length ↔
      ∃ low high, signedAt (padding offset + 4) operands = .ok low ∧
        signedAt (padding offset + 8) operands = .ok high ∧
        0 ≤ high - low + 1 ∧ high - low + 1 ≤ maxSigned ∧
        length = 1 + padding offset + 12 + (high - low + 1).toNat * 4 := by
  rw [tableswitchLength, Except.bind_eq_ok_iff]
  constructor
  · rintro ⟨low, hlow, h⟩
    obtain ⟨high, hhigh, h⟩ := Except.bind_eq_ok_iff.1 h
    simp only at h
    split at h
    · next hcount =>
        rw [Bool.and_eq_true, decide_eq_true_iff, decide_eq_true_iff] at hcount
        exact ⟨low, high, hlow, hhigh, hcount.1, hcount.2, (Except.ok.inj h).symm⟩
    · cases h
  · rintro ⟨low, high, hlow, hhigh, hpositive, hbound, rfl⟩
    refine ⟨low, hlow, Except.bind_eq_ok_iff.2 ⟨high, hhigh, if_pos ?_⟩⟩
    rw [Bool.and_eq_true, decide_eq_true_iff, decide_eq_true_iff]
    exact ⟨hpositive, hbound⟩

theorem lookupswitchLength_eq_ok_iff :
    lookupswitchLength offset operands = .ok length ↔
      ∃ count, signedAt (padding offset + 4) operands = .ok count ∧ 0 ≤ count ∧
        length = 1 + padding offset + 8 + count.toNat * 8 := by
  rw [lookupswitchLength, Except.bind_eq_ok_iff]
  constructor
  · rintro ⟨count, hcount, h⟩
    split at h
    · next hpositive => exact ⟨count, hcount, hpositive, (Except.ok.inj h).symm⟩
    · cases h
  · rintro ⟨count, hcount, hpositive, rfl⟩
    exact ⟨count, hcount, if_pos hpositive⟩

theorem wideLength_eq_ok_iff :
    wideLength operands = .ok length ↔
      ∃ widened rest, operands = widened :: rest ∧
        length = if widened = Opcode.iinc then 6 else 4 := by
  cases operands with
  | nil => exact iff_of_false nofun fun ⟨_, _, h, _⟩ => nomatch h
  | cons widened rest =>
      constructor
      · intro h
        exact ⟨widened, rest, rfl, (Except.ok.inj h).symm⟩
      · rintro ⟨_, _, ⟨⟩, rfl⟩
        rfl

/-- The opcode alone decides on the length of most instructions; three look at their operands. -/
theorem lengthAt_eq_ok_iff : lengthAt offset opcode operands = .ok length ↔
    opcode.fixedLength? = some length ∨
      opcode = Opcode.tableswitch ∧ tableswitchLength offset operands = .ok length ∨
      opcode = Opcode.lookupswitch ∧ lookupswitchLength offset operands = .ok length ∨
      opcode = Opcode.wide ∧ wideLength operands = .ok length := by
  rw [lengthAt]
  cases hfixed : opcode.fixedLength? with
  | some fixed =>
      have hne : ∀ other : Opcode, other.fixedLength? = none → opcode ≠ other := by
        rintro other hother rfl
        rw [hfixed] at hother
        cases hother
      simp [hne Opcode.tableswitch rfl, hne Opcode.lookupswitch rfl, hne Opcode.wide rfl, pure,
        Except.pure]
  | none =>
      simp only [reduceCtorEq, false_or]
      by_cases htable : opcode = Opcode.tableswitch
      · subst htable
        simp [show Opcode.tableswitch ≠ Opcode.lookupswitch by decide,
          show Opcode.tableswitch ≠ Opcode.wide by decide]
      · by_cases hlookup : opcode = Opcode.lookupswitch
        · subst hlookup
          simp [show Opcode.lookupswitch ≠ Opcode.tableswitch by decide,
            show Opcode.lookupswitch ≠ Opcode.wide by decide]
        · by_cases hwide : opcode = Opcode.wide
          · subst hwide
            simp [show Opcode.wide ≠ Opcode.tableswitch by decide,
              show Opcode.wide ≠ Opcode.lookupswitch by decide]
          · simp [htable, hlookup, hwide]

/-- More bytes after an instruction do not make it longer. -/
theorem lengthAt_append (h : lengthAt offset opcode operands = .ok length) (more : Bytes) :
    lengthAt offset opcode (operands ++ more) = .ok length := by
  rw [lengthAt_eq_ok_iff] at h ⊢
  rcases h with h | ⟨rfl, h⟩ | ⟨rfl, h⟩ | ⟨rfl, h⟩
  · exact Or.inl h
  · refine Or.inr (Or.inl ⟨rfl, ?_⟩)
    obtain ⟨low, high, hlow, hhigh, hcount⟩ := tableswitchLength_eq_ok_iff.1 h
    exact tableswitchLength_eq_ok_iff.2
      ⟨low, high, signedAt_append hlow more, signedAt_append hhigh more, hcount⟩
  · refine Or.inr (Or.inr (Or.inl ⟨rfl, ?_⟩))
    obtain ⟨count, hcount, hlength⟩ := lookupswitchLength_eq_ok_iff.1 h
    exact lookupswitchLength_eq_ok_iff.2 ⟨count, signedAt_append hcount more, hlength⟩
  · refine Or.inr (Or.inr (Or.inr ⟨rfl, ?_⟩))
    obtain ⟨widened, rest, rfl, hlength⟩ := wideLength_eq_ok_iff.1 h
    exact wideLength_eq_ok_iff.2 ⟨widened, rest ++ more, rfl, hlength⟩

/-- The bytes after an instruction do not count. -/
theorem lengthAt_take {count : Nat} (h : lengthAt offset opcode operands = .ok length)
    (hcount : length ≤ count + 1) : lengthAt offset opcode (operands.take count) = .ok length := by
  rw [lengthAt_eq_ok_iff] at h ⊢
  rcases h with h | ⟨rfl, h⟩ | ⟨rfl, h⟩ | ⟨rfl, h⟩
  · exact Or.inl h
  · refine Or.inr (Or.inl ⟨rfl, ?_⟩)
    obtain ⟨low, high, hlow, hhigh, hpositive, hbound, hlength⟩ := tableswitchLength_eq_ok_iff.1 h
    refine tableswitchLength_eq_ok_iff.2 ⟨low, high, ?_, ?_, hpositive, hbound, hlength⟩
    · rwa [signedAt_take (by omega)]
    · rwa [signedAt_take (by omega)]
  · refine Or.inr (Or.inr (Or.inl ⟨rfl, ?_⟩))
    obtain ⟨pairs, hpairs, hpositive, hlength⟩ := lookupswitchLength_eq_ok_iff.1 h
    refine lookupswitchLength_eq_ok_iff.2 ⟨pairs, ?_, hpositive, hlength⟩
    rwa [signedAt_take (by omega)]
  · refine Or.inr (Or.inr (Or.inr ⟨rfl, ?_⟩))
    obtain ⟨widened, rest, rfl, hlength⟩ := wideLength_eq_ok_iff.1 h
    have hlong : 4 ≤ length := by
      rw [hlength]
      split <;> omega
    obtain ⟨count, rfl⟩ : ∃ less, count = less + 1 := ⟨count - 1, by omega⟩
    exact wideLength_eq_ok_iff.2 ⟨widened, rest.take count, rfl, hlength⟩

end Length

/-- Code is cut into the instructions that it is made of, which are complete where they stand. -/
theorem splitFrom_eq_ok_iff {offset : Nat} {code : Bytes} {instructions : List Instruction} :
    splitFrom offset code = .ok instructions ↔
      LaidOut offset instructions ∧ instructions.flatMap encode = code := by
  constructor
  · intro h
    refine ⟨?_, encode_splitFrom h⟩
    fun_induction splitFrom offset code generalizing instructions with
    | case1 offset =>
        cases h
        exact .nil offset
    | case2 offset opcode operands ih =>
        obtain ⟨length, hlength, h⟩ := Except.bind_eq_ok_iff.1 h
        simp only at h
        split at h
        · next hown =>
            obtain ⟨others, hothers, hdone⟩ := Except.bind_eq_ok_iff.1 h
            cases hdone
            have hlong : (⟨offset, opcode, operands.take (length - 1)⟩ : Instruction).length =
                length := hown
            refine @LaidOut.cons ⟨offset, opcode, _⟩ _ ?_ ?_
            · rw [Complete, hlong]
              exact lengthAt_take hlength (by omega)
            · rw [hlong]
              exact ih _ hothers
        · cases h
  · rintro ⟨hlaid, rfl⟩
    induction hlaid with
    | nil offset => rw [List.flatMap_nil, splitFrom]; rfl
    | @cons instruction others hcomplete hothers ih =>
        rw [List.flatMap_cons, encode, List.cons_append, splitFrom]
        have hlength := lengthAt_append hcomplete (others.flatMap encode)
        have htake : (instruction.operands ++ others.flatMap encode).take (instruction.length - 1) =
            instruction.operands := by
          rw [length, Nat.add_sub_cancel, List.take_left']
          rfl
        have hdrop : (instruction.operands ++ others.flatMap encode).drop (instruction.length - 1) =
            others.flatMap encode := by
          rw [length, Nat.add_sub_cancel, List.drop_left']
          rfl
        refine Except.bind_eq_ok_iff.2 ⟨_, hlength, ?_⟩
        simp only [htake, hdrop]
        rw [if_pos (show instruction.operands.length + 1 = instruction.length from rfl), ih]
        rfl

theorem LaidOut.append {offset : Nat} {front back : List Instruction} (hfront : LaidOut offset front)
    (hback : LaidOut (offset + (front.flatMap encode).length) back) :
    LaidOut offset (front ++ back) := by
  induction hfront with
  | nil offset => exact hback
  | cons hcomplete hothers ih =>
      rw [List.flatMap_cons, List.length_append, ← Nat.add_assoc] at hback
      exact .cons hcomplete (ih hback)

theorem LaidOut.complete {offset : Nat} {instructions : List Instruction}
    (h : LaidOut offset instructions) : ∀ instruction ∈ instructions, instruction.Complete := by
  induction h with
  | nil offset => exact fun _ h => absurd h List.not_mem_nil
  | cons hcomplete hothers ih => exact List.forall_mem_cons.2 ⟨hcomplete, ih⟩

theorem split_eq_ok_iff {code : Bytes} {instructions : List Instruction} :
    split code = .ok instructions ↔
      LaidOut 0 instructions ∧ instructions.flatMap encode = code :=
  splitFrom_eq_ok_iff

end JarTailor.Instruction
