import JarTailor.Proofs.Edit.Calls
import Mathlib

/-!
# Redirecting keeps the layout of code

Code is as long after redirecting as before. Only redirected calls have other bytes, and where an
instruction started before, one starts after. So the targets of branches and switches and the
borders of exception handlers stay what they were.
-/

namespace JarTailor.Redirect

/-- Where the instructions start that an instruction becomes. -/
def starts (rules : List RedirectRule) (caller : String) (pool : Pool) (call : Instruction) :
    List Nat :=
  if IsSent rules caller pool call ∧ call.opcode = Opcode.invokeinterface then
    [call.offset, call.offset + 3, call.offset + 4]
  else [call.offset]

/-- A body differs from another in calls that are redirected, and not in its layout. -/
structure SameLayout (rules : List RedirectRule) (caller : String) (pool : Pool) (body : Code)
    (calls : List Instruction) (body' : Code) (changed : List Instruction) : Prop where
  others : body' = { body with code := body'.code }
  length : body'.code.length = body.code.length
  bytes : ∀ position, body'.code[position]? ≠ body.code[position]? →
    ∃ call ∈ calls, IsSent rules caller pool call ∧ call.offset ≤ position ∧
      position < call.offset + if call.opcode = Opcode.invokeinterface then 5 else 3
  offsets : changed.map Instruction.offset = calls.flatMap (starts rules caller pool)
  starts : ∀ call ∈ calls, call.offset ∈ changed.map Instruction.offset

section Layout

variable {rules : List RedirectRule} {caller : String} {pool : Pool} {call : Instruction}
variable {calls new : List Instruction} {news : List (List Instruction)}

theorem Becomes.offsets (h : Becomes rules caller pool call new) :
    new.map Instruction.offset = starts rules caller pool call := by
  cases h with
  | kept hkept hnamed => rw [starts, if_neg fun hsent => hkept hsent.1]; rfl
  | @sent callee method rule index hcallee hsends hmethod hindex =>
      have hsent : IsSent rules caller pool call := ⟨callee, rule, hcallee, hsends⟩
      rw [starts, fillers]
      by_cases hinterface : call.opcode = Opcode.invokeinterface
      · rw [if_pos hinterface, if_pos ⟨hsent, hinterface⟩]
        rfl
      · rw [if_neg hinterface, if_neg fun h => hinterface h.2]
        rfl

theorem offsets_flatten (h : List.Forall₂ (Becomes rules caller pool) calls news) :
    news.flatten.map Instruction.offset = calls.flatMap (starts rules caller pool) := by
  induction h with
  | nil => rfl
  | cons hbecomes hothers ih =>
      rw [List.flatten_cons, List.map_append, List.flatMap_cons, ih, hbecomes.offsets]

/-- Other bytes stand inside redirected calls only. -/
theorem exists_sent_of_ne {offset position : Nat}
    (h : List.Forall₂ (Becomes rules caller pool) calls news)
    (hlaid : Instruction.LaidOut offset calls)
    (hne : (news.flatten.flatMap Instruction.encode)[position]? ≠
      (calls.flatMap Instruction.encode)[position]?) :
    ∃ call ∈ calls, IsSent rules caller pool call ∧ call.offset ≤ offset + position ∧
      offset + position < call.offset + call.length := by
  induction h generalizing offset position with
  | nil => exact absurd rfl hne
  | @cons call new calls news hbecomes hothers ih =>
      cases hlaid with
      | cons hcomplete hlaid =>
          have hlength := hbecomes.length hcomplete
          have hown : call.encode.length = call.length := rfl
          rw [List.flatten_cons, List.flatMap_append, List.flatMap_cons, List.getElem?_append,
            List.getElem?_append, hlength, hown] at hne
          by_cases hinside : position < call.length
          · rw [if_pos hinside, if_pos hinside] at hne
            refine ⟨call, List.mem_cons_self, ?_, Nat.le_add_right _ _, by omega⟩
            cases hbecomes with
            | kept hkept hnamed => exact absurd (by simp) hne
            | sent hcallee hsends hmethod hindex => exact ⟨_, _, hcallee, hsends⟩
          · rw [if_neg hinside, if_neg hinside] at hne
            obtain ⟨found, hfound, hsent, hle, hlt⟩ := ih hlaid hne
            exact ⟨found, List.mem_cons_of_mem _ hfound, hsent, by omega, by omega⟩

theorem sameLayout_of_becomes {body : Code} (hsplit : Instruction.split body.code = .ok calls)
    (h : List.Forall₂ (Becomes rules caller pool) calls news) :
    SameLayout rules caller pool body calls
      { body with code := news.flatten.flatMap Instruction.encode } news.flatten := by
  obtain ⟨hlaid, hencode⟩ := Instruction.split_eq_ok_iff.1 hsplit
  have hoffsets := offsets_flatten h
  refine ⟨rfl, ?_, fun position hne => ?_, hoffsets, fun call hcall => ?_⟩
  · rw [length_flatten h hlaid.complete, hencode]
  · rw [← hencode] at hne
    obtain ⟨call, hcall, hsent, hle, hlt⟩ := exists_sent_of_ne h hlaid hne
    have hlength : call.length = if call.opcode = Opcode.invokeinterface then 5 else 3 := by
      obtain ⟨callee, rule, hcallee, -⟩ := hsent
      exact length_of_isCall (hlaid.complete call hcall) (callee?_eq_some_iff.1 hcallee).1
    rw [Nat.zero_add] at hle hlt
    exact ⟨call, hcall, hsent, hle, hlength ▸ hlt⟩
  · rw [hoffsets]
    refine List.mem_flatMap.2 ⟨call, hcall, ?_⟩
    rw [starts]
    split <;> exact List.mem_cons_self

/-- Redirecting calls keeps the layout of every body: everything but the code, the length of the
code, every byte outside of redirected calls, and every start of an instruction. -/
theorem sameLayout_of_apply {before after : ClassFile} {references : References} {count : Nat}
    (hreferences : References.ofClass before = .ok references)
    (hsize : before.pool.size ≤ Pool.capacity) (hrules : rules ≠ [])
    (h : (apply rules before).result = .ok (after, count)) :
    List.Forall₂
      (Rebodied (SameLayout rules references.name after.pool) before.pool after.pool)
      before.methods after.methods := by
  obtain ⟨-, hmethods, -⟩ := becomes_apply h hrules hreferences hsize
  exact hmethods.imp fun _ _ hmethod => hmethod.rebodied fun body calls news hsplit hnews =>
    sameLayout_of_becomes hsplit hnews

end Layout

/-- Calls of the interface method `B.m` go to `T`. -/
def redirectsToT : List RedirectRule :=
  [⟨⟨"B", "m", none⟩, "T"⟩]

/-- A class with a constant for the interface method `B.m`. -/
def classOfInterfaceCall (more : List Constant) (code : Bytes) : ClassFile :=
  classCallingB (.interfaceMethodRef 8 6 :: more) code

/-- The call of the interface method, written back as a static call with two fillers. -/
def classOfStaticCall : ClassFile :=
  classOfInterfaceCall [.utf8 (Utf8.encode "T"), .classRef 10, .utf8 (Utf8.encode "(LB;)V"),
    .nameAndType 4 12, .methodRef 11 13] [0xb8, 0, 14, 0, 0, 0xb1]

theorem sameLayout_of_apply_classOfInterfaceCall :
    (apply redirectsToT (classOfInterfaceCall [] [0xb9, 0, 9, 1, 0, 0xb1])).result =
        .ok (classOfStaticCall, 1) ∧
      ∃ references,
        References.ofClass (classOfInterfaceCall [] [0xb9, 0, 9, 1, 0, 0xb1]) = .ok references ∧
        List.Forall₂
          (Rebodied (SameLayout redirectsToT references.name classOfStaticCall.pool)
            (classOfInterfaceCall [] []).pool classOfStaticCall.pool)
          (classOfInterfaceCall [] [0xb9, 0, 9, 1, 0, 0xb1]).methods classOfStaticCall.methods := by
  have happly : (apply redirectsToT (classOfInterfaceCall [] [0xb9, 0, 9, 1, 0, 0xb1])).result =
      .ok (classOfStaticCall, 1) := by cbv
  have hok : (References.ofClass (classOfInterfaceCall [] [0xb9, 0, 9, 1, 0, 0xb1])).toBool =
      true := by
    decide +kernel
  obtain ⟨references, hreferences⟩ := Except.exists_eq_ok hok
  exact ⟨happly, references, hreferences,
    sameLayout_of_apply hreferences (by decide) (by decide) happly⟩

end JarTailor.Redirect
