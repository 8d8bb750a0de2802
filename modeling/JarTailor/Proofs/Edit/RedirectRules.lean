import JarTailor.Proofs.Edit.Calls
import JarTailor.Proofs.Receiver
import Mathlib

/-!
# Redirecting follows its rules

A call goes to the target of the first rule that selects the method it names, and every other
instruction stays. The new call takes from the stack what the old one took, and leaves what the old
one left.
-/

namespace JarTailor.Redirect

/-- The type of the objects of a class, or of an array class. -/
def objectType? (name : String) : Option FieldType :=
  if name.toList.head? = some '[' then (FieldType.parse name).toOption
  else some ⟨0, .object name⟩

/-- The types that a call takes from the stack, the deepest first, and the type that it leaves
there. -/
def effect? (opcode : Opcode) (callee : MemberRef) : Option (List FieldType × Option FieldType) := do
  let type ← (MethodType.parse callee.descriptor).toOption
  if opcode = Opcode.invokestatic then return (type.parameters, type.result)
  else return ((← objectType? callee.owner) :: type.parameters, type.result)

/-- A static method that can be called in place of `callee`, as a rule says. -/
structure Replaces (rule : RedirectRule) (opcode : Opcode) (callee method : MemberRef) : Prop where
  owner : method.owner = rule.targetClass
  name : method.name = callee.name
  isInterface : method.isInterface = false
  ofStatic : opcode = Opcode.invokestatic → method.descriptor = callee.descriptor
  ofInstance : opcode ≠ Opcode.invokestatic → ∃ rest, callee.descriptor = "(" ++ rest ∧
    method.descriptor = "(L" ++ callee.owner ++ ";" ++ rest
  effect : ∀ type, MethodType.parse callee.descriptor = .ok type → Enclosable callee.owner →
    ∃ effect, effect? opcode callee = some effect ∧
      effect? Opcode.invokestatic method = some effect

/-- Changed instructions do for a call what the rules say. -/
structure Follows (rules : List RedirectRule) (caller : String) (pool : Pool) (call : Instruction)
    (changed : List Instruction) : Prop where
  named : isCall call.opcode = true → ∃ callee, callee? pool call = some callee
  sent : ∀ callee rule, callee? pool call = some callee → Sends rules caller callee rule →
    ∃ method index, Replaces rule call.opcode callee method ∧ pool.IsMethod index method ∧
      ⟨call.offset, Opcode.invokestatic, be16 index⟩ ∈ changed
  kept : ¬ IsSent rules caller pool call → call ∈ changed

/-- A class was redirected as the rules say. -/
structure FollowsRules (rules : List RedirectRule) (caller : String) (before after : ClassFile)
    (count : Nat) : Prop where
  grows : before.pool.Extends after.pool
  callees : ∀ call callee, callee? before.pool call = some callee →
    callee? after.pool call = some callee
  methods : List.Forall₂
    (Rebodied (fun _ calls _ changed => ∀ call ∈ calls, Follows rules caller after.pool call changed)
      before.pool after.pool)
    before.methods after.methods
  count : count = total (countSent rules caller before.pool after.pool) before.methods

section Rules

variable {rules : List RedirectRule} {caller : String} {pool : Pool}
variable {rule : RedirectRule} {callee method : MemberRef}

theorem Sends.unique {other : RedirectRule} (h : Sends rules caller callee rule)
    (hother : Sends rules caller callee other) : rule = other :=
  Option.some.inj (h.first.symm.trans hother.first)

theorem Sends.selects (h : Sends rules caller callee rule) :
    rule ∈ rules ∧ rule.pattern.spec.owner = callee.owner := by
  obtain ⟨-, hfirst, -⟩ := h
  have hselects := List.find?_some hfirst
  exact ⟨List.mem_of_find?_eq_some hfirst, (MemberSpec.selects_iff.1 hselects).1⟩

/-- The receiver of a call is the first parameter of the method called instead. -/
theorem replaces_of_replacement {opcode : Opcode}
    (h : replacement rule opcode callee = .ok method)
    (harray : callee.owner.toList.head? ≠ some '[') : Replaces rule opcode callee method := by
  unfold replacement at h
  split at h
  · next hstatic =>
      subst hstatic
      obtain ⟨descriptor, hdescriptor, h⟩ := Except.bind_eq_ok_iff.1 h
      cases h
      cases hdescriptor
      refine ⟨rfl, rfl, rfl, fun _ => rfl, fun hne => absurd rfl hne, fun type htype _ => ?_⟩
      exact ⟨(type.parameters, type.result), by simp [effect?, htype, Except.toOption],
        by simp [effect?, htype, Except.toOption]⟩
  · next hinstance =>
      obtain ⟨descriptor, hdescriptor, h⟩ := Except.bind_eq_ok_iff.1 h
      cases h
      refine ⟨rfl, rfl, rfl, fun hstatic => absurd hstatic hinstance,
        fun _ => Descriptor.withReceiver_eq_ok_iff.1 hdescriptor, fun type htype howner => ?_⟩
      have hreceived := Descriptor.parse_withReceiver hdescriptor htype howner
      refine ⟨(⟨0, .object callee.owner⟩ :: type.parameters, type.result), ?_, ?_⟩
      · simp [effect?, objectType?, htype, hinstance, harray, Except.toOption]
      · simp [effect?, hreceived, Except.toOption]

variable (harrays : ∀ rule ∈ rules, rule.pattern.spec.owner.toList.head? ≠ some '[')
include harrays

theorem Becomes.follows {call : Instruction} {news changed : List Instruction}
    (h : Becomes rules caller pool call news) (hnews : ∀ new ∈ news, new ∈ changed) :
    Follows rules caller pool call changed := by
  cases h with
  | kept hkept hnamed =>
      exact ⟨hnamed, fun callee rule hcallee hsends => absurd ⟨callee, rule, hcallee, hsends⟩ hkept,
        fun _ => hnews call List.mem_cons_self⟩
  | @sent callee method rule index hcallee hsends hmethod hindex =>
      refine ⟨fun _ => ⟨callee, hcallee⟩, ?_, absurd ⟨callee, rule, hcallee, hsends⟩⟩
      intro callee' rule' hcallee' hsends'
      obtain rfl : callee = callee' := Option.some.inj (hcallee.symm.trans hcallee')
      obtain rfl := hsends.unique hsends'
      obtain ⟨hmem, howner⟩ := hsends.selects
      exact ⟨method, index, replaces_of_replacement hmethod (howner ▸ harrays rule hmem), hindex,
        hnews _ List.mem_cons_self⟩

/-- Redirecting does what its rules say with every call of a class: a call is changed if and only if
a rule selects what it names, and then as the first such rule says. -/
theorem followsRules_of_apply {before after : ClassFile} {references : References} {count : Nat}
    (hreferences : References.ofClass before = .ok references)
    (hsize : before.pool.size ≤ Pool.capacity) (hrules : rules ≠ [])
    (h : (apply rules before).result = .ok (after, count)) :
    FollowsRules rules references.name before after count := by
  obtain ⟨hgrows, hmethods, hcount⟩ := becomes_apply h hrules hreferences hsize
  refine ⟨hgrows, fun call callee hcallee => ?_, hmethods.imp fun _ _ hmethod =>
    hmethod.rebodied fun body calls news _ hnews call hcall => ?_, hcount⟩
  · obtain ⟨hcall, index, hindex, hmember⟩ := callee?_eq_some_iff.1 hcallee
    exact callee?_eq_some_iff.2 ⟨hcall, index, hindex, hgrows.member hmember⟩
  · obtain ⟨new, hnew, hbecomes⟩ := exists_related_right hnews hcall
    exact hbecomes.follows harrays fun other hother => List.mem_flatten_of_mem hnew hother

end Rules

/-- Calls of `B.m` go to `T`, and calls of `T.m` to `U`. -/
def redirectsOfB : List RedirectRule :=
  [⟨⟨"B", "m", none⟩, "T"⟩, ⟨⟨"T", "m", none⟩, "U"⟩]

/-- A class with a constant for the method `B.m`, and one for a field of a class that stands behind
the end of the pool. -/
def callingClass (more : List Constant) (code : Bytes) : ClassFile :=
  classCallingB (.methodRef 8 6 :: .fieldRef 12 6 :: more) code

theorem followsRules_of_apply_callingClass :
    (apply redirectsOfB (callingClass [] [0xb8, 0, 9, 0xb1])).result =
        .ok (callingClass [.utf8 (Utf8.encode "T"), .classRef 11, .methodRef 12 6]
          [0xb8, 0, 13, 0xb1], 1) ∧
      ∃ references, References.ofClass (callingClass [] [0xb8, 0, 9, 0xb1]) = .ok references ∧
        FollowsRules redirectsOfB references.name (callingClass [] [0xb8, 0, 9, 0xb1])
          (callingClass [.utf8 (Utf8.encode "T"), .classRef 11, .methodRef 12 6]
            [0xb8, 0, 13, 0xb1]) 1 := by
  have happly : (apply redirectsOfB (callingClass [] [0xb8, 0, 9, 0xb1])).result =
      .ok (callingClass [.utf8 (Utf8.encode "T"), .classRef 11, .methodRef 12 6]
        [0xb8, 0, 13, 0xb1], 1) := by cbv
  have hok : (References.ofClass (callingClass [] [0xb8, 0, 9, 0xb1])).toBool = true := by
    decide +kernel
  obtain ⟨references, hreferences⟩ := Except.exists_eq_ok hok
  exact ⟨happly, references, hreferences, followsRules_of_apply (by decide +kernel) hreferences
    (by decide) (by decide) happly⟩

/-- Every call has an operand that lies inside the pool. -/
def OperandsInside (classFile : ClassFile) : Prop :=
  ∀ member ∈ classFile.methods, ∀ calls, member.instructions? classFile.pool = some calls →
    ∀ call ∈ calls, isCall call.opcode = true →
      ∃ index, call.index? = some index ∧ index.toNat < classFile.pool.size

/-- Every call that is not to be redirected, its callee read in the pool as it was before, keeps
its opcode. -/
def KeepsOthers (rules : List RedirectRule) (caller : String) (before after : ClassFile) : Prop :=
  List.Forall₂ (fun old new => ∀ calls changed, old.instructions? before.pool = some calls →
      new.instructions? after.pool = some changed → ∀ call ∈ calls, isCall call.opcode = true →
        ¬ IsSent rules caller before.pool call →
          ∃ same ∈ changed, same.offset = call.offset ∧ same.opcode = call.opcode)
    before.methods after.methods

/-- Its second call is of the field constant. -/
def danglingClass : ClassFile :=
  callingClass [] [0xb8, 0, 9, 0xb6, 0, 10, 0xb1]

def danglingClassRedirected : ClassFile :=
  callingClass [.utf8 (Utf8.encode "T"), .classRef 11, .methodRef 12 6, .utf8 (Utf8.encode "U"),
    .classRef 14, .utf8 (Utf8.encode "(LT;)V"), .nameAndType 4 16, .methodRef 15 17]
    [0xb8, 0, 13, 0xb8, 0, 18, 0xb1]

/-- Redirecting the first call puts the class `T` where the field constant looks for its own. So
the second call, which named nothing, is redirected too. -/
theorem not_keepsOthers_danglingClass :
    (apply redirectsOfB danglingClass).result = .ok (danglingClassRedirected, 2) ∧
      OperandsInside danglingClass ∧
      ∃ references, References.ofClass danglingClass = .ok references ∧
        ¬ KeepsOthers redirectsOfB references.name danglingClass danglingClassRedirected := by
  have hok : (References.ofClass danglingClass).toBool = true := by decide +kernel
  obtain ⟨references, hreferences⟩ := Except.exists_eq_ok hok
  have hcalls : ∀ member ∈ danglingClass.methods, member.instructions? danglingClass.pool =
      some [⟨0, 0xb8, [0, 9]⟩, ⟨3, 0xb6, [0, 10]⟩, ⟨6, 0xb1, []⟩] := by
    decide +kernel
  refine ⟨by cbv, ?_, references, hreferences, fun hkeeps => ?_⟩
  · intro member hmember calls hmade
    obtain rfl := Option.some.inj ((hcalls member hmember).symm.trans hmade)
    decide +kernel
  · have hchanged : ∀ member ∈ danglingClassRedirected.methods,
        member.instructions? danglingClassRedirected.pool =
          some [⟨0, 0xb8, [0, 13]⟩, ⟨3, 0xb8, [0, 18]⟩, ⟨6, 0xb1, []⟩] := by
      decide +kernel
    have hcallee : callee? danglingClass.pool ⟨3, 0xb6, [0, 10]⟩ = none := by decide +kernel
    have hfirst := (List.forall₂_cons.1 hkeeps).1 _ _ (hcalls _ List.mem_cons_self)
      (hchanged _ List.mem_cons_self)
    obtain ⟨same, hmem, hsame⟩ := hfirst ⟨3, 0xb6, [0, 10]⟩ (by simp) (by decide) (by
      rintro ⟨callee, rule, hfound, -⟩
      rw [hcallee] at hfound
      cases hfound)
    revert same
    decide

end JarTailor.Redirect
