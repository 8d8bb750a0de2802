import JarTailor.Proofs.Analysis.Kept
import JarTailor.Proofs.Bytecode.Listing
import JarTailor.Proofs.Edit.RedirectRules
import Mathlib

/-!
# The analysis foresees what redirecting calls

An analysis looks at all the methods in the pool of a class, and takes the target of every rule that
selects one of them for a dependency. Redirecting looks at the calls in the code, follows the first
rule only, and leaves some calls alone. So it never calls a class that is not a dependency.
-/

namespace JarTailor.Redirect

/-- An instruction that the code did not have before, or that stands where a call is redirected. -/
def IsWritten (rules : List RedirectRule) (caller : String) (pool : Pool)
    (calls : List Instruction) (new : Instruction) : Prop :=
  new ∉ calls ∨ ∃ call ∈ calls, call.offset = new.offset ∧ IsSent rules caller pool call

/-- A class is a dependency of a class with some references. So it is kept, missing or excluded if
that class is kept. -/
structure Foreseen (config : Config) (references : References) (target : String) : Prop where
  depends : target ∈ Analysis.dependenciesOf config references
  placed : ∀ (scan : Scan) (analysis : Analysis) (name : String),
    (analyze config scan).result = .ok analysis → name ∈ analysis.keptNames →
      scan.Refers name references →
        Analysis.ExactlyOne (target ∈ analysis.keptNames) (target ∈ analysis.missing)
          (target ∈ analysis.excludedReferences)

/-- An instruction calls a method of the target of a rule. -/
def CallsTarget (pool : Pool) (rule : RedirectRule) (new : Instruction) : Prop :=
  ∃ method, callee? pool new = some method ∧ method.owner = rule.targetClass

/-- Where a rule sends a call of a method, its target is called, and every call that was written
into the code is of a class that is foreseen. -/
def CallsForeseen (config : Config) (references : References) (start final : Pool)
    (before after : Member) : Prop :=
  ∀ calls, before.instructions? start = some calls →
    ∃ news, after.instructions? final = some news ∧
      (∀ call ∈ calls, ∀ callee rule, callee? start call = some callee →
        Sends config.redirects references.name callee rule →
          ∃ new ∈ news, new.offset = call.offset ∧ CallsTarget final rule new) ∧
      ∀ new ∈ news, isCall new.opcode = true →
        IsWritten config.redirects references.name start calls new →
          ∃ method, callee? final new = some method ∧ Foreseen config references method.owner

section Sites

variable {rules : List RedirectRule} {caller : String} {pool start final : Pool}
variable {call new : Instruction} {calls changed : List Instruction}
variable {callee : MemberRef} {rule : RedirectRule}

theorem callee?_of_extends (hextends : start.Extends final)
    (h : callee? start call = some callee) : callee? final call = some callee := by
  obtain ⟨hcall, index, hindex, hmember⟩ := callee?_eq_some_iff.1 h
  exact callee?_eq_some_iff.2 ⟨hcall, index, hindex, hextends.member hmember⟩

theorem IsSent.extends (hextends : start.Extends final) (h : IsSent rules caller start call) :
    IsSent rules caller final call := by
  obtain ⟨callee, rule, hcallee, hsends⟩ := h
  exact ⟨callee, rule, callee?_of_extends hextends hcallee, hsends⟩

theorem IsWritten.extends (hextends : start.Extends final)
    (h : IsWritten rules caller start calls new) : IsWritten rules caller final calls new :=
  h.imp_right fun ⟨call, hcall, hoffset, hsent⟩ => ⟨call, hcall, hoffset, hsent.extends hextends⟩

/-- Instructions of the same code do not start at the same place. -/
theorem eq_of_offset {first second : Instruction} {offset : Nat}
    (h : Instruction.LaidOut offset calls) (hfirst : first ∈ calls) (hsecond : second ∈ calls)
    (hoffset : first.offset = second.offset) : first = second :=
  List.inj_on_of_nodup_map ((Assembly.pairwise_offset h).imp Nat.ne_of_lt) hfirst hsecond hoffset

theorem callsTarget_of_replacement {opcode : Opcode} {method : MemberRef} {index : Index}
    {offset : Nat} (hmethod : replacement rule opcode callee = .ok method)
    (hindex : pool.IsMethod index method) :
    CallsTarget pool rule ⟨offset, Opcode.invokestatic, be16 index⟩ := by
  have hcallee : callee? pool ⟨offset, Opcode.invokestatic, be16 index⟩ = some method :=
    callee?_eq_some_iff.2 ⟨rfl, index, congrArg some (ofBe16_be16 index), hindex.member⟩
  exact ⟨method, hcallee, (replacement_eq_ok hmethod).1⟩

/-- The step: a call that a rule sends becomes a call of its target. -/
theorem Becomes.exists_target (h : Becomes rules caller pool call changed)
    (hcallee : callee? pool call = some callee) (hsends : Sends rules caller callee rule) :
    ∃ new ∈ changed, new.offset = call.offset ∧ CallsTarget pool rule new := by
  cases h with
  | kept hkept hnamed => exact absurd ⟨callee, rule, hcallee, hsends⟩ hkept
  | @sent callee' method rule' index hcallee' hsends' hmethod hindex =>
      obtain rfl : callee' = callee := Option.some.inj (hcallee'.symm.trans hcallee)
      obtain rfl := hsends'.unique hsends
      exact ⟨_, List.mem_cons_self, rfl, callsTarget_of_replacement hmethod hindex⟩

/-- The step: of what one instruction becomes, only the call of a target is both a call and
written. -/
theorem Becomes.sends {offset : Nat} (h : Becomes rules caller pool call changed)
    (hlaid : Instruction.LaidOut offset calls) (hcall : call ∈ calls) (hnew : new ∈ changed)
    (hopcode : isCall new.opcode = true) (hwritten : IsWritten rules caller pool calls new) :
    ∃ callee rule, callee? pool call = some callee ∧ Sends rules caller callee rule ∧
      CallsTarget pool rule new := by
  cases h with
  | kept hkept hnamed =>
      obtain rfl := List.mem_singleton.1 hnew
      rcases hwritten with hother | ⟨other, hmem, hoffset, hsent⟩
      · exact absurd hcall hother
      · exact absurd (eq_of_offset hlaid hmem hcall hoffset ▸ hsent) hkept
  | @sent callee method rule index hcallee hsends hmethod hindex =>
      rcases List.mem_cons.1 hnew with rfl | hfiller
      · exact ⟨callee, rule, hcallee, hsends, callsTarget_of_replacement hmethod hindex⟩
      · have hnop : new.opcode = Opcode.nop := by
          rw [fillers] at hfiller
          split at hfiller
          · simp only [List.mem_cons, List.not_mem_nil, or_false] at hfiller
            rcases hfiller with rfl | rfl <;> rfl
          · exact absurd hfiller List.not_mem_nil
        rw [hnop] at hopcode
        exact absurd hopcode (by decide)

end Sites

section Methods

variable {config : Config} {references : References}

/-- Where a rule sends the calls of a method of the pool, its target is a dependency. -/
theorem foreseen_of_sends {callee : MemberRef} {rule : RedirectRule}
    (hcallee : callee ∈ references.methods)
    (h : Sends config.redirects references.name callee rule) :
    Foreseen config references rule.targetClass := by
  have hselects := selects_of_ruleFor? (ruleFor?_eq_some_iff.2 h) hcallee
  have hdepends : rule.targetClass ∈ Analysis.dependenciesOf config references :=
    Analysis.mem_dependenciesOf_iff.2 ⟨h.elsewhere, Or.inr ⟨rule, callee, hselects, rfl⟩⟩
  refine ⟨hdepends, fun scan analysis name hanalyze hname hrefers => ?_⟩
  obtain ⟨known, hknown, rfl⟩ := Analysis.analyze_eq_ok hanalyze
  exact Analysis.exactlyOne_of_mem_targets hknown hname ⟨references, hrefers, hdepends⟩

/-- What a body calls in the end was among the called methods from the beginning. -/
theorem called_of_callee? {called : MemberRef → Prop} {start final : Pool} {member : Member}
    {body : Code} {calls : List Instruction} {call : Instruction} {callee : MemberRef}
    (h : MethodCallsOnly called start member) (hbody : member.HasBody start body calls)
    (hextends : start.Extends final) (hcall : call ∈ calls)
    (hcallee : callee? final call = some callee) : called callee := by
  obtain ⟨⟨info, hinfo, hdecode⟩, hsplit⟩ := hbody
  obtain ⟨entry, hentry, rfl⟩ := Option.map_eq_some_iff.1 hinfo
  obtain ⟨hopcode, index, hindex, hmember⟩ := callee?_eq_some_iff.1 hcallee
  unfold Instruction.index? at hindex
  split at hindex
  · next high low tail hoperands =>
      obtain rfl := Option.some.inj hindex
      exact h entry (List.mem_of_find?_eq_some hentry) start (fun _ _ h => h)
        (List.find?_some hentry) body hdecode calls hsplit call hcall hopcode high low tail
        hoperands final hextends callee hmember
  · cases hindex

/-- The run: over the code of a method. -/
theorem MethodBecomes.callsForeseen {start final : Pool} {before after : Member}
    (h : MethodBecomes config.redirects references.name start final before after)
    (hcalled : MethodCallsOnly (· ∈ references.methods) start before)
    (hextends : start.Extends final) :
    CallsForeseen config references start final before after := by
  intro calls hcalls
  cases h with
  | bodiless hbodiless =>
      rw [Member.instructions?, hbodiless] at hcalls
      cases hcalls
  | @body _ body own changed hbefore hnews hafter =>
      obtain rfl : own = calls := Option.some.inj (hbefore.instructions?.symm.trans hcalls)
      refine ⟨changed.flatten, hafter.instructions?, ?_, fun new hnew hopcode hwritten => ?_⟩
      · intro call hcall callee rule hcallee hsends
        obtain ⟨group, hgroup, hbecomes⟩ := exists_related_right hnews hcall
        obtain ⟨new, hnew, hplace⟩ :=
          hbecomes.exists_target (callee?_of_extends hextends hcallee) hsends
        exact ⟨new, List.mem_flatten_of_mem hgroup hnew, hplace⟩
      · obtain ⟨group, hgroup, hnew⟩ := List.mem_flatten.1 hnew
        obtain ⟨call, hcall, hbecomes⟩ := exists_related_left hnews hgroup
        obtain ⟨hlaid, -⟩ := Instruction.split_eq_ok_iff.1 hbefore.splits
        obtain ⟨callee, rule, hcallee, hsends, method, hmethod, howner⟩ :=
          hbecomes.sends hlaid hcall hnew hopcode (hwritten.extends hextends)
        have hmem : callee ∈ references.methods :=
          called_of_callee? hcalled hbefore hextends hcall hcallee
        exact ⟨method, hmethod, howner ▸ foreseen_of_sends hmem hsends⟩

theorem callsForeseen_of_eq_nil (hrules : config.redirects = []) (pool : Pool) (member : Member) :
    CallsForeseen config references pool pool member member := by
  have hnone : ∀ callee rule, ¬Sends config.redirects references.name callee rule := by
    intro callee rule hsends
    have hfirst := hsends.first
    rw [hrules] at hfirst
    cases hfirst
  intro calls hcalls
  refine ⟨calls, hcalls, ?_, fun new hnew _ hwritten => ?_⟩
  · exact fun _ _ callee rule _ hsends => absurd hsends (hnone callee rule)
  · rcases hwritten with hother | ⟨call, -, -, callee, rule, -, hsends⟩
    · exact absurd hnew hother
    · exact absurd hsends (hnone callee rule)

/-- Redirecting calls the targets of its rules, and the owner of every call that it writes into a
class is a dependency that the analysis found for the class before. -/
theorem foreseen_of_apply {before after : ClassFile} {count : Nat}
    (hreferences : References.ofClass before = .ok references) (hcalls : before.CallsMethods)
    (hsize : before.pool.size ≤ Pool.capacity)
    (h : (apply config.redirects before).result = .ok (after, count)) :
    List.Forall₂ (CallsForeseen config references before.pool after.pool)
      before.methods after.methods := by
  by_cases hrules : config.redirects = []
  · rw [hrules] at h
    cases h
    exact List.forall₂_same.2 fun member _ => callsForeseen_of_eq_nil hrules before.pool member
  · obtain ⟨hextends, hmethods, -⟩ := becomes_apply h hrules hreferences hsize
    obtain ⟨uses, hknown⟩ := References.known_of_ofClass hreferences
    have hcalled : ∀ member ∈ before.methods,
        MethodCallsOnly (· ∈ references.methods) before.pool member :=
      fun member hmember => Tailor.methodCallsOnly_of_known hknown hcalls hmember
    exact ((List.forall₂_and_left _ _).2 ⟨hcalled, hmethods⟩).imp fun _ _ hmethod =>
      hmethod.2.callsForeseen hmethod.1 hextends

end Methods

theorem callsMethods_callingClass : (callingClass [] [0xb8, 0, 9, 0xb1]).CallsMethods := by
  intro method hmethod entry hentry _ body hbody calls hsplit call hcall _ high low tail hoperands
  obtain rfl := List.mem_singleton.1 hmethod
  obtain rfl := List.mem_singleton.1 hentry
  have hcode : (Code.decode (Body.plain 1 0 [0xb8, 0, 9, 0xb1]).encode).toOption.bind
      (fun body => (Instruction.split body.code).toOption) =
        some [⟨0, 0xb8, [0, 9]⟩, ⟨3, 0xb1, []⟩] := by
    decide +kernel
  rw [hbody] at hcode
  change (Instruction.split body.code).toOption = _ at hcode
  rw [hsplit] at hcode
  obtain rfl := Option.some.inj hcode
  simp only [List.mem_cons, List.not_mem_nil, or_false] at hcall
  rcases hcall with rfl | rfl
  · obtain ⟨rfl, rfl, rfl⟩ : high = 0 ∧ low = 9 ∧ tail = [] := by simpa [eq_comm] using hoperands
    exact ⟨8, 6, Or.inl (by decide +kernel)⟩
  · cases hoperands

theorem foreseen_of_apply_callingClass :
    ∃ references, References.ofClass (callingClass [] [0xb8, 0, 9, 0xb1]) = .ok references ∧
      Foreseen { redirects := redirectsOfB } references "T" := by
  have hok : (References.ofClass (callingClass [] [0xb8, 0, 9, 0xb1])).toBool = true := by
    decide +kernel
  obtain ⟨references, hreferences⟩ := Except.exists_eq_ok hok
  have happly : (apply redirectsOfB (callingClass [] [0xb8, 0, 9, 0xb1])).result =
      .ok (callingClass [.utf8 (Utf8.encode "T"), .classRef 11, .methodRef 12 6]
        [0xb8, 0, 13, 0xb1], 1) := by cbv
  have hforeseen := @foreseen_of_apply { redirects := redirectsOfB } _ _ _ _ hreferences
    callsMethods_callingClass (by decide) happly
  have hbefore : ∀ member ∈ (callingClass [] [0xb8, 0, 9, 0xb1]).methods,
      member.instructions? (callingClass [] []).pool =
        some [⟨0, 0xb8, [0, 9]⟩, ⟨3, 0xb1, []⟩] := by
    decide +kernel
  obtain ⟨news, hnews, -, hwritten⟩ :=
    (List.forall₂_cons.1 hforeseen).1 _ (hbefore _ List.mem_cons_self)
  have hafter : ∀ member ∈ (callingClass [] [0xb8, 0, 13, 0xb1]).methods,
      member.instructions? (callingClass [.utf8 (Utf8.encode "T"), .classRef 11,
        .methodRef 12 6] []).pool = some [⟨0, 0xb8, [0, 13]⟩, ⟨3, 0xb1, []⟩] := by
    decide +kernel
  obtain rfl := Option.some.inj (hnews.symm.trans (hafter _ List.mem_cons_self))
  obtain ⟨method, hmethod, hplaced⟩ :=
    hwritten ⟨0, 0xb8, [0, 13]⟩ List.mem_cons_self rfl (Or.inl (by decide))
  have howner : (callee? (callingClass [.utf8 (Utf8.encode "T"), .classRef 11,
      .methodRef 12 6] []).pool ⟨0, 0xb8, [0, 13]⟩).map MemberRef.owner = some "T" := by
    decide +kernel
  have hsame : method.owner = "T" :=
    Option.some.inj ((congrArg (Option.map MemberRef.owner) hmethod).symm.trans howner)
  exact ⟨references, hreferences, hsame ▸ hplaced⟩

end JarTailor.Redirect
