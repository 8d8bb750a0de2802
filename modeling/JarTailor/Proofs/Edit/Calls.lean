import JarTailor.Proofs.Bytecode.Boundaries
import JarTailor.Proofs.Edit.Redirect
import JarTailor.Proofs.Jar.Prepared
import Mathlib.Data.List.Find

/-!
# Calls that are redirected

Redirecting takes the code of a body apart into instructions, and in place of some calls it puts a
static call, with fillers behind it where the old call was longer. What is put there ends where the
old call ended, so the new code is taken apart at the same places again. `Becomes` is one
instruction's part in this, `MethodBecomes` that of a method, and `becomes_apply` is about a whole
class.

Which method a call names is read in the pool as it is in the end. It is what the old pool says
wherever the old pool says anything, since the pool only grows.
-/

namespace JarTailor

namespace Instruction

/-- The pool index that the operands of an instruction begin with. -/
def index? (instruction : Instruction) : Option Index :=
  match instruction.operands with
  | high :: low :: _ => some (ofBe16 high low)
  | _ => none

end Instruction

namespace Member

/-- The instructions of the body of a method that has one. -/
def instructions? (pool : Pool) (member : Member) : Option (List Instruction) := do
  let body ← (Code.decode (← member.code? pool)).toOption
  (Instruction.split body.code).toOption

/-- A method has a body, made of some instructions. -/
structure HasBody (pool : Pool) (member : Member) (body : Code)
    (instructions : List Instruction) : Prop where
  decodes : ∃ info, member.code? pool = some info ∧ Code.decode info = .ok body
  splits : Instruction.split body.code = .ok instructions

theorem HasBody.instructions? {pool : Pool} {member : Member} {body : Code}
    {instructions : List Instruction} (h : member.HasBody pool body instructions) :
    member.instructions? pool = some instructions := by
  obtain ⟨info, hinfo, hbody⟩ := h.decodes
  simp [Member.instructions?, hinfo, hbody, h.splits, Except.toOption]

section Names

variable {start pool : Pool} {member : Member}

/-- A pool that grows does not move the body of a method whose attributes have names. -/
theorem code?_of_extends (hextends : start.Extends pool)
    (hnames : ∀ entry ∈ member.attributes, ∃ name, start.text entry.name = .ok name) :
    member.code? pool = member.code? start := by
  rw [code?, code?, List.find?_congr fun entry hentry =>
    Attribute.isNamed_of_extends hextends (hnames entry hentry) codeName]

theorem codeIndex?_eq_none_iff : member.codeIndex? pool = none ↔ member.code? pool = none := by
  rw [codeIndex?, code?, List.findIdx?_eq_none_iff, Option.map_eq_none_iff, List.find?_eq_none]
  simp only [Bool.not_eq_true]

theorem code?_withInfo {position : Nat} (h : member.codeIndex? pool = some position)
    (info : Bytes) : (member.withInfo position info).code? pool = some info := by
  have hsame : (member.withInfo position info).codeIndex? pool = some position := by
    obtain ⟨hlt, hnamed, hbefore⟩ := List.findIdx?_eq_some_iff_getElem.1 h
    refine List.findIdx?_eq_some_iff_getElem.2
      ⟨(List.length_modify ..).symm ▸ hlt, ?_, fun earlier hearlier => ?_⟩
    · simpa [withInfo, Attribute.isNamed] using hnamed
    · have hother := hbefore earlier hearlier
      simpa [withInfo, List.getElem_modify, Nat.ne_of_gt hearlier] using hother
  obtain ⟨entry, hentry, -, hcode⟩ := exists_codeAttribute hsame
  obtain ⟨old, hold, -⟩ := exists_codeAttribute h
  rw [withInfo, List.getElem?_modify_eq, hold, Option.map_eq_map, Option.map_some] at hentry
  rw [hcode, ← Option.some.inj hentry]

/-- A body with other code of the same length is read back. -/
theorem hasBody_withInfo {position : Nat} (hposition : member.codeIndex? start = some position)
    (hextends : start.Extends pool)
    (hnames : ∀ entry ∈ member.attributes, ∃ name, start.text entry.name = .ok name)
    {info code : Bytes} {body : Code} {instructions : List Instruction}
    (hbody : Code.decode info = .ok body) (hlength : code.length = body.code.length)
    (hsplit : Instruction.split code = .ok instructions) :
    (member.withInfo position { body with code }.encode).HasBody pool { body with code }
      instructions := by
  have hnames' : ∀ entry ∈ (member.withInfo position { body with code }.encode).attributes,
      ∃ name, start.text entry.name = .ok name := by
    intro entry hentry
    rcases mem_withInfo hentry with hentry | ⟨old, hold, rfl⟩
    · exact hnames entry hentry
    · exact hnames old (List.mem_of_getElem? hold)
  obtain ⟨hfits, -⟩ := Code.decode_eq_ok_iff.1 hbody
  refine ⟨⟨_, ?_, Code.decode_eq_ok_iff.2 ⟨⟨?_, hfits.handlers, hfits.attributes⟩, rfl⟩⟩, hsplit⟩
  · rw [code?_of_extends hextends hnames', code?_withInfo hposition]
  · exact hlength ▸ hfits.code

end Names

end Member

namespace Redirect

/-- The method that a call names in a pool. -/
def callee? (pool : Pool) (call : Instruction) : Option MemberRef :=
  if isCall call.opcode then call.index?.bind fun index => (pool.member index).toOption else none

/-- `caller` calls the target of a rule in place of a method: the rule is the first that selects
the method. -/
structure Sends (rules : List RedirectRule) (caller : String) (callee : MemberRef)
    (rule : RedirectRule) : Prop where
  name : callee.name ≠ "<init>"
  first : rules.find? (·.selects callee.owner callee.name callee.descriptor) = some rule
  elsewhere : rule.targetClass ≠ caller

/-- A call is to be redirected. -/
def IsSent (rules : List RedirectRule) (caller : String) (pool : Pool) (call : Instruction) :
    Prop :=
  ∃ callee rule, callee? pool call = some callee ∧ Sends rules caller callee rule

/-- What stands behind a static call that is shorter than the call that it replaces. -/
def fillers (call : Instruction) : List Instruction :=
  if call.opcode = Opcode.invokeinterface then
    [⟨call.offset + 3, Opcode.nop, []⟩, ⟨call.offset + 4, Opcode.nop, []⟩]
  else []

/-- What redirecting makes of one instruction. -/
inductive Becomes (rules : List RedirectRule) (caller : String) (pool : Pool)
    (call : Instruction) : List Instruction → Prop
  | kept (hkept : ¬ IsSent rules caller pool call)
      (hnamed : isCall call.opcode = true → ∃ callee, callee? pool call = some callee) :
      Becomes rules caller pool call [call]
  | sent {callee method : MemberRef} {rule : RedirectRule} {index : Index}
      (hcallee : callee? pool call = some callee) (hsends : Sends rules caller callee rule)
      (hmethod : replacement rule call.opcode callee = .ok method)
      (hindex : pool.IsMethod index method) :
      Becomes rules caller pool call
        (⟨call.offset, Opcode.invokestatic, be16 index⟩ :: fillers call)

section Steps

variable {rules : List RedirectRule} {caller : String} {start pool after final : Pool}
variable {call : Instruction} {callee : MemberRef} {rule : RedirectRule}

theorem callsOnly_true (pool : Pool) (call : Instruction) :
    CallsOnly (fun _ => True) pool call := by
  intro hcall high low tail hoperands larger hlarger callee hcallee
  trivial

theorem methodCallsOnly_true (pool : Pool) (member : Member) :
    MethodCallsOnly (fun _ => True) pool member :=
  fun _ _ _ _ _ _ _ _ _ call _ => callsOnly_true pool call

theorem ruleFor?_eq_some_iff : ruleFor? rules caller callee = some rule ↔
    Sends rules caller callee rule := by
  rw [ruleFor?]
  constructor
  · intro h
    split at h
    · cases h
    · next hname =>
        obtain ⟨hfirst, helsewhere⟩ := Option.filter_eq_some_iff.1 h
        exact ⟨hname, hfirst, of_decide_eq_true helsewhere⟩
  · rintro ⟨hname, hfirst, helsewhere⟩
    rw [if_neg hname]
    exact Option.filter_eq_some_iff.2 ⟨hfirst, decide_eq_true helsewhere⟩

theorem isSent_iff : IsSent rules caller pool call ↔
    ((callee? pool call).bind (ruleFor? rules caller)).isSome = true := by
  simp only [IsSent, Option.isSome_iff_exists, Option.bind_eq_some_iff, ruleFor?_eq_some_iff]
  exact exists_comm.trans (exists_congr fun _ => exists_congr fun _ => Iff.rfl)

instance : DecidablePred (IsSent rules caller pool) := fun _ => decidable_of_iff _ isSent_iff.symm

theorem isCall_iff {opcode : Opcode} : isCall opcode = true ↔
    opcode = Opcode.invokevirtual ∨ opcode = Opcode.invokeinterface ∨
      opcode = Opcode.invokestatic := by
  simp only [isCall, Bool.or_eq_true, beq_iff_eq, or_assoc]

theorem callee?_eq_some_iff : callee? pool call = some callee ↔
    isCall call.opcode = true ∧ ∃ index, call.index? = some index ∧
      pool.member index = .ok callee := by
  rw [callee?]
  split
  · next hcall =>
      simp only [hcall, true_and, Option.bind_eq_some_iff, Except.toOption_eq_some_iff]
  · next hcall => simp [hcall]

/-- A call of an interface method is five bytes long, any other three. -/
theorem length_of_isCall (hcomplete : call.Complete) (hcall : isCall call.opcode = true) :
    call.length = if call.opcode = Opcode.invokeinterface then 5 else 3 := by
  rcases call with ⟨offset, opcode, operands⟩
  rcases isCall_iff.1 hcall with rfl | rfl | rfl <;> exact (Except.ok.inj hcomplete).symm

/-- The kept bytes of a redirected call are fillers. -/
theorem encode_fillers (hcomplete : call.Complete) (hcall : isCall call.opcode = true)
    {high low : UInt8} {tail : Bytes} (hoperands : call.operands = high :: low :: tail) :
    (fillers call).flatMap Instruction.encode = tail.map fun _ => Opcode.nop := by
  have hlength := length_of_isCall hcomplete hcall
  rw [Instruction.length, hoperands] at hlength
  rw [fillers]
  split at hlength
  · next hinterface =>
      rw [if_pos hinterface]
      rcases tail with _ | ⟨first, _ | ⟨second, _ | ⟨third, tail⟩⟩⟩ <;> cases hlength
      rfl
  · next hinterface =>
      rw [if_neg hinterface]
      cases tail <;> cases hlength
      rfl

theorem callee?_of_member {high low : UInt8} {tail : Bytes} (hcall : isCall call.opcode = true)
    (hoperands : call.operands = high :: low :: tail)
    (hcallee : pool.member (ofBe16 high low) = .ok callee) (hextends : pool.Extends final) :
    callee? final call = some callee :=
  callee?_eq_some_iff.2 ⟨hcall, ofBe16 high low, by rw [Instruction.index?, hoperands],
    hextends.member hcallee⟩

/-- The step: what stands in for a call, if anything, is what the call becomes. -/
theorem becomes_site {changed : Option Instruction}
    (h : (site rules caller pool call).result = .ok (after, changed))
    (hsize : pool.size ≤ Pool.capacity) (hcomplete : call.Complete)
    (hfinal : after.Extends final) :
    ∃ news, Becomes rules caller final call news ∧
      news.flatMap Instruction.encode = (changed.getD call).encode ∧
      (changed.isSome = true ↔ IsSent rules caller final call) := by
  have hgrown : pool.Extends final :=
    (gains_site h hsize (fun _ _ h => h) (callsOnly_true pool call)).1.extends.trans hfinal
  have hkept (hkept : ¬ IsSent rules caller final call)
      (hnamed : isCall call.opcode = true → ∃ callee, callee? final call = some callee) :
      ∃ news, Becomes rules caller final call news ∧
        news.flatMap Instruction.encode = ((none : Option Instruction).getD call).encode ∧
        ((none : Option Instruction).isSome = true ↔ IsSent rules caller final call) :=
    ⟨[call], .kept hkept hnamed, by simp, by simp [hkept]⟩
  unfold site at h
  split at h
  · next hcall =>
      cases h
      rw [Bool.not_eq_true'] at hcall
      refine hkept ?_ fun hcall' => absurd (hcall'.symm.trans hcall) (by decide)
      rintro ⟨callee, rule, hcallee, -⟩
      rw [(callee?_eq_some_iff.1 hcallee).1] at hcall
      cases hcall
  · next hcall =>
      rw [Bool.not_eq_true, Bool.not_eq_false'] at hcall
      split at h
      · next high low tail hoperands =>
          simp only [Traced.result_bind, Traced.result_monadLift] at h
          obtain ⟨callee, hmember, h⟩ := Except.bind_eq_ok_iff.1 h
          have hcallee := callee?_of_member hcall hoperands hmember hgrown
          cases hrule : ruleFor? rules caller callee with
          | none =>
              rw [hrule] at h
              cases h
              refine hkept ?_ fun _ => ⟨callee, hcallee⟩
              rw [isSent_iff, hcallee, Option.bind_some, hrule]
              exact Bool.false_ne_true
          | some rule =>
              rw [hrule] at h
              simp only [Traced.result_bind, Traced.result_monadLift] at h
              obtain ⟨method, hmethod, h⟩ := Except.bind_eq_ok_iff.1 h
              obtain ⟨⟨index, found⟩, hintern, h⟩ := Except.bind_eq_ok_iff.1 h
              obtain ⟨_, -, h⟩ := Except.bind_eq_ok_iff.1 h
              cases h
              obtain ⟨-, hindex⟩ : Pool.Grows pool found ∧ found.IsMethod index method :=
                Pool.gains_internMethod hsize hintern trivial trivial
              have hsends := ruleFor?_eq_some_iff.1 hrule
              refine ⟨_, .sent hcallee hsends hmethod (hfinal.isMethod hindex), ?_, ?_⟩
              · rw [List.flatMap_cons, encode_fillers hcomplete hcall hoperands]
                rfl
              · exact iff_of_true rfl ⟨callee, rule, hcallee, hsends⟩
      · cases h

/-- The run: what is written in place of some instructions is what they become. -/
theorem becomes_sites {calls changed : List Instruction} {count : Nat}
    (h : (sites rules caller pool calls).result = .ok (after, changed, count))
    (hsize : pool.size ≤ Pool.capacity) (hcomplete : ∀ call ∈ calls, call.Complete)
    (hfinal : after.Extends final) :
    ∃ news, List.Forall₂ (Becomes rules caller final) calls news ∧
      news.flatten.flatMap Instruction.encode = changed.flatMap Instruction.encode ∧
      count = calls.countP (IsSent rules caller final ·) := by
  induction calls generalizing pool after changed count with
  | nil =>
      cases h
      exact ⟨[], .nil, rfl, rfl⟩
  | cons call calls ih =>
      simp only [sites, Traced.result_bind] at h
      obtain ⟨⟨middle, new⟩, hsite, h⟩ := Except.bind_eq_ok_iff.1 h
      obtain ⟨⟨last, others, found⟩, hsites, h⟩ := Except.bind_eq_ok_iff.1 h
      have hfirst : GainsCalls rules (fun _ => True) pool middle :=
        (gains_site hsite hsize (fun _ _ h => h) (callsOnly_true pool call)).1
      have hrest : GainsCalls rules (fun _ => True) middle last :=
        (gains_sites hsites (hfirst.size_le hsize) (fun _ _ h => h)
          fun other _ => callsOnly_true middle other).1
      have hlast : last.Extends final := by
        cases new <;> cases h <;> exact hfinal
      obtain ⟨news, hnews, hbytes, hfound⟩ := ih hsites (hfirst.size_le hsize)
        (fun other hother => hcomplete other (List.mem_cons_of_mem _ hother)) hlast
      obtain ⟨first, hbecomes, hencode, hsome⟩ := becomes_site hsite hsize
        (hcomplete call List.mem_cons_self) (hrest.extends.trans hlast)
      refine ⟨first :: news, .cons hbecomes hnews, ?_, ?_⟩
      · rw [List.flatten_cons, List.flatMap_append, hencode, hbytes]
        cases new <;> cases h <;> rfl
      · rw [List.countP_cons, ← hfound]
        cases new with
        | none =>
            cases h
            rw [if_neg (by simpa using hsome)]
            rfl
        | some new =>
            cases h
            rw [if_pos (by simpa using hsome)]

/-- What an instruction becomes ends where the instruction ended. -/
theorem Becomes.laidOut {news others : List Instruction} (h : Becomes rules caller pool call news)
    (hcomplete : call.Complete)
    (hothers : Instruction.LaidOut (call.offset + call.length) others) :
    Instruction.LaidOut call.offset (news ++ others) := by
  cases h with
  | kept hkept hnamed => exact .cons hcomplete hothers
  | sent hcallee hsends hmethod hindex =>
      rw [length_of_isCall hcomplete (callee?_eq_some_iff.1 hcallee).1] at hothers
      refine @Instruction.LaidOut.cons ⟨call.offset, Opcode.invokestatic, _⟩ _ rfl ?_
      rw [fillers]
      split at hothers
      · next hinterface =>
          rw [if_pos hinterface]
          exact @Instruction.LaidOut.cons ⟨call.offset + 3, Opcode.nop, []⟩ _ rfl
            (@Instruction.LaidOut.cons ⟨call.offset + 4, Opcode.nop, []⟩ _ rfl hothers)
      · next hinterface =>
          rw [if_neg hinterface]
          exact hothers

theorem laidOut_flatten {calls : List Instruction} {news : List (List Instruction)} {offset : Nat}
    (h : List.Forall₂ (Becomes rules caller pool) calls news)
    (hlaid : Instruction.LaidOut offset calls) : Instruction.LaidOut offset news.flatten := by
  induction h generalizing offset with
  | nil => exact .nil offset
  | cons hbecomes hothers ih =>
      cases hlaid with
      | cons hcomplete hlaid => exact hbecomes.laidOut hcomplete (ih hlaid)

theorem Becomes.length {news : List Instruction} (h : Becomes rules caller pool call news)
    (hcomplete : call.Complete) : (news.flatMap Instruction.encode).length = call.length := by
  cases h with
  | kept hkept hnamed => simp [Instruction.encode, Instruction.length]
  | sent hcallee hsends hmethod hindex =>
      rw [length_of_isCall hcomplete (callee?_eq_some_iff.1 hcallee).1, fillers]
      split <;> rfl

theorem length_flatten {calls : List Instruction} {news : List (List Instruction)}
    (h : List.Forall₂ (Becomes rules caller pool) calls news)
    (hcomplete : ∀ call ∈ calls, call.Complete) :
    (news.flatten.flatMap Instruction.encode).length =
      (calls.flatMap Instruction.encode).length := by
  induction h with
  | nil => rfl
  | @cons call first calls news hbecomes hothers ih =>
      rw [List.flatten_cons, List.flatMap_append, List.length_append, List.flatMap_cons,
        List.length_append, hbecomes.length (hcomplete call List.mem_cons_self),
        ih fun other hother => hcomplete other (List.mem_cons_of_mem _ hother)]
      rfl

theorem flatten_of_countP_eq_zero {calls : List Instruction} {news : List (List Instruction)}
    (h : List.Forall₂ (Becomes rules caller pool) calls news)
    (hcount : calls.countP (IsSent rules caller pool ·) = 0) : news.flatten = calls := by
  have hkept := List.countP_eq_zero.1 hcount
  induction h with
  | nil => rfl
  | @cons call first calls news hbecomes hothers ih =>
      have hothers := List.countP_eq_zero.2 fun other hother =>
        hkept other (List.mem_cons_of_mem _ hother)
      rw [List.flatten_cons, ih hothers fun other hother =>
        hkept other (List.mem_cons_of_mem _ hother)]
      cases hbecomes with
      | kept hkept hnamed => rfl
      | sent hcallee hsends hmethod hindex =>
          exact absurd (decide_eq_true ⟨_, _, hcallee, hsends⟩) (hkept call List.mem_cons_self)

end Steps

/-- What redirecting makes of a method. -/
inductive MethodBecomes (rules : List RedirectRule) (caller : String) (start final : Pool)
    (before : Member) : Member → Prop
  | bodiless (hbodiless : before.code? start = none) :
      MethodBecomes rules caller start final before before
  | body {after : Member} {body : Code} {calls : List Instruction}
      {news : List (List Instruction)} (hbefore : before.HasBody start body calls)
      (hnews : List.Forall₂ (Becomes rules caller final) calls news)
      (hafter : after.HasBody final { body with code := news.flatten.flatMap Instruction.encode }
        news.flatten) :
      MethodBecomes rules caller start final before after

/-- A method without a body stays, and a method with one has a body that is related to it. -/
structure Rebodied (related : Code → List Instruction → Code → List Instruction → Prop)
    (start final : Pool) (before after : Member) : Prop where
  bodiless : before.code? start = none → after = before
  body : ∀ info, before.code? start = some info →
    ∃ body calls, before.HasBody start body calls ∧
      ∃ body' changed, after.HasBody final body' changed ∧ related body calls body' changed

/-- The number of calls of a method that are to be redirected. -/
def countSent (rules : List RedirectRule) (caller : String) (start final : Pool)
    (member : Member) : Nat :=
  ((member.instructions? start).getD []).countP (IsSent rules caller final ·)

section Runs

variable {rules : List RedirectRule} {caller : String} {start pool after final : Pool}

theorem MethodBecomes.rebodied {before after : Member}
    {related : Code → List Instruction → Code → List Instruction → Prop}
    (h : MethodBecomes rules caller start final before after)
    (hrelated : ∀ (body : Code) calls news, Instruction.split body.code = .ok calls →
      List.Forall₂ (Becomes rules caller final) calls news →
        related body calls { body with code := news.flatten.flatMap Instruction.encode }
          news.flatten) : Rebodied related start final before after := by
  cases h with
  | bodiless hbodiless =>
      exact ⟨fun _ => rfl, fun info hinfo => absurd (hinfo.symm.trans hbodiless) (by simp)⟩
  | @body _ body calls news hbefore hnews hafter =>
      refine ⟨fun hbodiless => ?_, fun info hinfo =>
        ⟨body, calls, hbefore, _, _, hafter, hrelated body calls news hbefore.splits hnews⟩⟩
      obtain ⟨info, hinfo, -⟩ := hbefore.decodes
      exact absurd (hinfo.symm.trans hbodiless) (by simp)

theorem becomes_method {member changed : Member} {count : Nat}
    (h : (method rules caller pool member).result = .ok (after, changed, count))
    (hsize : pool.size ≤ Pool.capacity) (hstart : start.Extends pool)
    (hnames : ∀ entry ∈ member.attributes, ∃ name, start.text entry.name = .ok name)
    (hfinal : after.Extends final) :
    MethodBecomes rules caller start final member changed ∧
      count = countSent rules caller start final member := by
  have hcode := Member.code?_of_extends hstart hnames
  have hnamed : ∀ entry ∈ member.attributes, ∃ name, pool.text entry.name = .ok name := by
    intro entry hentry
    obtain ⟨name, hname⟩ := hnames entry hentry
    exact ⟨name, hstart.text hname⟩
  have hgrown : pool.Extends final :=
    (gains_method h hsize hstart (methodCallsOnly_true start member)).1.extends.trans hfinal
  unfold method at h
  split at h
  · next position info hposition hinfo =>
      simp only [Traced.result_bind, Traced.result_monadLift] at h
      obtain ⟨body, hbody, h⟩ := Except.bind_eq_ok_iff.1 h
      obtain ⟨calls, hsplit, h⟩ := Except.bind_eq_ok_iff.1 h
      obtain ⟨⟨last, new, found⟩, hsites, h⟩ := Except.bind_eq_ok_iff.1 h
      have hbody := Except.within_eq_ok_iff.1 hbody
      have hbefore : member.HasBody start body calls := ⟨⟨info, hcode ▸ hinfo, hbody⟩, hsplit⟩
      obtain ⟨hlaid, hencode⟩ := Instruction.split_eq_ok_iff.1 hsplit
      have hlast : last = after := by
        split at h <;> cases h <;> rfl
      subst hlast
      obtain ⟨news, hnews, hbytes, hcount⟩ := becomes_sites hsites hsize hlaid.complete hfinal
      have hcounted : found = countSent rules caller start final member := by
        rw [countSent, hbefore.instructions?]
        exact hcount
      have hsplit' : Instruction.split (news.flatten.flatMap Instruction.encode) =
          .ok news.flatten :=
        Instruction.split_eq_ok_iff.2 ⟨laidOut_flatten hnews hlaid, rfl⟩
      split at h
      · next hzero =>
          cases h
          have hsame := flatten_of_countP_eq_zero hnews (hcount.symm.trans hzero)
          have hafter : member.HasBody final body calls :=
            ⟨⟨info, (Member.code?_of_extends hgrown hnamed).trans hinfo, hbody⟩, hsplit⟩
          refine ⟨.body hbefore hnews ?_, hzero ▸ hcounted⟩
          rw [hsame, hencode]
          exact hafter
      · cases h
        have hlength : (news.flatten.flatMap Instruction.encode).length = body.code.length := by
          rw [length_flatten hnews hlaid.complete, hencode]
        have hafter := Member.hasBody_withInfo hposition hgrown hnamed hbody hlength hsplit'
        rw [hbytes] at hafter
        refine ⟨.body hbefore hnews ?_, hcounted⟩
        rw [hbytes]
        exact hafter
  · next hnone =>
      cases h
      have hbodiless : member.code? start = none := by
        rw [← hcode, ← Member.codeIndex?_eq_none_iff]
        refine Option.eq_none_iff_forall_ne_some.2 fun position hposition => ?_
        obtain ⟨entry, -, -, hinfo⟩ := Member.exists_codeAttribute hposition
        exact hnone position entry.info hposition hinfo
      refine ⟨.bodiless hbodiless, ?_⟩
      rw [countSent, Member.instructions?, hbodiless]
      rfl

theorem becomes_methods {members changed : List Member} {count : Nat}
    (h : (methods rules caller pool members).result = .ok (after, changed, count))
    (hsize : pool.size ≤ Pool.capacity) (hstart : start.Extends pool)
    (hnames : ∀ member ∈ members, ∀ entry ∈ member.attributes,
      ∃ name, start.text entry.name = .ok name)
    (hfinal : after.Extends final) :
    List.Forall₂ (MethodBecomes rules caller start final) members changed ∧
      count = total (countSent rules caller start final) members := by
  induction members generalizing pool after changed count with
  | nil =>
      cases h
      exact ⟨.nil, rfl⟩
  | cons member members ih =>
      simp only [methods, Traced.result_bind] at h
      obtain ⟨⟨middle, new, here⟩, hmethod, h⟩ := Except.bind_eq_ok_iff.1 h
      obtain ⟨⟨last, others, found⟩, hmethods, h⟩ := Except.bind_eq_ok_iff.1 h
      cases h
      have hfirst : GainsCalls rules (fun _ => True) pool middle :=
        (gains_method hmethod hsize hstart (methodCallsOnly_true start member)).1
      have hmiddle := hfirst.size_le hsize
      have hstart' := hstart.trans hfirst.extends
      have hrest : GainsCalls rules (fun _ => True) middle last :=
        (gains_methods hmethods hmiddle hstart' fun other _ => methodCallsOnly_true start other).1
      obtain ⟨hbecomes, rfl⟩ := becomes_method hmethod hsize hstart
        (hnames member List.mem_cons_self) (hrest.extends.trans hfinal)
      obtain ⟨hothers, rfl⟩ := ih hmethods hmiddle hstart'
        (fun other hother => hnames other (List.mem_cons_of_mem _ hother)) hfinal
      exact ⟨.cons hbecomes hothers, rfl⟩

/-- What redirecting makes of a class whose references are known. -/
theorem becomes_apply {before after : ClassFile} {references : References} {count : Nat}
    (h : (apply rules before).result = .ok (after, count)) (hrules : rules ≠ [])
    (hreferences : References.ofClass before = .ok references)
    (hsize : before.pool.size ≤ Pool.capacity) :
    before.pool.Extends after.pool ∧
      List.Forall₂ (MethodBecomes rules references.name before.pool after.pool)
        before.methods after.methods ∧
      count = total (countSent rules references.name before.pool after.pool) before.methods := by
  obtain ⟨uses, hknown⟩ := References.known_of_ofClass hreferences
  unfold apply at h
  rw [if_neg (by simpa using hrules)] at h
  simp only [Traced.result_bind, Traced.result_monadLift] at h
  obtain ⟨caller, hcaller, h⟩ := Except.bind_eq_ok_iff.1 h
  obtain ⟨⟨pool, members, found⟩, hmethods, h⟩ := Except.bind_eq_ok_iff.1 h
  cases h
  obtain rfl : caller = references.name := Except.ok.inj (hcaller.symm.trans hknown.name)
  have hgains : GainsCalls rules (fun _ => True) before.pool pool :=
    (gains_methods hmethods hsize (fun _ _ h => h)
      fun member _ => methodCallsOnly_true before.pool member).1
  obtain ⟨hbecomes, hcount⟩ := becomes_methods hmethods hsize (fun _ _ h => h)
    (fun _ hmember _ hentry => Tailor.exists_name_of_known hknown hmember hentry) fun _ _ h => h
  exact ⟨hgains.extends, hbecomes, hcount⟩

end Runs

/-- A class `A` with a method that has some code. Constants that it adds to its pool can name the
method `B.m`, with the class 8 and the descriptor `()V` in 6. -/
def classCallingB (constants : List Constant) (code : Bytes) : ClassFile :=
  { minor := 0, major := 52
    pool := ⟨#[.unusable, .utf8 (Utf8.encode "A"), .classRef 1, .utf8 (Utf8.encode "Code"),
      .utf8 (Utf8.encode "m"), .utf8 (Utf8.encode "()V"), .nameAndType 4 5,
      .utf8 (Utf8.encode "B"), .classRef 7] ++ constants.toArray⟩
    flags := 0x21, thisClass := 2, superClass := 0, interfaces := [], fields := []
    methods := [⟨9, 4, 5, [⟨3, (Body.plain 1 0 code).encode⟩]⟩]
    attributes := [] }

end Redirect

end JarTailor
