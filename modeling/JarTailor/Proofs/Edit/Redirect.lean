import JarTailor.Edit.Redirect
import JarTailor.Proofs.ClassFile.Contents
import JarTailor.Proofs.ClassFile.Growth
import JarTailor.Proofs.Success

/-!
# What redirecting calls changes

Redirecting appends methods of rule targets to the pool and rewrites code without changing its
length. Everything else in a class stays.
-/

namespace JarTailor

namespace Redirect

/-- Whatever an instruction calls, in this pool or a larger one, is among some methods. -/
def CallsOnly (called : MemberRef → Prop) (pool : Pool) (call : Instruction) : Prop :=
  isCall call.opcode = true → ∀ high low tail, call.operands = high :: low :: tail →
    ∀ larger, pool.Extends larger → ∀ callee, larger.member (ofBe16 high low) = .ok callee →
      called callee

/-- A rule selects one of the called methods. -/
def Selects (rules : List RedirectRule) (called : MemberRef → Prop) (rule : RedirectRule)
    (callee : MemberRef) : Prop :=
  rule ∈ rules ∧ called callee ∧
    rule.selects callee.owner callee.name callee.descriptor = true

/-- The targets of the rules that select a called method. -/
def Targets (rules : List RedirectRule) (called : MemberRef → Prop) (name : String) : Prop :=
  ∃ rule callee, Selects rules called rule callee ∧ rule.targetClass = name

/-- The descriptors of the methods called instead. -/
def Describes (rules : List RedirectRule) (called : MemberRef → Prop) (text : String) : Prop :=
  ∃ rule callee, Selects rules called rule callee ∧
    (callee.descriptor = text ∨ Descriptor.withReceiver callee.owner callee.descriptor = .ok text)

section Steps

variable {rules : List RedirectRule} {caller : String} {called : MemberRef → Prop}
variable {start pool after : Pool}

theorem selects_of_ruleFor? {callee : MemberRef} {rule : RedirectRule}
    (h : ruleFor? rules caller callee = some rule) (hcallee : called callee) :
    Selects rules called rule callee := by
  unfold ruleFor? at h
  split at h
  · cases h
  · obtain ⟨hfind, -⟩ := Option.filter_eq_some_iff.1 h
    have hmem : rule ∈ rules := List.mem_of_find?_eq_some hfind
    have hholds := List.find?_some hfind
    exact ⟨hmem, hcallee, hholds⟩

theorem replacement_eq_ok {rule : RedirectRule} {opcode : Opcode} {callee method : MemberRef}
    (h : replacement rule opcode callee = .ok method) :
    method.owner = rule.targetClass ∧ method.name = callee.name ∧
      (callee.descriptor = method.descriptor ∨
        Descriptor.withReceiver callee.owner callee.descriptor = .ok method.descriptor) := by
  unfold replacement at h
  split at h
  · obtain ⟨descriptor, hdescriptor, h⟩ := Except.bind_eq_ok_iff.1 h
    cases h
    exact ⟨rfl, rfl, Or.inl (Except.ok.inj hdescriptor)⟩
  · obtain ⟨descriptor, hdescriptor, h⟩ := Except.bind_eq_ok_iff.1 h
    cases h
    exact ⟨rfl, rfl, Or.inr hdescriptor⟩

/-- The pool gains what the new calls need. -/
abbrev GainsCalls (rules : List RedirectRule) (called : MemberRef → Prop) : Pool → Pool → Prop :=
  Pool.Gains (Targets rules called) (Describes rules called)

theorem gains_site {call : Instruction} {changed : Option Instruction}
    (h : (site rules caller pool call).result = .ok (after, changed))
    (hsize : pool.size ≤ Pool.capacity) (hstart : start.Extends pool)
    (hcalls : CallsOnly called start call) :
    GainsCalls rules called pool after ∧
      ∀ new, changed = some new → new.operands.length = call.operands.length := by
  unfold site at h
  split at h
  · cases h
    exact ⟨.refl pool, by simp⟩
  · next hcall =>
      rw [Bool.not_eq_true, Bool.not_eq_false'] at hcall
      split at h
      · next high low tail hoperands =>
          simp only [Traced.result_bind, Traced.result_monadLift] at h
          obtain ⟨callee, hcallee, h⟩ := Except.bind_eq_ok_iff.1 h
          have hcalled : called callee := hcalls hcall _ _ _ hoperands _ hstart _ hcallee
          cases hrule : ruleFor? rules caller callee with
          | none =>
              rw [hrule] at h
              cases h
              exact ⟨.refl pool, by simp⟩
          | some rule =>
              rw [hrule] at h
              simp only [Traced.result_bind, Traced.result_monadLift] at h
              obtain ⟨method, hmethod, h⟩ := Except.bind_eq_ok_iff.1 h
              obtain ⟨⟨index, found⟩, hintern, h⟩ := Except.bind_eq_ok_iff.1 h
              obtain ⟨_, -, h⟩ := Except.bind_eq_ok_iff.1 h
              cases h
              have hselects := selects_of_ruleFor? hrule hcalled
              obtain ⟨howner, -, hdescriptor⟩ := replacement_eq_ok hmethod
              have hgains : GainsCalls rules called pool found :=
                (Pool.gains_internMethod hsize hintern ⟨rule, callee, hselects, howner.symm⟩
                  ⟨rule, callee, hselects, hdescriptor⟩).1
              refine ⟨hgains, ?_⟩
              rintro _ ⟨⟩
              rw [hoperands]
              simp only [List.length_append, length_be16, List.length_map, List.length_cons]
              omega
      · cases h

theorem gains_sites {calls changed : List Instruction} {count : Nat}
    (h : (sites rules caller pool calls).result = .ok (after, changed, count))
    (hsize : pool.size ≤ Pool.capacity) (hstart : start.Extends pool)
    (hcalls : ∀ call ∈ calls, CallsOnly called start call) :
    GainsCalls rules called pool after ∧
      (changed.flatMap Instruction.encode).length = (calls.flatMap Instruction.encode).length := by
  induction calls generalizing pool after changed count with
  | nil =>
      cases h
      exact ⟨.refl _, rfl⟩
  | cons call calls ih =>
      simp only [sites, Traced.result_bind] at h
      obtain ⟨⟨middle, new⟩, hsite, h⟩ := Except.bind_eq_ok_iff.1 h
      obtain ⟨⟨last, others, found⟩, hsites, h⟩ := Except.bind_eq_ok_iff.1 h
      obtain ⟨hfirst, hnew⟩ :=
        gains_site hsite hsize hstart (hcalls call List.mem_cons_self)
      obtain ⟨hrest, hlength⟩ := ih hsites (hfirst.size_le hsize) (hstart.trans hfirst.extends)
        fun other hother => hcalls other (List.mem_cons_of_mem _ hother)
      cases new with
      | none =>
          cases h
          refine ⟨hfirst.trans hrest, ?_⟩
          rw [List.flatMap_cons, List.flatMap_cons, List.length_append, List.length_append,
            hlength]
      | some new =>
          cases h
          refine ⟨hfirst.trans hrest, ?_⟩
          rw [List.flatMap_cons, List.flatMap_cons, List.length_append, List.length_append,
            hlength, Instruction.encode, Instruction.encode, List.length_cons, List.length_cons,
            hnew new rfl]

/-- Whatever the body of a method calls is among some methods. -/
def MethodCallsOnly (called : MemberRef → Prop) (pool : Pool) (member : Member) : Prop :=
  ∀ entry ∈ member.attributes, ∀ larger, pool.Extends larger →
    entry.isNamed larger Member.codeName = true → ∀ body, Code.decode entry.info = .ok body →
      ∀ calls, Instruction.split body.code = .ok calls → ∀ call ∈ calls, CallsOnly called pool call

/-- The second method is the first, or the first with other code of the same length in a body that
has its name in a pool that grew from the given one. -/
def Rewrites (start : Pool) (before after : Member) : Prop :=
  after = before ∨ ∃ pool position entry body code, start.Extends pool ∧
    before.attributes[position]? = some entry ∧ entry.isNamed pool Member.codeName = true ∧
    Code.decode entry.info = .ok body ∧ code.length = body.code.length ∧
    after = before.withInfo position { body with code }.encode

theorem gains_method {member changed : Member} {count : Nat}
    (h : (method rules caller pool member).result = .ok (after, changed, count))
    (hsize : pool.size ≤ Pool.capacity) (hstart : start.Extends pool)
    (hcalls : MethodCallsOnly called start member) :
    GainsCalls rules called pool after ∧ Rewrites start member changed := by
  unfold method at h
  split at h
  · next position info hposition hinfo =>
      obtain ⟨entry, hentry, hnamed, hcode⟩ := Member.exists_codeAttribute hposition
      obtain rfl : info = entry.info := Option.some.inj (hinfo.symm.trans hcode)
      simp only [Traced.result_bind, Traced.result_monadLift] at h
      obtain ⟨body, hbody, h⟩ := Except.bind_eq_ok_iff.1 h
      obtain ⟨calls, hsplit, h⟩ := Except.bind_eq_ok_iff.1 h
      obtain ⟨⟨last, new, found⟩, hsites, h⟩ := Except.bind_eq_ok_iff.1 h
      have hbody := Except.within_eq_ok_iff.1 hbody
      obtain ⟨hgains, hlength⟩ := gains_sites hsites hsize hstart
        (hcalls entry (List.mem_of_getElem? hentry) pool hstart hnamed body hbody calls hsplit)
      rw [Instruction.encode_split hsplit] at hlength
      split at h
      · cases h
        exact ⟨hgains, Or.inl rfl⟩
      · cases h
        exact ⟨hgains, Or.inr ⟨pool, position, entry, body, _, hstart, hentry, hnamed, hbody,
          hlength, rfl⟩⟩
  · cases h
    exact ⟨.refl _, Or.inl rfl⟩

theorem gains_methods {members changed : List Member} {count : Nat}
    (h : (methods rules caller pool members).result = .ok (after, changed, count))
    (hsize : pool.size ≤ Pool.capacity) (hstart : start.Extends pool)
    (hcalls : ∀ member ∈ members, MethodCallsOnly called start member) :
    GainsCalls rules called pool after ∧ List.Forall₂ (Rewrites start) members changed := by
  induction members generalizing pool after changed count with
  | nil =>
      cases h
      exact ⟨.refl _, .nil⟩
  | cons member members ih =>
      simp only [methods, Traced.result_bind] at h
      obtain ⟨⟨middle, new, here⟩, hmethod, h⟩ := Except.bind_eq_ok_iff.1 h
      obtain ⟨⟨last, others, found⟩, hmethods, h⟩ := Except.bind_eq_ok_iff.1 h
      cases h
      obtain ⟨hfirst, hnew⟩ :=
        gains_method hmethod hsize hstart (hcalls member List.mem_cons_self)
      obtain ⟨hrest, hothers⟩ := ih hmethods (hfirst.size_le hsize)
        (hstart.trans hfirst.extends)
        fun other hother => hcalls other (List.mem_cons_of_mem _ hother)
      exact ⟨hfirst.trans hrest, .cons hnew hothers⟩

end Steps

/-- A class with some calls redirected. -/
structure Redirected (rules : List RedirectRule) (called : MemberRef → Prop)
    (before after : ClassFile) : Prop where
  gains : GainsCalls rules called before.pool after.pool
  methods : List.Forall₂ (Rewrites before.pool) before.methods after.methods
  others : after = { before with pool := after.pool, methods := after.methods }

theorem redirected_of_apply {rules : List RedirectRule} {called : MemberRef → Prop}
    {before after : ClassFile} {count : Nat}
    (h : (apply rules before).result = .ok (after, count))
    (hsize : before.pool.size ≤ Pool.capacity)
    (hcalls : ∀ member ∈ before.methods, MethodCallsOnly called before.pool member) :
    Redirected rules called before after := by
  unfold apply at h
  split at h
  · cases h
    exact ⟨.refl _, List.forall₂_same.2 fun _ _ => Or.inl rfl, rfl⟩
  · simp only [Traced.result_bind, Traced.result_monadLift] at h
    obtain ⟨caller, -, h⟩ := Except.bind_eq_ok_iff.1 h
    obtain ⟨⟨pool, members, found⟩, hmethods, h⟩ := Except.bind_eq_ok_iff.1 h
    cases h
    obtain ⟨hgains, hrewrites⟩ := gains_methods hmethods hsize (fun _ _ h => h) hcalls
    exact ⟨hgains, hrewrites, rfl⟩

end Redirect

end JarTailor
