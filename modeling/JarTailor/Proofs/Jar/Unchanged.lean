import JarTailor.Proofs.Edit.Calls
import JarTailor.Proofs.Jar.Written

/-!
# Classes that keep their bytes

A class that no pass changed is not written anew: its bytes are copied. Whether a pass changed
anything is what the pass itself reports, so the copy is right only if no pass changes a class that
it reports nothing about. `written_of_fit` says that it is right: the bytes in the output are always
those of the class after its passes.
-/

namespace JarTailor

/-- A pass that gives this report has left the class as it was. -/
def LeavesOn {ρ : Type} (report : ρ) (pass : ClassFile → Except Failure (ClassFile × ρ)) : Prop :=
  ∀ before after, pass before = .ok (after, report) → after = before

namespace Redirect

variable {rules : List RedirectRule} {caller : String} {pool after : Pool}

theorem pool_of_site {call : Instruction}
    (h : (site rules caller pool call).result = .ok (after, none)) : after = pool := by
  unfold site at h
  split at h
  · cases h
    rfl
  · split at h
    · simp only [Traced.result_bind, Traced.result_monadLift] at h
      obtain ⟨callee, -, h⟩ := Except.bind_eq_ok_iff.1 h
      split at h
      · cases h
        rfl
      · -- a rule that applies always gives a new instruction
        simp only [Traced.result_bind, Traced.result_monadLift] at h
        obtain ⟨method, -, h⟩ := Except.bind_eq_ok_iff.1 h
        obtain ⟨⟨index, grown⟩, -, h⟩ := Except.bind_eq_ok_iff.1 h
        obtain ⟨_, -, h⟩ := Except.bind_eq_ok_iff.1 h
        cases h
    · cases h

/-- Without a new instruction there is no new constant. -/
theorem pool_of_sites {calls changed : List Instruction}
    (h : (sites rules caller pool calls).result = .ok (after, changed, 0)) : after = pool := by
  induction calls generalizing pool changed with
  | nil =>
      cases h
      rfl
  | cons call calls ih =>
      simp only [sites, Traced.result_bind] at h
      obtain ⟨⟨middle, new⟩, hsite, h⟩ := Except.bind_eq_ok_iff.1 h
      obtain ⟨⟨last, others, count⟩, hsites, h⟩ := Except.bind_eq_ok_iff.1 h
      cases new with
      | some new => cases h
      | none =>
          cases h
          exact (ih hsites).trans (pool_of_site hsite)

theorem eq_of_method {member changed : Member}
    (h : (method rules caller pool member).result = .ok (after, changed, 0)) :
    after = pool ∧ changed = member := by
  unfold method at h
  split at h
  · simp only [Traced.result_bind, Traced.result_monadLift] at h
    obtain ⟨body, -, h⟩ := Except.bind_eq_ok_iff.1 h
    obtain ⟨calls, -, h⟩ := Except.bind_eq_ok_iff.1 h
    obtain ⟨⟨last, new, count⟩, hsites, h⟩ := Except.bind_eq_ok_iff.1 h
    split at h
    · next hcount =>
        cases h
        simp only at hcount
        subst hcount
        exact ⟨pool_of_sites hsites, rfl⟩
    · next hcount =>
        cases h
        exact absurd rfl hcount
  · cases h
    exact ⟨rfl, rfl⟩

theorem eq_of_methods {members changed : List Member}
    (h : (methods rules caller pool members).result = .ok (after, changed, 0)) :
    after = pool ∧ changed = members := by
  induction members generalizing pool changed with
  | nil =>
      cases h
      exact ⟨rfl, rfl⟩
  | cons member members ih =>
      simp only [methods, Traced.result_bind] at h
      obtain ⟨⟨middle, new, here⟩, hmethod, h⟩ := Except.bind_eq_ok_iff.1 h
      obtain ⟨⟨last, others, count⟩, hmethods, h⟩ := Except.bind_eq_ok_iff.1 h
      obtain ⟨hlast, hchanged, hnone⟩ : last = after ∧ new :: others = changed ∧ here + count = 0 := by
        simpa using h
      subst hlast hchanged
      obtain ⟨rfl, rfl⟩ := Nat.add_eq_zero_iff.1 hnone
      obtain ⟨rfl, rfl⟩ := eq_of_method hmethod
      obtain ⟨hlast, rfl⟩ := ih hmethods
      exact ⟨hlast, rfl⟩

theorem leavesOn_apply (rules : List RedirectRule) :
    LeavesOn 0 fun classFile => (apply rules classFile).result := by
  intro before after h
  simp only [apply] at h
  split at h
  · cases h
    rfl
  · simp only [Traced.result_bind, Traced.result_monadLift] at h
    obtain ⟨caller, -, h⟩ := Except.bind_eq_ok_iff.1 h
    obtain ⟨⟨pool, members, count⟩, hmethods, h⟩ := Except.bind_eq_ok_iff.1 h
    cases h
    obtain ⟨rfl, rfl⟩ := eq_of_methods hmethods
    rfl

end Redirect

namespace Replace

variable {rules : List ReplaceRule} {owner : String} {pool after : Pool}

/-- Where native methods are not delegated, only rules choose methods. -/
theorem eq_of_method {member changed : Member}
    (h : (method rules false owner pool member).result = .ok (after, changed, none)) :
    after = pool ∧ changed = member := by
  simp only [method, Traced.result_bind, Traced.result_monadLift] at h
  obtain ⟨name, -, h⟩ := Except.bind_eq_ok_iff.1 h
  obtain ⟨descriptor, -, h⟩ := Except.bind_eq_ok_iff.1 h
  split at h
  · cases h
    exact ⟨rfl, rfl⟩
  · next position action hchoice =>
      have hposition : position ≠ none := by
        unfold choice? at hchoice
        split at hchoice
        · cases hchoice
          exact Option.some_ne_none _
        · cases hchoice
      split at h
      · simp only [Traced.result_bind] at h
        obtain ⟨_, -, h⟩ := Except.bind_eq_ok_iff.1 h
        cases h
        exact absurd rfl hposition
      · simp only [Traced.result_bind, Traced.result_monadLift] at h
        obtain ⟨⟨⟨codeName, code⟩, grown⟩, -, h⟩ := Except.bind_eq_ok_iff.1 h
        obtain ⟨_, -, h⟩ := Except.bind_eq_ok_iff.1 h
        cases h
        exact absurd rfl hposition

theorem eq_of_methods {members changed : List Member}
    (h : (methods rules false owner pool members).result = .ok (after, changed, [])) :
    after = pool ∧ changed = members := by
  induction members generalizing pool changed with
  | nil =>
      cases h
      exact ⟨rfl, rfl⟩
  | cons member members ih =>
      simp only [methods, Traced.result_bind] at h
      obtain ⟨⟨middle, new, position⟩, hmethod, h⟩ := Except.bind_eq_ok_iff.1 h
      obtain ⟨⟨last, others, positions⟩, hmethods, h⟩ := Except.bind_eq_ok_iff.1 h
      obtain ⟨hlast, hchanged, hnone, hnones⟩ :
          last = after ∧ new :: others = changed ∧ position = none ∧ positions = [] := by
        simpa using h
      subst hlast hchanged hnone hnones
      obtain ⟨rfl, rfl⟩ := eq_of_method hmethod
      obtain ⟨hlast, rfl⟩ := ih hmethods
      exact ⟨hlast, rfl⟩

theorem leavesOn_apply (rules : List ReplaceRule) :
    LeavesOn ∅ fun classFile => (apply rules false classFile).result := by
  intro before after h
  simp only [apply, Traced.result_bind, Traced.result_monadLift] at h
  obtain ⟨owner, -, h⟩ := Except.bind_eq_ok_iff.1 h
  obtain ⟨⟨pool, members, used⟩, hmethods, h⟩ := Except.bind_eq_ok_iff.1 h
  obtain ⟨rfl, hused⟩ := Prod.mk.inj (Except.ok.inj h)
  obtain rfl : used = [] := Std.ExtTreeSet.ofList_eq_empty_iff.1 hused
  obtain ⟨rfl, rfl⟩ := eq_of_methods hmethods
  rfl

end Replace

namespace Promotions

variable {classes : NameSet} {pool : Pool}

theorem eq_of_attributeOf {before after : Attribute}
    (h : attributeOf classes pool before = .ok (after, false)) : after = before := by
  unfold attributeOf at h
  split at h
  · cases h
    rfl
  · obtain ⟨records, -, h⟩ := Except.bind_eq_ok_iff.1 h
    obtain ⟨promoted, -, h⟩ := Except.bind_eq_ok_iff.1 h
    split at h
    · cases h
      rfl
    · cases h

theorem eq_of_attributesOf {before : List Attribute} {after : List (Attribute × Bool)}
    (h : attributesOf classes pool before = .ok after) (hnone : after.any Prod.snd = false) :
    after.map Prod.fst = before := by
  have hrelated := Except.mapM_eq_ok_iff.1 h
  clear h
  induction hrelated with
  | nil => rfl
  | @cons entry result others results hentry hothers ih =>
      rw [List.any_cons, Bool.or_eq_false_iff] at hnone
      obtain ⟨changed, touched⟩ := result
      obtain ⟨rfl, hnone⟩ := hnone
      rw [List.map_cons, ih hnone, eq_of_attributeOf hentry]

theorem leavesOn_apply (promotions : Promotions) :
    LeavesOn false fun classFile => (promotions.apply classFile).result := by
  intro before after h
  rcases apply_eq_ok h with ⟨-, rfl⟩ |
    ⟨owner, flags, fields, methods, attributes, -, -, hattributes, rfl, hnone⟩
  · rfl
  · obtain ⟨⟨⟨hflags, hfields⟩, hmethods⟩, hnone⟩ : ((flags = before.flags ∧
        fields = before.fields) ∧ methods = before.methods) ∧ attributes.any Prod.snd = false := by
      simpa only [Bool.false_eq, Bool.or_eq_false_iff, decide_eq_false_iff_not, not_not] using hnone
    rw [hflags, hfields, hmethods, eq_of_attributesOf hattributes hnone]

end Promotions

namespace Tailor

variable {tailor : Tailor} {name : String}

theorem classFile_of_replaceBodies {flags : ClassFlags} {before : ClassFile} {tailored : Tailored}
    (h : (tailor.replaceBodies name flags before).result = .ok tailored)
    (hquiet : tailored.changed = false) : tailored.classFile = before := by
  unfold replaceBodies at h
  split at h
  · cases h
    rfl
  · simp only [Traced.result_bind] at h
    obtain ⟨⟨after, used⟩, happly, h⟩ := Except.bind_eq_ok_iff.1 h
    cases h
    obtain ⟨hused, hnatives⟩ := Bool.or_eq_false_iff.1 hquiet
    rw [hnatives] at happly
    rw [Bool.not_eq_false', Std.ExtTreeSet.isEmpty_iff] at hused
    subst hused
    exact Replace.leavesOn_apply _ _ _ happly

theorem classFile_of_passes {flags : ClassFlags} {before : ClassFile} {tailored : Tailored}
    (h : (tailor.passes name flags before).result = .ok tailored)
    (hquiet : tailored.changed = false) : tailored.classFile = before := by
  simp only [passes, Traced.result_bind, Traced.result_monadLift] at h
  obtain ⟨⟨redirected, count⟩, hredirect, h⟩ := Except.bind_eq_ok_iff.1 h
  obtain ⟨replaced, hreplace, h⟩ := Except.bind_eq_ok_iff.1 h
  obtain ⟨⟨promoted, touched⟩, hpromote, h⟩ := Except.bind_eq_ok_iff.1 h
  obtain ⟨⟨last, renamed⟩, hrename, h⟩ := Except.bind_eq_ok_iff.1 h
  cases h
  simp only [Bool.or_eq_false_iff, decide_eq_false_iff_not, Nat.not_lt, Nat.le_zero] at hquiet
  obtain ⟨⟨⟨rfl, hreplaced⟩, rfl⟩, rfl⟩ := hquiet
  calc last = promoted := Renaming.eq_of_apply_false hrename
    _ = replaced.classFile := Promotions.leavesOn_apply _ _ _ hpromote
    _ = redirected := classFile_of_replaceBodies hreplace hreplaced
    _ = before := Redirect.leavesOn_apply _ _ _ hredirect

theorem changed_of_fit {entry : ClassEntry} {output : OutputClass} {original : ClassFile}
    {tailored : Tailored} (h : (tailor.fit name entry).result = .ok output)
    (hdecode : ClassFile.decode entry.bytes = .ok original)
    (hpasses : (tailor.passes name entry.flags original).result = .ok tailored) :
    output.changed = tailored.changed := by
  simp only [fit, Traced.result_bind, Traced.result_monadLift] at h
  obtain ⟨_, hdecode', h⟩ := Except.bind_eq_ok_iff.1 h
  obtain rfl := Except.ok.inj (hdecode.symm.trans hdecode')
  obtain ⟨_, hpasses', h⟩ := Except.bind_eq_ok_iff.1 h
  obtain rfl := Except.ok.inj (hpasses.symm.trans hpasses')
  cases hchanged : tailored.changed with
  | false =>
      rw [hchanged] at h
      cases h
      rfl
  | true =>
      simp only [hchanged, Bool.not_true, Bool.false_eq_true, if_false, Traced.result_bind,
        Traced.result_monadLift] at h
      obtain ⟨renamed, -, h⟩ := Except.bind_eq_ok_iff.1 h
      split at h <;> cases h <;> rfl

/-- What a class is written as: always as its passes leave it, even when its bytes are copied. -/
structure Passed (tailor : Tailor) (name : String) (entry : ClassEntry) (output : OutputClass)
    (original : ClassFile) (tailored : Tailored) : Prop where
  decodes : ClassFile.decode entry.bytes = .ok original
  passes : (tailor.passes name entry.flags original).result = .ok tailored
  changed : output.changed = tailored.changed
  bytes : output.bytes = tailored.classFile.encode
  unchanged : output.changed = false →
    tailored.classFile = original ∧ output.bytes = entry.bytes

/-- Each of the four passes leaves a class about which it reports nothing, and copying the bytes of
a class about which none of them does comes to the same as writing it anew. -/
theorem written_of_fit (tailor : Tailor) :
    (LeavesOn 0 fun classFile => (Redirect.apply tailor.config.redirects classFile).result) ∧
    (LeavesOn ∅ fun classFile =>
      (Replace.apply tailor.config.replacements false classFile).result) ∧
    (LeavesOn false fun classFile => (tailor.promotions.apply classFile).result) ∧
    LeavesOn false tailor.names.apply ∧
    ∀ name entry output, (tailor.fit name entry).result = .ok output →
      ∃ original tailored, tailor.Passed name entry output original tailored := by
  refine ⟨Redirect.leavesOn_apply _, Replace.leavesOn_apply _, Promotions.leavesOn_apply _,
    fun _ _ => Renaming.eq_of_apply_false, fun name entry output h => ?_⟩
  obtain ⟨original, tailored, hdecode, hpasses, hwritten⟩ := fit_eq_ok h
  have hchanged := changed_of_fit h hdecode hpasses
  have hread : entry.bytes = original.encode := (ClassFile.decode_eq_ok_iff.1 hdecode).2.2
  have hsame (hquiet : tailored.changed = false) := classFile_of_passes hpasses hquiet
  have hbytes : output.bytes = tailored.classFile.encode := by
    rcases hwritten with ⟨hquiet, -, hbytes⟩ | ⟨-, hbytes⟩
    · rw [hbytes, hread, hsame hquiet]
    · exact hbytes
  refine ⟨original, tailored, hdecode, hpasses, hchanged, hbytes, fun hquiet => ?_⟩
  have hsame := hsame (hchanged ▸ hquiet)
  exact ⟨hsame, by rw [hbytes, hsame, hread]⟩

/-- Rules for a class `X` that no class refers to, and the promotion of a class `A`. -/
def tailorForX : Tailor :=
  { config := {
      redirects := [⟨⟨"X", "m", none⟩, "T"⟩], replacements := [⟨⟨"X", "m", none⟩, .throwStub⟩] }
    promotions := ⟨.ofList ["A"], [], []⟩, names := .ofPairs [("X", "Y")] }

/-- A public class `A` that calls `B.m`. -/
def classCallingM : ClassFile :=
  Redirect.classCallingB [.methodRef 8 6] [0xb8, 0, 9, 0xb1]

def entryCallingM : ClassEntry :=
  ⟨classCallingM.encode, "a.jar", ⟨true, true, true, false, false⟩⟩

theorem passes_classCallingM :
    (tailorForX.passes "A" entryCallingM.flags classCallingM).result =
      .ok ⟨classCallingM, false, ∅⟩ := by
  have hredirect : (Redirect.apply tailorForX.config.redirects classCallingM).result =
      .ok (classCallingM, 0) := by cbv
  have hreplace : (tailorForX.replaceBodies "A" entryCallingM.flags classCallingM).result =
      .ok ⟨classCallingM, false, ∅⟩ := by cbv
  have hpromote : (tailorForX.promotions.apply classCallingM).result =
      .ok (classCallingM, false) := by cbv
  have hrename : tailorForX.names.apply classCallingM = .ok (classCallingM, false) := by
    decide +kernel
  simp only [passes, Traced.result_bind, Traced.result_monadLift]
  exact Except.bind_eq_ok_iff.2 ⟨_, hredirect, Except.bind_eq_ok_iff.2 ⟨_, hreplace,
    Except.bind_eq_ok_iff.2 ⟨_, hpromote, Except.bind_eq_ok_iff.2 ⟨_, hrename, rfl⟩⟩⟩⟩

theorem written_of_fit_entryCallingM :
    ∃ output original tailored, (tailorForX.fit "A" entryCallingM).result = .ok output ∧
      output.changed = false ∧ output.bytes = entryCallingM.bytes ∧
      tailorForX.Passed "A" entryCallingM output original tailored := by
  have hfit : (tailorForX.fit "A" entryCallingM).result =
      .ok ⟨"A", entryCallingM.bytes, false, ∅⟩ := by
    simp only [fit, Traced.result_bind, Traced.result_monadLift]
    exact Except.bind_eq_ok_iff.2 ⟨classCallingM, rfl,
      Except.bind_eq_ok_iff.2 ⟨_, passes_classCallingM, rfl⟩⟩
  obtain ⟨original, tailored, hpassed⟩ := (written_of_fit tailorForX).2.2.2.2 _ _ _ hfit
  exact ⟨_, original, tailored, hfit, rfl, rfl, hpassed⟩

end Tailor

end JarTailor
