import JarTailor.Proofs.Edit.Selected
import JarTailor.Proofs.Jar.Linked
import JarTailor.Proofs.Jar.Unchanged

/-!
# Rules that matched no method

The rules that are told as unused are those that are the first match of no method of a kept class.
Bodies are replaced only in the classes that the analysis has marked for it. In the others no rule
could select a method, and no native method would be delegated, so that nothing is lost.

A method is looked at under the name that its index finds once constants have been added. This is
its own name if the index lies inside the pool of the class; behind its end, the index may find the
text of a body that was made before.
-/

namespace JarTailor

namespace Replace

/-- A rule is the first match of a method of the class. -/
def Uses (rules : List ReplaceRule) (classFile : ClassFile) (position : Nat) : Prop :=
  ∃ member ∈ classFile.methods, ∃ method rule,
    Declares classFile member method ∧ FirstMatch rules method position rule

section Used

variable {rules : List ReplaceRule} {natives : Bool} {owner : String}
variable {pool after final : Pool} {member changed : Member} {classFile : ClassFile}

theorem Declares.of_extends {method : MemberRef} (h : Declares classFile member method)
    (hextends : classFile.pool.Extends pool) : Declares { classFile with pool } member method :=
  ⟨hextends.className h.owner, hextends.text h.name, hextends.text h.descriptor, h.isInterface⟩

/-- Only the name of the class and the name and descriptor of the member count. -/
theorem Declares.congr {other : ClassFile} {old new : Member} {method : MemberRef}
    (h : Declares classFile old method) (hpool : other.pool = classFile.pool)
    (hthis : other.thisClass = classFile.thisClass) (hname : new.name = old.name)
    (hdescriptor : new.descriptor = old.descriptor) : Declares other new method := by
  constructor
  · rw [ClassFile.name, hpool, hthis]
    exact h.owner
  · rw [hpool, hname]
    exact h.name
  · rw [hpool, hdescriptor]
    exact h.descriptor
  · exact h.isInterface

theorem Uses.of_extends {position : Nat} (h : Uses rules classFile position)
    (hextends : classFile.pool.Extends pool) : Uses rules { classFile with pool } position := by
  obtain ⟨member, hmember, method, rule, hdeclares, hrule⟩ := h
  exact ⟨member, hmember, method, rule, hdeclares.of_extends hextends, hrule⟩

/-- A method has the name that it has in a larger pool, if its index lies inside its own. -/
theorem Uses.of_inside {position : Nat} (h : Uses rules { classFile with pool } position)
    (hextends : classFile.pool.Extends pool) (hname : classFile.name = .ok owner)
    (hdescriptors : classFile.HasDescriptors)
    (hinside : ∀ member ∈ classFile.methods, member.name.toNat < classFile.pool.size) :
    Uses rules classFile position := by
  obtain ⟨member, hmember, method, rule, hdeclares, hrule⟩ := h
  obtain ⟨descriptor, hdescriptor⟩ := hdescriptors member hmember
  have howner : method.owner = owner :=
    Except.ok.inj (hdeclares.owner.symm.trans (hextends.className hname))
  have hsame : method.descriptor = descriptor :=
    Except.ok.inj (hdeclares.descriptor.symm.trans (hextends.text hdescriptor))
  have hread := hextends.text_of_lt hdeclares.name (hinside member hmember)
  exact ⟨member, hmember, method, rule,
    ⟨howner ▸ hname, hread, hsame ▸ hdescriptor, hdeclares.isInterface⟩, hrule⟩

theorem mem_position_iff {position : Option Nat}
    (h : (method rules natives owner pool member).result = .ok (after, changed, position)) :
    ∃ name descriptor, pool.text member.name = .ok name ∧
      pool.text member.descriptor = .ok descriptor ∧
        ∀ found, found ∈ position ↔
          ∃ rule, FirstMatch rules ⟨owner, name, descriptor, false⟩ found rule := by
  simp only [method, Traced.result_bind, Traced.result_monadLift] at h
  obtain ⟨name, hname, h⟩ := Except.bind_eq_ok_iff.1 h
  obtain ⟨descriptor, hdescriptor, h⟩ := Except.bind_eq_ok_iff.1 h
  refine ⟨name, descriptor, hname, hdescriptor, ?_⟩
  split at h
  · next hchoice =>
      cases h
      simp [(not_chooses_of_choice? hchoice).2]
  · next place action hchoice =>
      -- the position is that of the choice, whether or not there is a body to replace
      have hplace : position = place := by
        split at h
        · simp only [Traced.result_bind] at h
          obtain ⟨_, -, h⟩ := Except.bind_eq_ok_iff.1 h
          cases h
          rfl
        · simp only [Traced.result_bind, Traced.result_monadLift] at h
          obtain ⟨_, -, h⟩ := Except.bind_eq_ok_iff.1 h
          obtain ⟨_, -, h⟩ := Except.bind_eq_ok_iff.1 h
          cases h
          rfl
      rw [hplace]
      exact (chooses_of_choice? hchoice).2

/-- The rules that are used are the first matches of the methods as they are named in the end. -/
theorem mem_positions_iff {members news : List Member} {positions : List Nat}
    (howner : classFile.name = .ok owner)
    (h : (methods rules natives owner pool members).result = .ok (after, news, positions))
    (hsize : pool.size ≤ Pool.capacity) (hstart : classFile.pool.Extends pool)
    (hfinal : after.Extends final) {found : Nat} :
    found ∈ positions ↔ ∃ member ∈ members, ∃ method rule,
      Declares { classFile with pool := final } member method ∧
        FirstMatch rules method found rule := by
  induction members generalizing pool news positions with
  | nil =>
      cases h
      simp
  | cons member members ih =>
      simp only [methods, Traced.result_bind] at h
      obtain ⟨⟨middle, new, position⟩, hmethod, h⟩ := Except.bind_eq_ok_iff.1 h
      obtain ⟨⟨last, others, places⟩, hmethods, h⟩ := Except.bind_eq_ok_iff.1 h
      cases h
      obtain ⟨hfirst, hsize'⟩ := extends_of_method hmethod hsize
      have hrest := extends_of_methods hmethods hsize'
      have hgrown : pool.Extends final := (hfirst.trans hrest).trans hfinal
      obtain ⟨name, descriptor, hname, hdescriptor, hposition⟩ := mem_position_iff hmethod
      have hdeclares : Declares { classFile with pool := final } member
          ⟨owner, name, descriptor, false⟩ :=
        ⟨(hstart.trans hgrown).className howner, hgrown.text hname, hgrown.text hdescriptor, rfl⟩
      apply (List.mem_append.trans (or_congr (Option.mem_toList.trans (hposition found))
        (ih hmethods hsize' (hstart.trans hfirst)))).trans
      rw [List.exists_mem_cons_iff]
      refine or_congr_left ⟨?_, ?_⟩
      · rintro ⟨rule, hrule⟩
        exact ⟨_, rule, hdeclares, hrule⟩
      · rintro ⟨method, rule, hmethod, hrule⟩
        exact ⟨rule, hmethod.unique hdeclares ▸ hrule⟩

theorem mem_used_iff {before result : ClassFile} {used : RuleSet}
    (h : (apply rules natives before).result = .ok (result, used))
    (hsize : before.pool.size ≤ Pool.capacity) :
    before.pool.Extends result.pool ∧ ∀ position,
      position ∈ used ↔ Uses rules { before with pool := result.pool } position := by
  simp only [apply, Traced.result_bind, Traced.result_monadLift] at h
  obtain ⟨owner, howner, h⟩ := Except.bind_eq_ok_iff.1 h
  obtain ⟨⟨pool, members, positions⟩, hmethods, h⟩ := Except.bind_eq_ok_iff.1 h
  cases h
  refine ⟨extends_of_methods hmethods hsize, fun position => ?_⟩
  rw [Std.ExtTreeSet.mem_ofList, List.contains_iff_mem]
  exact mem_positions_iff howner hmethods hsize (.refl _) (.refl _)

/-- Redirecting calls leaves the methods their names. -/
theorem uses_redirected_iff {redirects : List RedirectRule} {called : MemberRef → Prop}
    {before redirected : ClassFile} {position : Nat}
    (h : Redirect.Redirected redirects called before redirected) :
    Uses rules { redirected with pool } position ↔ Uses rules { before with pool } position := by
  have hthis : redirected.thisClass = before.thisClass := by rw [h.others]
  have hsame {old new : Member} (hrewrites : Redirect.Rewrites before.pool old new) :
      new.name = old.name ∧ new.descriptor = old.descriptor := by
    rcases hrewrites with rfl | ⟨_, _, _, _, _, -, -, -, -, -, rfl⟩
    · exact ⟨rfl, rfl⟩
    · exact ⟨rfl, rfl⟩
  constructor
  · rintro ⟨new, hnew, method, rule, hdeclares, hrule⟩
    obtain ⟨old, hold, hrewrites⟩ := exists_related_left h.methods hnew
    obtain ⟨hname, hdescriptor⟩ := hsame hrewrites
    exact ⟨old, hold, method, rule,
      hdeclares.congr rfl hthis.symm hname.symm hdescriptor.symm, hrule⟩
  · rintro ⟨old, hold, method, rule, hdeclares, hrule⟩
    obtain ⟨new, hnew, hrewrites⟩ := exists_related_right h.methods hold
    obtain ⟨hname, hdescriptor⟩ := hsame hrewrites
    exact ⟨new, hnew, method, rule, hdeclares.congr rfl hthis hname hdescriptor, hrule⟩

/-- Where no rule is about a class and natives are not delegated, nothing is chosen for a method. -/
theorem not_chooses_of_not_selects
    (hnone : ∀ rule ∈ rules, ∀ name descriptor, rule.selects owner name descriptor = false)
    {method : MemberRef} (howner : method.owner = owner) :
    (∀ position rule, ¬FirstMatch rules method position rule) ∧
      ∀ flags action, ¬Chooses rules false method flags action := by
  have hfirst : ∀ position rule, ¬FirstMatch rules method position rule := by
    intro position rule hrule
    have hnot := hnone rule (List.mem_of_getElem? hrule.found) method.name method.descriptor
    rw [← howner, hrule.selects] at hnot
    cases hnot
  refine ⟨hfirst, ?_⟩
  rintro flags action (⟨hrule⟩ | ⟨-, hnatives, -⟩)
  · exact hfirst _ _ hrule
  · cases hnatives

theorem not_uses_of_not_selects
    (hnone : ∀ rule ∈ rules, ∀ name descriptor, rule.selects owner name descriptor = false)
    (hextends : classFile.pool.Extends pool) (hname : classFile.name = .ok owner)
    (position : Nat) : ¬Uses rules { classFile with pool } position := by
  rintro ⟨member, -, method, rule, hdeclares, hrule⟩
  have howner : method.owner = owner :=
    Except.ok.inj (hdeclares.owner.symm.trans (hextends.className hname))
  exact (not_chooses_of_not_selects hnone howner).1 position rule hrule

end Used

end Replace

/-- A class whose bodies are not to be replaced is in no rule, and none of its natives is to be
delegated. -/
theorem Config.not_selects_of_replacesBodiesOf {config : Config} {name : String}
    (h : config.replacesBodiesOf name = false) :
    config.delegatesNatives name = false ∧ ∀ rule ∈ config.replacements, ∀ method descriptor,
      rule.selects name method descriptor = false := by
  obtain ⟨hnatives, hrules⟩ := Bool.or_eq_false_iff.1 h
  refine ⟨hnatives, fun rule hrule method descriptor => ?_⟩
  by_contra hselects
  rw [Bool.not_eq_false] at hselects
  have howner := (MemberSpec.selects_iff.1 hselects).1
  have hother := List.any_eq_false.1 hrules rule hrule
  exact hother (beq_iff_eq.2 howner)

namespace Tailor

variable {tailor : Tailor} {name : String} {original : ClassFile}

theorem used_of_fit {entry : ClassEntry} {output : OutputClass}
    (h : (tailor.fit name entry).result = .ok output)
    (hdecode : ClassFile.decode entry.bytes = .ok original) :
    ∃ redirected count replaced,
      (Redirect.apply tailor.config.redirects original).result = .ok (redirected, count) ∧
        (tailor.replaceBodies name entry.flags redirected).result = .ok replaced ∧
          output.used = replaced.used := by
  simp only [fit, passes, Traced.result_bind, Traced.result_monadLift] at h
  obtain ⟨_, hdecode', h⟩ := Except.bind_eq_ok_iff.1 h
  obtain rfl := Except.ok.inj (hdecode.symm.trans hdecode')
  obtain ⟨tailored, hpasses, h⟩ := Except.bind_eq_ok_iff.1 h
  obtain ⟨⟨redirected, count⟩, hredirect, hpasses⟩ := Except.bind_eq_ok_iff.1 hpasses
  obtain ⟨replaced, hreplace, hpasses⟩ := Except.bind_eq_ok_iff.1 hpasses
  obtain ⟨_, -, hpasses⟩ := Except.bind_eq_ok_iff.1 hpasses
  obtain ⟨_, -, hpasses⟩ := Except.bind_eq_ok_iff.1 hpasses
  cases hpasses
  refine ⟨redirected, count, replaced, hredirect, hreplace, ?_⟩
  split at h
  · cases h
    rfl
  · simp only [Traced.result_bind, Traced.result_monadLift] at h
    obtain ⟨_, -, h⟩ := Except.bind_eq_ok_iff.1 h
    split at h <;> cases h <;> rfl

/-- The rules used for a class are the first matches of its methods as they are named once bodies
have been replaced, if the class is marked for it where it has to be. -/
theorem mem_used_of_replaceBodies {flags : ClassFlags} {redirected : ClassFile} {count : Nat}
    {replaced : Tailored}
    (hredirect : (Redirect.apply tailor.config.redirects original).result =
      .ok (redirected, count))
    (h : (tailor.replaceBodies name flags redirected).result = .ok replaced)
    (hsize : original.pool.size ≤ Pool.capacity) (hname : original.name = .ok name)
    (hflag : flags.stubbed = false → tailor.config.replacesBodiesOf name = false) :
    original.pool.Extends replaced.classFile.pool ∧ ∀ position,
      position ∈ replaced.used ↔ Replace.Uses tailor.config.replacements
        { original with pool := replaced.classFile.pool } position := by
  have hredirected := ClassFile.redirected_of_edit (Except.map_eq_ok_iff.2 ⟨_, hredirect, rfl⟩)
    hsize
  unfold replaceBodies at h
  split at h
  · next hunmarked =>
      cases h
      rw [Bool.not_eq_true'] at hunmarked
      have hrules := (Config.not_selects_of_replacesBodiesOf (hflag hunmarked)).2
      refine ⟨hredirected.gains.extends, fun position => ?_⟩
      exact iff_of_false Std.ExtTreeSet.not_mem_empty
        (Replace.not_uses_of_not_selects hrules hredirected.gains.extends hname position)
  · simp only [Traced.result_bind] at h
    obtain ⟨⟨after, used⟩, happly, hreplaced⟩ := Except.bind_eq_ok_iff.1 h
    cases hreplaced
    obtain ⟨hgrown, hused⟩ := Replace.mem_used_iff happly (hredirected.gains.size_le hsize)
    refine ⟨hredirected.gains.extends.trans hgrown, fun position => ?_⟩
    exact (hused position).trans (Replace.uses_redirected_iff hredirected)

/-- Bodies need not be replaced in a class that is not marked for it: it would make no difference if
they were. -/
theorem replaceBodies_of_not_replacesBodiesOf {flags : ClassFlags} {redirected : ClassFile}
    {count : Nat} {replaced : Tailored}
    (hredirect : (Redirect.apply tailor.config.redirects original).result =
      .ok (redirected, count))
    (h : (tailor.replaceBodies name flags redirected).result = .ok replaced)
    (hsize : original.pool.size ≤ Pool.capacity) (hname : original.name = .ok name)
    (hnone : tailor.config.replacesBodiesOf name = false) :
    replaced = ⟨redirected, false, ∅⟩ := by
  obtain ⟨hnatives, hrules⟩ := Config.not_selects_of_replacesBodiesOf hnone
  obtain ⟨hextends, hused⟩ := mem_used_of_replaceBodies hredirect h hsize hname fun _ => hnone
  have hempty : replaced.used = ∅ := by
    refine Std.ExtTreeSet.ext_mem fun position => (hused position).trans ?_
    exact iff_of_false (Replace.not_uses_of_not_selects hrules hextends hname position)
      Std.ExtTreeSet.not_mem_empty
  unfold replaceBodies at h
  split at h
  · cases h
    rfl
  · simp only [Traced.result_bind] at h
    obtain ⟨⟨after, used⟩, happly, hreplaced⟩ := Except.bind_eq_ok_iff.1 h
    cases hreplaced
    obtain rfl : used = ∅ := hempty
    rw [hnatives] at happly ⊢
    obtain rfl := Replace.leavesOn_apply _ _ _ happly
    rfl

end Tailor

/-- A kept class as it is read. -/
structure Analysis.Reads (analysis : Analysis) (name : String) (entry : ClassEntry)
    (original : ClassFile) : Prop where
  kept : (name, entry) ∈ analysis.kept
  decodes : ClassFile.decode entry.bytes = .ok original

namespace Analysis

/-- Every kept class declares the name that it is held under. -/
def DeclaresKeys (analysis : Analysis) : Prop :=
  ∀ name entry original, analysis.Reads name entry original → original.name = .ok name

/-- The methods of the kept classes have their names inside the pool. -/
def NamesInside (analysis : Analysis) : Prop :=
  ∀ name entry original, analysis.Reads name entry original →
    ∀ member ∈ original.methods, member.name.toNat < original.pool.size

/-- A rule is the first match of a method of a kept class. -/
def Uses (analysis : Analysis) (rules : List ReplaceRule) (position : Nat) : Prop :=
  ∃ name entry original, analysis.Reads name entry original ∧ Replace.Uses rules original position

/-- What becomes of a kept class when its bodies are replaced. -/
structure Replaces (analysis : Analysis) (config : Config) (name : String) (entry : ClassEntry)
    (original : ClassFile) (replaced : Tailored) : Prop extends
    analysis.Reads name entry original where
  runs : ∃ tailor redirected count, Tailor.ofConfig config = .ok tailor ∧
    (Redirect.apply config.redirects original).result = .ok (redirected, count) ∧
      (tailor.replaceBodies name entry.flags redirected).result = .ok replaced

/-- A rule is the first match of a method of a kept class, where the names of methods are read once
bodies have been replaced. -/
def UsesInTheEnd (analysis : Analysis) (config : Config) (position : Nat) : Prop :=
  ∃ name entry original replaced, analysis.Replaces config name entry original replaced ∧
    Replace.Uses config.replacements { original with pool := replaced.classFile.pool } position

section Kept

variable {config : Config} {scan : Scan} {analysis : Analysis} {name : String}
variable {entry : ClassEntry} {original : ClassFile} {replaced : Tailored}

theorem Reads.hasDescriptors (h : analysis.Reads name entry original)
    (hanalyze : (analyze config scan).result = .ok analysis) : original.HasDescriptors := by
  obtain ⟨references, uses, -, hknown⟩ := exists_refers_of_mem_kept hanalyze h.kept h.decodes
  exact fun member hmember => Tailor.exists_descriptor_of_known hknown hmember

theorem Reads.stubbed (h : analysis.Reads name entry original)
    (hanalyze : (analyze config scan).result = .ok analysis) :
    entry.flags.stubbed = config.replacesBodiesOf name := by
  obtain ⟨found, -, -, -, -, hflag⟩ := exists_found_of_mem_kept hanalyze h.kept
  exact hflag

theorem Replaces.mem_used_iff (h : analysis.Replaces config name entry original replaced)
    (hanalyze : (analyze config scan).result = .ok analysis) (hkeys : analysis.DeclaresKeys) :
    original.pool.Extends replaced.classFile.pool ∧ ∀ position,
      position ∈ replaced.used ↔ Replace.Uses config.replacements
        { original with pool := replaced.classFile.pool } position := by
  obtain ⟨tailor, redirected, count, htailor, hredirect, hreplace⟩ := h.runs
  obtain rfl := (Tailor.ofConfig_eq_ok htailor).1
  exact Tailor.mem_used_of_replaceBodies hredirect hreplace
    (ClassFile.sound_of_decode h.decodes).size_le (hkeys _ _ _ h.toReads)
    (h.stubbed hanalyze).symm.trans

theorem Replaces.unique {other : ClassFile} {replaced' : Tailored}
    (h : analysis.Replaces config name entry original replaced)
    (h' : analysis.Replaces config name entry other replaced') :
    original = other ∧ replaced = replaced' := by
  obtain rfl : original = other := Except.ok.inj (h.decodes.symm.trans h'.decodes)
  obtain ⟨tailor, redirected, count, htailor, hredirect, hreplace⟩ := h.runs
  obtain ⟨tailor', redirected', count', htailor', hredirect', hreplace'⟩ := h'.runs
  cases htailor.symm.trans htailor'
  cases hredirect.symm.trans hredirect'
  exact ⟨rfl, Except.ok.inj (hreplace.symm.trans hreplace')⟩

theorem exists_replaces_of_fit {tailor : Tailor} {output : OutputClass}
    (htailor : Tailor.ofConfig config = .ok tailor) (hkept : (name, entry) ∈ analysis.kept)
    (hfit : (tailor.fit name entry).result = .ok output) :
    ∃ original replaced, analysis.Replaces config name entry original replaced ∧
      output.used = replaced.used := by
  obtain rfl := (Tailor.ofConfig_eq_ok htailor).1
  obtain ⟨original, -, hdecode, -⟩ := Tailor.fit_eq_ok hfit
  obtain ⟨redirected, count, replaced, hredirect, hreplace, hsame⟩ :=
    Tailor.used_of_fit hfit hdecode
  exact ⟨original, replaced,
    ⟨⟨hkept, hdecode⟩, tailor, redirected, count, htailor, hredirect, hreplace⟩, hsame⟩

/-- The rules that are used for the classes in the output. -/
theorem usesInTheEnd_iff {tailor : Tailor} {outputs : List OutputClass} {position : Nat}
    (hanalyze : (analyze config scan).result = .ok analysis) (hkeys : analysis.DeclaresKeys)
    (htailor : Tailor.ofConfig config = .ok tailor)
    (hfits : List.Forall₂ (fun entry output => (tailor.fit entry.1 entry.2).result = .ok output)
      analysis.kept outputs) :
    (∃ output ∈ outputs, position ∈ output.used) ↔ analysis.UsesInTheEnd config position := by
  constructor
  · rintro ⟨output, houtput, hposition⟩
    obtain ⟨⟨name, entry⟩, hkept, hfit⟩ := exists_related_left hfits houtput
    obtain ⟨original, replaced, hreplaces, hsame⟩ := exists_replaces_of_fit htailor hkept hfit
    have hused := (hreplaces.mem_used_iff hanalyze hkeys).2 position
    exact ⟨name, entry, original, replaced, hreplaces, hused.1 (hsame ▸ hposition)⟩
  · rintro ⟨name, entry, original, replaced, hreplaces, huses⟩
    obtain ⟨output, houtput, hfit⟩ := exists_related_right hfits hreplaces.kept
    obtain ⟨_, _, hreplaces', hsame⟩ := exists_replaces_of_fit htailor hreplaces.kept hfit
    obtain ⟨rfl, rfl⟩ := hreplaces.unique hreplaces'
    have hused := (hreplaces.mem_used_iff hanalyze hkeys).2 position
    exact ⟨output, houtput, hsame ▸ hused.2 huses⟩

/-- A method has its own name in the end. -/
theorem Uses.inTheEnd {tailor : Tailor} {outputs : List OutputClass} {position : Nat}
    (h : analysis.Uses config.replacements position)
    (hanalyze : (analyze config scan).result = .ok analysis) (hkeys : analysis.DeclaresKeys)
    (htailor : Tailor.ofConfig config = .ok tailor)
    (hfits : List.Forall₂ (fun entry output => (tailor.fit entry.1 entry.2).result = .ok output)
      analysis.kept outputs) : analysis.UsesInTheEnd config position := by
  obtain ⟨name, entry, original, hreads, huses⟩ := h
  obtain ⟨output, houtput, hfit⟩ := exists_related_right hfits hreads.kept
  obtain ⟨original', replaced, hreplaces, -⟩ := exists_replaces_of_fit htailor hreads.kept hfit
  obtain rfl : original = original' := Except.ok.inj (hreads.decodes.symm.trans hreplaces.decodes)
  have hextends := (hreplaces.mem_used_iff hanalyze hkeys).1
  exact ⟨name, entry, original, replaced, hreplaces, huses.of_extends hextends⟩

theorem UsesInTheEnd.uses {position : Nat} (h : analysis.UsesInTheEnd config position)
    (hanalyze : (analyze config scan).result = .ok analysis) (hkeys : analysis.DeclaresKeys)
    (hinside : analysis.NamesInside) : analysis.Uses config.replacements position := by
  obtain ⟨name, entry, original, replaced, hreplaces, huses⟩ := h
  have hreads := hreplaces.toReads
  have hextends := (hreplaces.mem_used_iff hanalyze hkeys).1
  exact ⟨name, entry, original, hreads, huses.of_inside hextends (hkeys _ _ _ hreads)
    (hreads.hasDescriptors hanalyze) (hinside _ _ _ hreads)⟩

end Kept

end Analysis

open Classical in
/-- The unused rules are told, in their order and each as often as it stands in the
configuration. -/
def Generated.Tells (generated : Generated) (config : Config) (used : Nat → Prop) : Prop :=
  generated.unusedRules =
    (config.replacements.zipIdx.filter fun (_, position) => ¬used position).map
      fun (rule, _) => rule.pattern.text

theorem Generated.tells_unused {config : Config} {generated : Generated} {set : Replace.RuleSet}
    {used : Nat → Prop} (h : generated.unusedRules = Generated.unused config set)
    (hused : ∀ position, position ∈ set ↔ used position) : generated.Tells config used := by
  refine h.trans (congrArg (List.map _) (List.filter_congr ?_))
  rintro ⟨rule, position⟩ -
  rw [Bool.eq_iff_iff]
  simp only [Bool.not_eq_true', decide_eq_true_eq, ← hused, Std.ExtTreeSet.mem_iff_contains,
    Bool.not_eq_true]

theorem Generated.Tells.congr {config : Config} {generated : Generated} {used used' : Nat → Prop}
    (h : generated.Tells config used) (hsame : ∀ position, used position ↔ used' position) :
    generated.Tells config used' := by
  obtain rfl : used = used' := funext fun position => propext (hsame position)
  exact h

/-- No method of a class gets another body, by a rule or as a native method, and the pass over its
bodies does nothing whether or not the class is marked for it. -/
structure Config.PassesOver (config : Config) (name : String) (original : ClassFile) : Prop where
  chooses : ∀ method : MemberRef, method.owner = name → ∀ flags action,
    ¬Replace.Chooses config.replacements (config.delegatesNatives name) method flags action
  replaces : ∀ tailor redirected count flags replaced, Tailor.ofConfig config = .ok tailor →
    (Redirect.apply config.redirects original).result = .ok (redirected, count) →
      (tailor.replaceBodies name flags redirected).result = .ok replaced →
        replaced = ⟨redirected, false, ∅⟩

/-- Which rules are told as unused: those that are the first match of no method of a kept class as
its methods are named in the end, which are their own names inside the pool. Classes that are not
marked for it have no bodies to replace. -/
structure Generated.TellsUnused (config : Config) (analysis : Analysis) (generated : Generated) :
    Prop where
  told : generated.Tells config (analysis.UsesInTheEnd config)
  found : ∀ position, analysis.Uses config.replacements position →
    analysis.UsesInTheEnd config position
  inside : analysis.NamesInside → generated.Tells config (analysis.Uses config.replacements)
  spared : ∀ name entry original, analysis.Reads name entry original →
    entry.flags.stubbed = false → config.PassesOver name original

theorem Config.passesOver_of_replacesBodiesOf {config : Config} {name : String}
    {original : ClassFile} (h : config.replacesBodiesOf name = false)
    (hname : original.name = .ok name) (hsize : original.pool.size ≤ Pool.capacity) :
    config.PassesOver name original := by
  obtain ⟨hnatives, hrules⟩ := not_selects_of_replacesBodiesOf h
  constructor
  · intro method howner
    rw [hnatives]
    exact (Replace.not_chooses_of_not_selects hrules howner).2
  · intro tailor redirected count flags replaced htailor hredirect hreplace
    obtain rfl := (Tailor.ofConfig_eq_ok htailor).1
    exact Tailor.replaceBodies_of_not_replacesBodiesOf hredirect hreplace hsize hname h

namespace Tailor

theorem tells_of_generate {config : Config} {analysis : Analysis} {generated : Generated}
    (h : (generate config analysis).result = .ok generated) :
    ∃ tailor outputs, ofConfig config = .ok tailor ∧
      List.Forall₂ (fun entry output => (tailor.fit entry.1 entry.2).result = .ok output)
        analysis.kept outputs ∧
      generated.Tells config fun position => ∃ output ∈ outputs, position ∈ output.used := by
  simp only [generate, Traced.result_bind, Traced.result_monadLift] at h
  obtain ⟨tailor, htailor, h⟩ := Except.bind_eq_ok_iff.1 h
  obtain ⟨⟨classes, outputs⟩, hfit, h⟩ := Except.bind_eq_ok_iff.1 h
  obtain ⟨_, -, h⟩ := Except.bind_eq_ok_iff.1 h
  obtain ⟨_, -, h⟩ := Except.bind_eq_ok_iff.1 h
  cases h
  refine ⟨tailor, outputs, htailor, (adds_of_fitAll hfit).1, Generated.tells_unused rfl ?_⟩
  intro position
  rw [Std.ExtTreeSet.mem_ofList, List.contains_iff_mem, List.mem_flatMap]
  simp only [Std.ExtTreeSet.mem_toList]

end Tailor

/-- The rules that are the first match of no method of a kept class are told as unused, and no
others if the methods have their names inside the pool. -/
theorem Generated.tellsUnused_of_generate {config : Config} {scan : Scan} {analysis : Analysis}
    {generated : Generated} (hanalyze : (analyze config scan).result = .ok analysis)
    (hkeys : analysis.DeclaresKeys) (h : (generate config analysis).result = .ok generated) :
    generated.TellsUnused config analysis := by
  obtain ⟨tailor, outputs, htailor, hfits, htells⟩ := Tailor.tells_of_generate h
  have hfound : ∀ position, analysis.Uses config.replacements position →
      analysis.UsesInTheEnd config position :=
    fun _ huses => huses.inTheEnd hanalyze hkeys htailor hfits
  have htold : generated.Tells config (analysis.UsesInTheEnd config) := by
    refine htells.congr fun position => ?_
    exact Analysis.usesInTheEnd_iff hanalyze hkeys htailor hfits
  refine ⟨htold, hfound, fun hinside => ?_, fun name entry original hreads hunmarked => ?_⟩
  · refine htold.congr fun position => ⟨fun huses => ?_, hfound position⟩
    exact huses.uses hanalyze hkeys hinside
  · rw [hreads.stubbed hanalyze] at hunmarked
    exact Config.passesOver_of_replacesBodiesOf hunmarked (hkeys _ _ _ hreads)
      (ClassFile.sound_of_decode hreads.decodes).size_le

/-- In an analysis of one class, only this class is read. -/
theorem Analysis.Reads.of_single {config : Config} {analysis : Analysis} {own name : String}
    {entry : ClassEntry} {classFile original : ClassFile}
    (hdecode : ClassFile.decode classFile.encode = .ok classFile)
    (hanalyze : (analyze config (.single own classFile)).result = .ok analysis)
    (h : analysis.Reads name entry original) : name = own ∧ original = classFile := by
  obtain ⟨found, hfound, hbytes, -⟩ := exists_found_of_mem_kept hanalyze h.kept
  exact Scan.decode_of_single hdecode hfound (hbytes ▸ h.decodes)

/-- An abstract class `A` with a method `m`. -/
def classWithM : ClassFile :=
  { minor := 0, major := 52
    pool := ⟨#[.unusable, .utf8 (Utf8.encode "A"), .classRef 1, .utf8 (Utf8.encode "m"),
      .utf8 (Utf8.encode "()V")]⟩
    flags := 0x421, thisClass := 2, superClass := 0, interfaces := [], fields := []
    methods := [⟨1, 3, 4, []⟩], attributes := [] }

/-- A body is made for `m`, and the other rule is for a method with the name of its attribute. -/
def configWithRuleForCode : Config :=
  { includes := ["A"]
    replacements := [⟨⟨"A", "m", none⟩, .returnZero⟩, ⟨⟨"A", "Code", none⟩, .returnZero⟩] }

theorem Generated.tellsUnused_of_generate_classWithM :
    ∃ analysis generated,
      (analyze configWithRuleForCode (.single "A" classWithM)).result = .ok analysis ∧
        analysis.DeclaresKeys ∧ analysis.NamesInside ∧
        (generate configWithRuleForCode analysis).result = .ok generated ∧
        generated.TellsUnused configWithRuleForCode analysis ∧
        generated.unusedRules = ["A#Code"] := by
  have hboth : ((analyze configWithRuleForCode (.single "A" classWithM)).result >>=
      fun analysis => (generate configWithRuleForCode analysis).result).map (·.unusedRules) =
        .ok ["A#Code"] := by cbv
  obtain ⟨generated, hgenerated, hunused⟩ := Except.map_eq_ok_iff.1 hboth
  obtain ⟨analysis, hanalyze, hgenerate⟩ := Except.bind_eq_ok_iff.1 hgenerated
  have hdecode : ClassFile.decode classWithM.encode = .ok classWithM := rfl
  have hkeys : analysis.DeclaresKeys := by
    intro name entry original hreads
    obtain ⟨rfl, rfl⟩ := hreads.of_single hdecode hanalyze
    rfl
  have hinside : analysis.NamesInside := by
    intro name entry original hreads
    obtain ⟨rfl, rfl⟩ := hreads.of_single hdecode hanalyze
    decide
  exact ⟨analysis, generated, hanalyze, hkeys, hinside, hgenerate,
    tellsUnused_of_generate hanalyze hkeys hgenerate, hunused⟩

/-- The class with an abstract method more, whose name index is the length of the pool. -/
def classWithLateName : ClassFile :=
  { classWithM with methods := [⟨1, 3, 4, []⟩, ⟨0x401, 5, 4, []⟩] }

theorem not_uses_classWithLateName : ¬Replace.Uses configWithRuleForCode.replacements
    classWithLateName 1 := by
  rintro ⟨member, hmember, method, rule, hdeclares, hrule⟩
  cases hrule.found
  have hname : method.name = "Code" := (MemberSpec.selects_iff.1 hrule.selects).2.1.symm
  have hunnamed : ∀ member ∈ classWithLateName.methods,
      classWithLateName.pool.text member.name ≠ .ok "Code" := by
    decide
  exact hunnamed member hmember (hname ▸ hdeclares.name)

/-- The index of the abstract method finds the name of the body that was made for `m`, so that the
rule for this name counts as used. -/
theorem Generated.not_tells_classWithLateName :
    ∃ analysis generated,
      (analyze configWithRuleForCode (.single "A" classWithLateName)).result = .ok analysis ∧
        analysis.DeclaresKeys ∧
        (generate configWithRuleForCode analysis).result = .ok generated ∧
        ¬generated.Tells configWithRuleForCode
          (analysis.Uses configWithRuleForCode.replacements) := by
  have hboth : ((analyze configWithRuleForCode (.single "A" classWithLateName)).result >>=
      fun analysis => (generate configWithRuleForCode analysis).result).map (·.unusedRules) =
        .ok [] := by cbv
  obtain ⟨generated, hgenerated, hunused⟩ := Except.map_eq_ok_iff.1 hboth
  obtain ⟨analysis, hanalyze, hgenerate⟩ := Except.bind_eq_ok_iff.1 hgenerated
  have hdecode : ClassFile.decode classWithLateName.encode = .ok classWithLateName := rfl
  have hkeys : analysis.DeclaresKeys := by
    intro name entry original hreads
    obtain ⟨rfl, rfl⟩ := hreads.of_single hdecode hanalyze
    rfl
  refine ⟨analysis, generated, hanalyze, hkeys, hgenerate, fun htells => ?_⟩
  have hnone := List.map_eq_nil_iff.1 (htells.symm.trans hunused)
  have hrule : (⟨⟨"A", "Code", none⟩, .returnZero⟩, 1) ∈
      configWithRuleForCode.replacements.zipIdx := by decide
  have hfiltered := List.filter_eq_nil_iff.1 hnone _ hrule
  simp only [decide_eq_true_eq, not_not] at hfiltered
  obtain ⟨name, entry, original, hreads, huses⟩ := hfiltered
  obtain ⟨-, rfl⟩ := hreads.of_single hdecode hanalyze
  exact not_uses_classWithLateName huses

end JarTailor
