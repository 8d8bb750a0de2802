import JarTailor.Config.Validate
import JarTailor.Proofs.Edit.Collected

/-!
# Whether renaming reaches every name

When no new name is an old one or lies around one, a renamed class names no class that there is a
rule for. There is one exception: a signature may write a nested class behind the class around it,
and follows the rule for that class only.
-/

namespace JarTailor.Renaming

open TypeUse

/-- No new name is an old one, or that of a class around an old one. -/
structure Apart (names : Renaming) : Prop where
  ne : ∀ {old new source target : String}, names.table[old]? = some new →
    names.table[source]? = some target → new ≠ source
  around : ∀ {old new source target : String}, names.table[old]? = some new →
    names.table[source]? = some target → ∀ inner, source ≠ new ++ "$" ++ inner

theorem apart_ofPairs {pairs : List (String × String)}
    (h : ∀ rule ∈ pairs, ∀ other ∈ pairs, rule.2 ≠ other.1 ∧
      ∀ inner, other.1 ≠ rule.2 ++ "$" ++ inner) : (ofPairs pairs).Apart :=
  ⟨fun hrule hother => (h _ (mem_of_getElem?_ofPairs hrule) _ (mem_of_getElem?_ofPairs hother)).1,
    fun hrule hother => (h _ (mem_of_getElem?_ofPairs hrule) _ (mem_of_getElem?_ofPairs hother)).2⟩

section Apart

variable {names : Renaming} (hapart : names.Apart)

include hapart

theorem mapClass_eq_none_of_around {name inner target : String}
    (hsource : names.table[names.rename name ++ "$" ++ inner]? = some target) :
    names.mapClass name = none := by
  rcases rename_cases names name with ⟨hnone, -⟩ | ⟨source, new, rest, hrule, -, hrename, hrest⟩
  · exact hnone
  · rw [hrename] at hsource
    rcases hrest with rfl | ⟨middle, rfl⟩
    · rw [String.append_empty] at hsource
      exact absurd rfl (hapart.around hrule hsource inner)
    · refine absurd ?_ (hapart.around hrule hsource (middle ++ "$" ++ inner))
      simp only [String.append_assoc]

theorem rename_notMem (name : String) : names.rename name ∉ names.table := by
  intro hmem
  obtain ⟨target, htarget⟩ := mem_iff_exists_getElem?.1 hmem
  rcases rename_cases names name with ⟨hnone, hsame⟩ | ⟨source, new, rest, hrule, -, hrename, hrest⟩
  · rw [hsame] at htarget
    rw [mapClass, htarget] at hnone
    cases hnone
  · rw [hrename] at htarget
    rcases hrest with rfl | ⟨inner, rfl⟩
    · rw [String.append_empty] at htarget
      exact hapart.ne hrule htarget rfl
    · exact hapart.around hrule htarget inner (String.append_assoc ..).symm

/-- What a class becomes that lies around an old name is written behind a class without a rule, and
stays. -/
theorem eq_of_becomes_around {old new inner target : String}
    (h : Signature.Becomes names.rename old new)
    (hsource : names.table[new ++ "$" ++ inner]? = some target) :
    new = old ∧ ∃ outer, names.mapClass outer = none ∧
      (old = outer ∨ ∃ inner, old = outer ++ "$" ++ inner) := by
  induction h generalizing inner with
  | renamed name =>
      have hnone := mapClass_eq_none_of_around hapart hsource
      refine ⟨?_, name, hnone, Or.inl rfl⟩
      rw [rename, hnone, Option.getD_none]
  | @nested old new segment _ ih =>
      have hassoc : new ++ "$" ++ segment ++ "$" ++ inner =
          new ++ "$" ++ (segment ++ "$" ++ inner) := by
        simp only [String.append_assoc]
      rw [hassoc] at hsource
      obtain ⟨rfl, outer, hnone, hold⟩ := ih hsource
      refine ⟨rfl, outer, hnone, Or.inr ?_⟩
      rcases hold with rfl | ⟨middle, rfl⟩
      · exact ⟨segment, rfl⟩
      · exact ⟨middle ++ "$" ++ segment, by simp only [String.append_assoc]⟩

/-- Of the names in a signature only a nested one may be one that there is a rule for, and only when
the class that it is written behind has none. -/
theorem eq_of_becomes_mem {old new : String} (h : Signature.Becomes names.rename old new)
    (hmem : new ∈ names.table) :
    new = old ∧ ∃ outer inner, new = outer ++ "$" ++ inner ∧ names.mapClass outer = none := by
  obtain ⟨target, htarget⟩ := mem_iff_exists_getElem?.1 hmem
  cases h with
  | renamed => exact absurd hmem (rename_notMem hapart old)
  | nested segment hbecomes =>
      obtain ⟨rfl, outer, hnone, hold⟩ := eq_of_becomes_around hapart hbecomes htarget
      refine ⟨rfl, outer, ?_⟩
      rcases hold with rfl | ⟨middle, rfl⟩
      · exact ⟨segment, rfl, hnone⟩
      · exact ⟨middle ++ "$" ++ segment, by simp only [String.append_assoc], hnone⟩

end Apart

/-- A renamed class names no class that there is a rule for, but in its signatures nested classes
that it named before, behind classes without a rule. -/
theorem ruleless_of_apply {names : Renaming} {before after : ClassFile} {references : References}
    {changed : Bool} (hadmissible : names.Admissible) (hapart : names.Apart)
    (hreferences : References.ofClass before = .ok references)
    (happly : names.apply before = .ok (after, changed))
    (hkeeps : KeepsAttributeNames before after) :
    ∃ table, roles after = .ok table ∧ ∀ index role, table[index]? = some role →
      ∃ old found, References.ofText before.pool index role = .ok old ∧
        References.ofText after.pool index role = .ok found ∧
        ∀ name ∈ found, name ∈ names.table → role = .signature ∧ name ∈ old ∧
          ∃ outer inner, name = outer ++ "$" ++ inner ∧ names.mapClass outer = none := by
  obtain ⟨uses, hknown⟩ := References.known_of_ofClass hreferences
  obtain ⟨table, htable⟩ := hknown.exists_roles
  refine ⟨table, (roles_of_apply happly hkeeps).trans htable, fun index role hrole => ?_⟩
  have hfirst : First uses ⟨index, role⟩ := (mem_roles_iff htable hknown.all).1
    (Std.ExtTreeMap.mem_toList_iff_getElem?_eq_some.2 hrole)
  obtain ⟨text, mapped, htext, hmapped, hnew⟩ := rewrites_of_apply hknown happly hfirst
  obtain ⟨old, found, hold, hfound, hbecomes⟩ := becomes_mapText hadmissible hmapped
  refine ⟨old, found, References.ofText_eq_ok_iff.2 ⟨text, htext, hold⟩,
    References.ofText_eq_ok_iff.2 ⟨_, hnew, hfound⟩, fun name hname hmem => ?_⟩
  rcases hbecomes with rfl | ⟨rfl, hbecomes⟩
  · obtain ⟨source, -, rfl⟩ := List.mem_map.1 hname
    exact absurd hmem (rename_notMem hapart source)
  · obtain ⟨source, hsource, hbecomes⟩ := exists_related_left hbecomes hname
    obtain ⟨rfl, hwritten⟩ := eq_of_becomes_mem hapart hbecomes hmem
    exact ⟨rfl, hsource, hwritten⟩

/-- A nested class gets a name of its own. -/
def configRenamingNested : Config :=
  { renames := [⟨"A$B", "C"⟩] }

def renamingNested : Renaming :=
  ofPairs configRenamingNested.renameTable

theorem renamingNested_eq : renamingNested = ofPairs [("A$B", "C")] := by
  have hsource : internalName "A$B" = "A$B" := by cbv
  have htarget : internalName "C" = "C" := by cbv
  rw [renamingNested, configRenamingNested, Config.renameTable, List.map_singleton, hsource,
    htarget]

theorem admissible_renamingNested : renamingNested.Admissible := by
  rw [renamingNested_eq]
  exact admissible_ofPairs (by decide)

theorem apart_renamingNested : renamingNested.Apart := by
  rw [renamingNested_eq]
  refine apart_ofPairs ?_
  simp only [List.mem_singleton, forall_eq]
  refine ⟨by decide, fun inner heq => ?_⟩
  have hhead := congrArg (·.toList.head?) heq
  simp at hhead

theorem ne_nested_renamingNested {old new source target : String}
    (hnew : renamingNested.table[old]? = some new)
    (hsource : renamingNested.table[source]? = some target) (inner : String) :
    new ≠ source ++ "$" ++ inner := by
  rw [renamingNested_eq] at hnew hsource
  cases List.mem_singleton.1 (mem_of_getElem?_ofPairs hnew)
  cases List.mem_singleton.1 (mem_of_getElem?_ofPairs hsource)
  intro heq
  have hhead := congrArg (·.toList.head?) heq
  simp at hhead

theorem ruleless_of_apply_signedClass :
    renamingNested.apply (signedClass "A$B" "LA$B;") =
        .ok (signedClassRenamed "C" "LC;" "A$B", true) ∧
      ∃ table, roles (signedClassRenamed "C" "LC;" "A$B") = .ok table ∧
        ∀ index role, table[index]? = some role → ∃ old found,
          References.ofText (signedClass "A$B" "LA$B;").pool index role = .ok old ∧
          References.ofText (signedClassRenamed "C" "LC;" "A$B").pool index role = .ok found ∧
          ∀ name ∈ found, name ∈ renamingNested.table → role = .signature ∧ name ∈ old ∧
            ∃ outer inner, name = outer ++ "$" ++ inner ∧
              renamingNested.mapClass outer = none := by
  have happly : renamingNested.apply (signedClass "A$B" "LA$B;") =
      .ok (signedClassRenamed "C" "LC;" "A$B", true) := by cbv
  have hok : (References.ofClass (signedClass "A$B" "LA$B;")).toBool = true := by cbv
  obtain ⟨references, hreferences⟩ := Except.exists_eq_ok hok
  exact ⟨happly, ruleless_of_apply admissible_renamingNested apart_renamingNested hreferences
    happly (keepsAttributeNames_signedClass _ _ _ _ _)⟩

/-- A class `A$B` that a signature writes behind `A` keeps that name there when it becomes `C`. -/
theorem not_ruleless_signedClass :
    configRenamingNested.validate.result = .ok () ∧ renamingNested.Admissible ∧
      renamingNested.Apart ∧
      (∀ {old new source target : String}, renamingNested.table[old]? = some new →
        renamingNested.table[source]? = some target → ∀ inner, new ≠ source ++ "$" ++ inner) ∧
      (∃ references, References.ofClass (signedClass "A$B" "LA.B;") = .ok references) ∧
      renamingNested.apply (signedClass "A$B" "LA.B;") =
        .ok (signedClassRenamed "C" "LA.B;" "A$B", true) ∧
      KeepsAttributeNames (signedClass "A$B" "LA.B;") (signedClassRenamed "C" "LA.B;" "A$B") ∧
      ∃ table, roles (signedClassRenamed "C" "LA.B;" "A$B") = .ok table ∧
        table[(4 : Index)]? = some .signature ∧
        References.ofText (signedClassRenamed "C" "LA.B;" "A$B").pool 4 .signature =
          .ok ["A", "A$B"] ∧
        "A$B" ∈ renamingNested.table := by
  have hvalid : configRenamingNested.validate.result = .ok () := by cbv
  have hok : (References.ofClass (signedClass "A$B" "LA.B;")).toBool = true := by cbv
  have happly : renamingNested.apply (signedClass "A$B" "LA.B;") =
      .ok (signedClassRenamed "C" "LA.B;" "A$B", true) := by cbv
  have hroles : (roles (signedClassRenamed "C" "LA.B;" "A$B")).map (·[(4 : Index)]?) =
      .ok (some .signature) := by cbv
  have hnames : References.ofText (signedClassRenamed "C" "LA.B;" "A$B").pool 4 .signature =
      .ok ["A", "A$B"] := by cbv
  obtain ⟨table, htable, hrole⟩ := Except.map_eq_ok_iff.1 hroles
  refine ⟨hvalid, admissible_renamingNested, apart_renamingNested, ne_nested_renamingNested,
    Except.exists_eq_ok hok, happly, keepsAttributeNames_signedClass _ _ _ _ _, table, htable,
    hrole, hnames, ?_⟩
  rw [renamingNested_eq]
  exact Std.ExtTreeMap.mem_iff_contains.2 (by cbv)

end JarTailor.Renaming
