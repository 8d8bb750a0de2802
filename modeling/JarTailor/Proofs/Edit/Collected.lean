import JarTailor.Proofs.Edit.Renamed
import Mathlib

/-!
# The references of a renamed class

Renaming a class and collecting its references leads to the same classes as collecting them first
and giving each its new name. Whatever could be looked up in the pool still can be: only what the
texts say is different.
-/

namespace JarTailor.Renaming

open TypeUse

section Lookups

variable {names : Renaming} {uses : List (Index × TypeRole)} {before after : Pool} {index : Index}

theorem RenamesAll.exists_nameAndType (h : names.RenamesAll uses before after)
    {name descriptor : String} (hpair : before.nameAndType index = .ok (name, descriptor)) :
    ∃ name descriptor, after.nameAndType index = .ok (name, descriptor) := by
  obtain ⟨first, second, hget, hfirst, hsecond⟩ := Pool.nameAndType_eq_ok_iff.1 hpair
  obtain ⟨name, hname⟩ := h.exists_text hfirst
  obtain ⟨descriptor, hdescriptor⟩ := h.exists_text hsecond
  exact ⟨name, descriptor, Pool.nameAndType_eq_ok_iff.2
    ⟨first, second, h.get (by simp) (by simp) hget, hname, hdescriptor⟩⟩

theorem RenamesAll.exists_member (h : names.RenamesAll uses before after) {method : MemberRef}
    (hmethod : before.member index = .ok method) : ∃ method, after.member index = .ok method := by
  obtain ⟨owner, pair, isInterface, hget, hfound⟩ := Pool.member_eq_ok_iff.1 hmethod
  obtain ⟨howner, hpair, -⟩ := Pool.resolveMember_eq_ok_iff.1 hfound
  obtain ⟨newOwner, howner⟩ := h.exists_className howner
  obtain ⟨name, descriptor, hpair⟩ := h.exists_nameAndType hpair
  refine ⟨⟨newOwner, name, descriptor, isInterface⟩, Pool.member_eq_ok_iff.2
    ⟨owner, pair, isInterface, ?_, Pool.resolveMember_eq_ok_iff.2 ⟨howner, hpair, rfl⟩⟩⟩
  rcases hget with ⟨hget, hkind⟩ | ⟨hget, hkind⟩ | ⟨hget, hkind⟩
  · exact Or.inl ⟨h.get (by simp) (by simp) hget, hkind⟩
  · exact Or.inr (Or.inl ⟨h.get (by simp) (by simp) hget, hkind⟩)
  · exact Or.inr (Or.inr ⟨h.get (by simp) (by simp) hget, hkind⟩)

theorem RenamesAll.exists_methodsOf (h : names.RenamesAll uses before after)
    {methods : List MemberRef} (hmethods : References.methodsOf before = .ok methods) :
    ∃ methods, References.methodsOf after = .ok methods := by
  refine References.exists_methodsOf fun slot owner pair hentry => ?_
  rw [h.getElem?_eq_some_iff (by simp) (by simp),
    h.getElem?_eq_some_iff (by simp) (by simp)] at hentry
  obtain ⟨method, -, hmethod⟩ := References.exists_member_of_methodsOf hmethods hentry
  exact h.exists_member hmethod

end Lookups

section Collecting

variable {names : Renaming} {before after : ClassFile} {references : References} {changed : Bool}

theorem exists_ofClass_of_apply (hadmissible : names.Admissible)
    (hreferences : References.ofClass before = .ok references)
    (happly : names.apply before = .ok (after, changed))
    (hkeeps : KeepsAttributeNames before after) :
    ∃ renamed, References.ofClass after = .ok renamed := by
  obtain ⟨uses, hknown⟩ := References.known_of_ofClass hreferences
  have hrewrites : ∀ use, First uses use →
      names.Rewrites use.role use.index before.pool after.pool :=
    fun _ huse => rewrites_of_apply hknown happly huse
  obtain ⟨hothers, ⟨-, hpool⟩ | ⟨table, htable, hrun⟩⟩ := apply_eq_ok happly
  · rw [hothers, hpool]
    exact ⟨references, hreferences⟩
  · obtain ⟨name, superName, interfaces, -, -, methods, hname, hsuper, hinterfaces, -, -,
      hmethods, -⟩ := References.ofClass_eq_ok_iff.1 hreferences
    have hroles := (roles_of_apply happly hkeeps).trans htable
    obtain ⟨newName, hnewName⟩ : ∃ name, after.name = .ok name := by
      rw [hothers]
      exact hrun.exists_className hname
    obtain ⟨newSuper, hnewSuper⟩ : ∃ superName, after.superName = .ok superName := by
      rw [hothers]
      unfold ClassFile.superName at hsuper ⊢
      split at hsuper
      · next hnone => exact ⟨none, if_pos hnone⟩
      · next hsome =>
          obtain ⟨name, hname, -⟩ := Except.map_eq_ok_iff.1 hsuper
          obtain ⟨renamed, hrenamed⟩ := hrun.exists_className hname
          exact ⟨some renamed, (if_neg hsome).trans
            (Except.map_eq_ok_iff.2 ⟨renamed, hrenamed, rfl⟩)⟩
    obtain ⟨newInterfaces, hnewInterfaces⟩ :
        ∃ interfaces, after.interfaceNames = .ok interfaces := by
      rw [hothers]
      refine Except.exists_mapM_eq_ok fun index hindex => ?_
      obtain ⟨name, -, hname⟩ :=
        exists_related_right (Except.mapM_eq_ok_iff.1 hinterfaces) hindex
      exact hrun.exists_className hname
    obtain ⟨newClasses, hnewClasses⟩ : ∃ classes, table.toList.mapM
        (fun entry => References.ofText after.pool entry.1 entry.2) = .ok classes := by
      refine Except.exists_mapM_eq_ok fun entry hentry => ?_
      obtain ⟨text, mapped, -, hmapped, hnew⟩ :=
        hrewrites _ ((mem_roles_iff htable hknown.all).1 hentry)
      obtain ⟨-, found, -, hfound, -⟩ := becomes_mapText hadmissible hmapped
      exact ⟨found, References.ofText_eq_ok_iff.2 ⟨_, hnew, hfound⟩⟩
    obtain ⟨newMethods, hnewMethods⟩ := hrun.exists_methodsOf hmethods
    exact ⟨_, References.ofClass_eq_ok_iff.2 ⟨newName, newSuper, newInterfaces, table, newClasses,
      newMethods, hnewName, hnewSuper, hnewInterfaces, hroles, hnewClasses, hnewMethods, rfl⟩⟩

/-- Each text that a class uses names, after the class is renamed, the renamed classes. -/
theorem ofText_of_known {uses : List TypeUse} (hlegal : names.Legal)
    (hknown : References.Known before references uses)
    (happly : names.apply before = .ok (after, changed)) {use : TypeUse} (huse : First uses use)
    {found : List String} (hfound : References.ofText before.pool use.index use.role = .ok found) :
    References.ofText after.pool use.index use.role = .ok (found.map names.rename) := by
  obtain ⟨text, htext, hclasses⟩ := References.ofText_eq_ok_iff.1 hfound
  obtain ⟨text', mapped, htext', hmapped, hnew⟩ := rewrites_of_apply hknown happly huse
  obtain rfl : text = text' := Except.ok.inj (htext.symm.trans htext')
  obtain ⟨found', hfound', hrenamed⟩ := classNames_mapText hlegal hmapped
  obtain rfl : found = found' := Except.ok.inj (hclasses.symm.trans hfound')
  exact References.ofText_eq_ok_iff.2 ⟨_, hnew, hrenamed⟩

/-- A class that is not named like an array uses its own name. -/
theorem exists_first_name {uses : List TypeUse} (hknown : References.Known before references uses)
    (hown : references.name.toList.head? ≠ some '[') :
    ∃ use, First uses use ∧
      References.ofText before.pool use.index use.role = .ok [references.name] := by
  obtain ⟨text, hget, htext⟩ := Pool.className_eq_ok_iff.1 hknown.name
  refine ⟨⟨text, .className⟩, first_of_classRef hknown.all
    (Array.mem_of_getElem? (Pool.get_eq_ok_iff.1 hget)), ?_⟩
  exact References.ofText_eq_ok_iff.2 ⟨_, htext, if_neg hown⟩

/-- The references of a renamed class are the references of the class under their new names. -/
theorem references_of_apply (hlegal : names.Legal)
    (hreferences : References.ofClass before = .ok references)
    (hown : references.name.toList.head? ≠ some '[')
    (happly : names.apply before = .ok (after, changed))
    (hkeeps : KeepsAttributeNames before after) :
    ∃ renamed, References.ofClass after = .ok renamed ∧
      renamed.name = names.rename references.name ∧
      ∀ target, target ∈ renamed.classes ↔ target ≠ renamed.name ∧
        ∃ source, (source ∈ references.classes ∨ source = references.name) ∧
          names.rename source = target := by
  obtain ⟨uses, hknown⟩ := References.known_of_ofClass hreferences
  obtain ⟨renamed, hrenamed⟩ :=
    exists_ofClass_of_apply hlegal.admissible hreferences happly hkeeps
  obtain ⟨last, hlast⟩ := References.known_of_ofClass hrenamed
  obtain rfl : uses = last := by
    have hall := hlast.all
    rw [all_of_apply happly hkeeps, hknown.all] at hall
    exact Except.ok.inj hall
  have hname : after.name = .ok (names.rename references.name) :=
    name_of_apply hlegal.admissible happly hknown.name (fun h => absurd h hown)
      fun uses huses use huse => by
        obtain rfl := Except.ok.inj (huses.symm.trans hknown.all)
        exact hknown.exists_text huse.mem
  refine ⟨renamed, hrenamed, Except.ok.inj (hlast.name.symm.trans hname), fun target => ?_⟩
  rw [hlast.classes]
  refine and_congr_right fun _ => ?_
  constructor
  · rintro ⟨use, huse, found', hfound', hmem⟩
    obtain ⟨found, hfound⟩ := hknown.texts use huse
    obtain rfl := Except.ok.inj ((ofText_of_known hlegal hknown happly huse hfound).symm.trans
      hfound')
    obtain ⟨source, hsource, rfl⟩ := List.mem_map.1 hmem
    refine ⟨source, ?_, rfl⟩
    by_cases hself : source = references.name
    · exact Or.inr hself
    · exact Or.inl ((hknown.classes source).2 ⟨hself, use, huse, found, hfound, hsource⟩)
  · rintro ⟨source, hsource, rfl⟩
    obtain ⟨use, huse, found, hfound, hmem⟩ : ∃ use, First uses use ∧ ∃ found,
        References.ofText before.pool use.index use.role = .ok found ∧ source ∈ found := by
      rcases hsource with hsource | rfl
      · exact ((hknown.classes source).1 hsource).2
      · obtain ⟨use, huse, hfound⟩ := exists_first_name hknown hown
        exact ⟨use, huse, _, hfound, List.mem_singleton.2 rfl⟩
    exact ⟨use, huse, _, ofText_of_known hlegal hknown happly huse hfound,
      List.mem_map_of_mem hmem⟩

end Collecting

/-- A class with a generic signature and a string constant that is its name. -/
def signedClass (name signature : String) : ClassFile :=
  { minor := 0, major := 52
    pool := ⟨#[.unusable, .utf8 (Utf8.encode name), .classRef 1, .utf8 (Utf8.encode "Signature"),
      .utf8 (Utf8.encode signature), .stringRef 1]⟩
    flags := 0x21, thisClass := 2, superClass := 0, interfaces := [], fields := [], methods := []
    attributes := [⟨3, [0, 4]⟩] }

/-- A class with a generic signature and a string constant that is not its name any more. -/
def signedClassRenamed (name signature literal : String) : ClassFile :=
  { signedClass name signature with
    pool := ⟨#[.unusable, .utf8 (Utf8.encode name), .classRef 1, .utf8 (Utf8.encode "Signature"),
      .utf8 (Utf8.encode signature), .stringRef 6, .utf8 (Utf8.encode literal)]⟩ }

theorem keepsAttributeNames_signedClass (name signature name' signature' literal : String) :
    KeepsAttributeNames (signedClass name signature)
      (signedClassRenamed name' signature' literal) := by
  have htext : (signedClass name signature).pool.text 3 = .ok "Signature" :=
    Pool.text_eq_ok_iff.2 (Pool.get_eq_ok_iff.2 rfl)
  have hsame : (signedClassRenamed name' signature' literal).pool.text 3 = .ok "Signature" :=
    Pool.text_eq_ok_iff.2 (Pool.get_eq_ok_iff.2 rfl)
  refine keepsAttributeNames_of_flat rfl (List.forall_mem_singleton.2 ⟨[⟨4, .signature⟩], ?_⟩)
    (List.forall_mem_singleton.2 (hsame.trans htext.symm))
  rw [step, inAttribute, htext]
  rfl

theorem references_of_apply_signedClass :
    (ofPairs [("A", "B"), ("C", "E")]).apply (signedClass "A" "LC<LA;>.D;") =
        .ok (signedClassRenamed "B" "LE<LB;>.D;" "A", true) ∧
      ∃ references renamed, References.ofClass (signedClass "A" "LC<LA;>.D;") = .ok references ∧
        References.ofClass (signedClassRenamed "B" "LE<LB;>.D;" "A") = .ok renamed ∧
        renamed.name = (ofPairs [("A", "B"), ("C", "E")]).rename references.name ∧
        ∀ target, target ∈ renamed.classes ↔ target ≠ renamed.name ∧
          ∃ source, (source ∈ references.classes ∨ source = references.name) ∧
            (ofPairs [("A", "B"), ("C", "E")]).rename source = target := by
  have happly : (ofPairs [("A", "B"), ("C", "E")]).apply (signedClass "A" "LC<LA;>.D;") =
      .ok (signedClassRenamed "B" "LE<LB;>.D;" "A", true) := by cbv
  have hok : (References.ofClass (signedClass "A" "LC<LA;>.D;")).map (·.name) = .ok "A" := by cbv
  obtain ⟨references, hreferences, hname⟩ := Except.map_eq_ok_iff.1 hok
  have hown : references.name.toList.head? ≠ some '[' := by
    rw [hname]
    decide
  obtain ⟨renamed, hrenamed⟩ := references_of_apply (legal_ofPairs (by decide) (by decide))
    hreferences hown happly (keepsAttributeNames_signedClass _ _ _ _ _)
  exact ⟨happly, references, renamed, hreferences, hrenamed⟩

end JarTailor.Renaming
