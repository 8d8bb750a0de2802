import JarTailor.Proofs.Edit.Complete
import JarTailor.Proofs.Signature.Substitution

/-!
# Renaming twice

When no new name is an old one, lies around one or is nested in one, what a class is renamed to has
no rule. Every name that renaming writes is such a name or one that it left alone, so a second
renaming finds nothing to do.
-/

namespace JarTailor

/-- The classes of a renamed signature that are not nested are those of the old one, renamed. -/
theorem Signature.leadingNames_of_becomes {f : String → String} {pieces pieces' : List Piece}
    (h : List.Forall₂ (Piece.Becomes f) pieces pieces') :
    leadingNames pieces' = (leadingNames pieces).map f := by
  induction h with
  | nil => rfl
  | @cons piece piece' pieces pieces' hpiece _ ih =>
      have hleading : piece'.leading? = piece.leading?.map f := by
        cases hpiece with
        | renamed => cases piece <;> rfl
        | nested => rfl
      rw [leadingNames, leadingNames, List.filterMap_cons, List.filterMap_cons, hleading]
      rw [leadingNames, leadingNames] at ih
      rw [ih]
      cases piece.leading? <;> rfl

namespace Renaming

open TypeUse

/-- No new name is an old one, nested in an old one, or that of a class around an old one. -/
structure Separate (names : Renaming) : Prop extends names.Apart where
  nested : ∀ {old new source target : String}, names.table[old]? = some new →
    names.table[source]? = some target → ∀ inner, new ≠ source ++ "$" ++ inner

theorem exists_inner {rest : String} {front back : List Char}
    (hrest : rest = "" ∨ ∃ inner, rest = "$" ++ inner) (hsplit : rest.toList = front ++ back) :
    front = [] ∨ ∃ inner, String.ofList front = "$" ++ inner := by
  cases front with
  | nil => exact Or.inl rfl
  | cons c front =>
      rcases hrest with rfl | ⟨inner, rfl⟩
      · cases hsplit
      · rw [String.toList_append] at hsplit
        obtain rfl : '$' = c := (List.cons.inj hsplit).1
        exact Or.inr ⟨String.ofList front, String.ofList_cons⟩

/-- What a class is renamed to has no rule. -/
theorem mapClass_rename {names : Renaming} (hseparate : names.Separate) (name : String) :
    names.mapClass (names.rename name) = none := by
  rcases rename_cases names name with ⟨hnone, hsame⟩ | ⟨old, new, rest, hrule, -, hrename, hrest⟩
  · rwa [hsame]
  · cases hagain : names.mapClass (names.rename name) with
    | none => rfl
    | some renamed =>
        obtain ⟨source, target, rest', hrule', hsplit, -, hrest'⟩ := mapClass_eq_some hagain
        rw [hrename, ← String.toList_inj, String.toList_append, String.toList_append] at hsplit
        -- the one of the two names that is longer goes on with a dollar sign
        rcases List.append_eq_append_iff.1 hsplit with ⟨more, hsource, hmore⟩ | ⟨more, hnew, hmore⟩
        · rcases exists_inner hrest hmore with rfl | ⟨inner, hinner⟩
          · rw [List.append_nil, String.toList_inj] at hsource
            exact absurd hsource.symm (hseparate.ne hrule hrule')
          · refine absurd ?_ (hseparate.around hrule hrule' inner)
            rw [String.append_assoc, ← hinner, ← String.toList_inj, hsource, String.toList_append,
              String.toList_ofList]
        · rcases exists_inner hrest' hmore with rfl | ⟨inner, hinner⟩
          · rw [List.append_nil, String.toList_inj] at hnew
            exact absurd hnew (hseparate.ne hrule hrule')
          · refine absurd ?_ (hseparate.nested hrule hrule' inner)
            rw [String.append_assoc, ← hinner, ← String.toList_inj, hnew, String.toList_append,
              String.toList_ofList]

section Texts

variable {names : Renaming} {role : TypeRole} {text : String} {mapped : Option String}
variable (hadmissible : names.Admissible) (hseparate : names.Separate)

include hadmissible hseparate

theorem mapText_descriptor_again (hmap : names.mapText .descriptor text = .ok mapped) :
    names.mapText .descriptor (mapped.getD text) = .ok none := by
  obtain ⟨descriptor, hparse, htext⟩ := exists_parse_of_mapText hmap
  have hnone : ((descriptor.rename names.rename).mapNamesM (m := Id) names.mapClass :
      Option Descriptor) = none := by
    refine Descriptor.mapNamesM_eq_none_iff.2 fun name hname => ?_
    rw [Descriptor.classNames_rename] at hname
    obtain ⟨old, -, rfl⟩ := List.mem_map.1 hname
    exact mapClass_rename hseparate old
  rw [htext]
  refine Except.bind_eq_ok_iff.2 ⟨_, parse_rename hadmissible hparse, ?_⟩
  exact congrArg (fun found => Except.ok (Option.map Descriptor.text found)) hnone

theorem mapText_signature_again (hmap : names.mapText .signature text = .ok mapped) :
    names.mapText .signature (mapped.getD text) = .ok none := by
  obtain ⟨pieces, hpieces, htext⟩ := exists_pieces_of_mapText hmap
  obtain ⟨pieces', hbecomes, hpieces'⟩ :=
    Signature.pieces_becomes (keepsNamed hadmissible) hpieces
  have hnone : (Signature.mapNamesM (m := Id) names.mapClass pieces' :
      Option (List Signature.Piece)) = none := by
    refine Signature.mapNamesM_eq_none_iff.2 fun name hname => ?_
    rw [Signature.leadingNames_of_becomes hbecomes] at hname
    obtain ⟨old, -, rfl⟩ := List.mem_map.1 hname
    exact mapClass_rename hseparate old
  rw [htext]
  refine (Signature.mapNames_eq hpieces' names.mapClass).trans ?_
  rw [hnone, Option.map_none]

/-- In a text that was renamed nothing is left to rename. -/
theorem mapText_again (hmap : names.mapText role text = .ok mapped) :
    names.mapText role (mapped.getD text) = .ok none := by
  cases role with
  | descriptor => exact mapText_descriptor_again hadmissible hseparate hmap
  | signature => exact mapText_signature_again hadmissible hseparate hmap
  | className =>
      have hhead := head?_mapText_className hadmissible hmap
      by_cases harray : text.toList.head? = some '['
      · rw [mapText_array harray] at hmap
        rw [mapText_array (hhead.2 harray)]
        exact mapText_descriptor_again hadmissible hseparate hmap
      · obtain rfl := Except.ok.inj ((mapText_className harray).symm.trans hmap)
        rw [mapText_className (mt hhead.1 harray)]
        exact congrArg Except.ok (mapClass_rename hseparate text)

end Texts

section Runs

variable {names : Renaming} {literals : Std.ExtTreeSet Index} {changed : Bool}

/-- A run over texts in which there is nothing to rename changes nothing. -/
theorem renameEntries_of_mapText {uses : List (Index × TypeRole)} {pool : Pool}
    (h : ∀ index role, (index, role) ∈ uses →
      ∃ text, pool.text index = .ok text ∧ names.mapText role text = .ok none) :
    names.renameEntries literals uses pool changed = .ok (pool, changed) := by
  induction uses with
  | nil => rfl
  | cons use uses ih =>
      obtain ⟨index, role⟩ := use
      obtain ⟨text, htext, hmap⟩ := h index role List.mem_cons_self
      have hentry : names.renameEntry literals pool index role = .ok (pool, false) :=
        Except.bind_eq_ok_iff.2 ⟨text, htext,
          Except.bind_eq_ok_iff.2 ⟨none, Except.within_eq_ok_iff.2 hmap, rfl⟩⟩
      have hrest := ih fun index role hmem => h index role (List.mem_cons_of_mem _ hmem)
      rw [renameEntries, List.foldlM_cons]
      refine Except.bind_eq_ok_iff.2 ⟨(pool, changed), ?_, hrest⟩
      refine Except.bind_eq_ok_iff.2 ⟨_, hentry, ?_⟩
      exact congrArg (fun renamed => Except.ok (pool, renamed)) (Bool.or_false changed)

/-- A class that was renamed stays as it is when it is renamed again. -/
theorem apply_again {before after : ClassFile} {references : References}
    (hadmissible : names.Admissible) (hseparate : names.Separate)
    (hreferences : References.ofClass before = .ok references)
    (happly : names.apply before = .ok (after, changed))
    (hkeeps : KeepsAttributeNames before after) : names.apply after = .ok (after, false) := by
  obtain ⟨uses, hknown⟩ := References.known_of_ofClass hreferences
  obtain ⟨table, htable⟩ := hknown.exists_roles
  have hroles : roles after = .ok table := (roles_of_apply happly hkeeps).trans htable
  have hrun : names.renameEntries (literalTexts after.pool) table.toList after.pool false =
      .ok (after.pool, false) := by
    refine renameEntries_of_mapText fun index role hmem => ?_
    have hfirst : First uses ⟨index, role⟩ := (mem_roles_iff htable hknown.all).1 hmem
    obtain ⟨text, mapped, -, hmapped, hnew⟩ := rewrites_of_apply hknown happly hfirst
    exact ⟨_, hnew, mapText_again hadmissible hseparate hmapped⟩
  unfold apply
  split
  · rfl
  · exact Except.bind_eq_ok_iff.2 ⟨table, hroles, Except.bind_eq_ok_iff.2 ⟨_, hrun, rfl⟩⟩

theorem apply_again_signedClass :
    renamingNested.apply (signedClass "A$B" "LA$B;") =
        .ok (signedClassRenamed "C" "LC;" "A$B", true) ∧
      renamingNested.apply (signedClassRenamed "C" "LC;" "A$B") =
        .ok (signedClassRenamed "C" "LC;" "A$B", false) := by
  have happly : renamingNested.apply (signedClass "A$B" "LA$B;") =
      .ok (signedClassRenamed "C" "LC;" "A$B", true) := by cbv
  have hok : (References.ofClass (signedClass "A$B" "LA$B;")).toBool = true := by cbv
  obtain ⟨references, hreferences⟩ := Except.exists_eq_ok hok
  have hseparate : renamingNested.Separate := ⟨apart_renamingNested, ne_nested_renamingNested⟩
  exact ⟨happly, apply_again admissible_renamingNested hseparate hreferences happly
    (keepsAttributeNames_signedClass _ _ _ _ _)⟩

end Runs

end Renaming

end JarTailor
