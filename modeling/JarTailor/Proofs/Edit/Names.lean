import JarTailor.Edit.Renaming
import JarTailor.Proofs.Maps
import Mathlib.Data.List.Basic
import Mathlib.Data.List.TakeWhile

/-!
# New names of classes

A class that is renamed keeps the part of its name behind that of a source. When no source holds a
dollar sign, what a class is called now depends on the part of its name before the first one. So a
nested class follows the class around it.
-/

namespace JarTailor

/-- A name that is read back as it is wherever a text names it. -/
def LegalName (name : String) : Prop :=
  name ≠ "" ∧ ∀ c ∈ name.toList, c ≠ '.' ∧ c ≠ ';' ∧ c ≠ '[' ∧ c ≠ '<'

instance (name : String) : Decidable (LegalName name) :=
  @instDecidableAnd _ _ _ (List.decidableBAll _ _)

namespace Renaming

/-- The name that a class has afterwards. -/
def rename (names : Renaming) (name : String) : String :=
  (names.mapClass name).getD name

/-- A renaming between legal names. -/
structure Admissible (names : Renaming) : Prop where
  target : ∀ {source target : String}, names.table[source]? = some target → LegalName target
  source : ∀ {source target : String}, names.table[source]? = some target → LegalName source

/-- A renaming between legal names of classes that are not nested. -/
structure Legal (names : Renaming) : Prop where
  target : ∀ {source target : String}, names.table[source]? = some target → LegalName target
  source : ∀ {source target : String}, names.table[source]? = some target → LegalName source
  flat : ∀ {source target : String}, names.table[source]? = some target → '$' ∉ source.toList

theorem Legal.admissible {names : Renaming} (h : names.Legal) : names.Admissible :=
  ⟨h.target, h.source⟩

section Pairs

variable {pairs : List (String × String)}

theorem mem_of_getElem?_ofPairs {source target : String}
    (h : (ofPairs pairs).table[source]? = some target) : (source, target) ∈ pairs := by
  rcases getElem?_foldl_insert h with hmem | hempty
  · exact hmem
  · rw [Std.ExtTreeMap.getElem?_empty] at hempty
    cases hempty

theorem admissible_ofPairs (h : ∀ pair ∈ pairs, LegalName pair.1 ∧ LegalName pair.2) :
    (ofPairs pairs).Admissible :=
  ⟨fun hlookup => (h _ (mem_of_getElem?_ofPairs hlookup)).2,
    fun hlookup => (h _ (mem_of_getElem?_ofPairs hlookup)).1⟩

theorem legal_ofPairs (h : ∀ pair ∈ pairs, LegalName pair.1 ∧ LegalName pair.2)
    (hflat : ∀ pair ∈ pairs, '$' ∉ pair.1.toList) : (ofPairs pairs).Legal :=
  ⟨(admissible_ofPairs h).target, (admissible_ofPairs h).source,
    fun hlookup => hflat _ (mem_of_getElem?_ofPairs hlookup)⟩

end Pairs

/-- A name up to its first dollar sign. -/
def head (name : String) : String :=
  String.ofList (name.toList.takeWhile (· ≠ '$'))

/-- A name from its first dollar sign on. -/
def tail (name : String) : String :=
  String.ofList (name.toList.dropWhile (· ≠ '$'))

theorem head_append_tail (name : String) : head name ++ tail name = name := by
  rw [head, tail, ← String.ofList_append, List.takeWhile_append_dropWhile, String.ofList_toList]

theorem split_of_flat {source : List Char} (hflat : '$' ∉ source) (rest : List Char) :
    (source ++ '$' :: rest).takeWhile (· ≠ '$') = source ∧
      (source ++ '$' :: rest).dropWhile (· ≠ '$') = '$' :: rest := by
  have hall : ∀ c ∈ source, decide (c ≠ '$') = true := by
    intro c hc
    rw [decide_eq_true_eq]
    rintro rfl
    exact hflat hc
  rw [List.takeWhile_append_of_pos hall, List.dropWhile_append_of_pos hall]
  simp

theorem head_of_flat {name : String} (hflat : '$' ∉ name.toList) :
    head name = name ∧ tail name = "" := by
  have hall : ∀ c ∈ name.toList, decide (c ≠ '$') = true := by
    intro c hc
    rw [decide_eq_true_eq]
    rintro rfl
    exact hflat hc
  rw [head, tail, List.takeWhile_eq_self_iff.2 hall, List.dropWhile_eq_nil_iff.2 hall]
  exact ⟨String.ofList_toList, rfl⟩

theorem exists_dollar {name : String} (h : '$' ∈ name.toList) :
    ∃ rest, name.toList.dropWhile (· ≠ '$') = '$' :: rest := by
  have hne : name.toList.dropWhile (· ≠ '$') ≠ [] := by
    intro hnil
    rw [List.dropWhile_eq_nil_iff] at hnil
    simpa using hnil '$' h
  have hfirst := List.head?_dropWhile_not (fun c : Char => decide (c ≠ '$')) name.toList
  cases hdrop : name.toList.dropWhile (· ≠ '$') with
  | nil => exact absurd hdrop hne
  | cons c rest =>
      rw [hdrop] at hfirst
      have hc : c = '$' := by simpa using hfirst
      exact ⟨rest, by rw [hc]⟩

theorem nestedName?_eq_some_iff {source target name renamed : String} :
    nestedName? source target name = some renamed ↔
      ∃ rest, name.toList = source.toList ++ '$' :: rest ∧
        target ++ String.ofList ('$' :: rest) = renamed := by
  unfold nestedName?
  cases hrest : source.toList.isPrefixOf? name.toList with
  | none =>
      constructor
      · intro h
        cases h
      · rintro ⟨rest, hname, -⟩
        rw [List.isPrefixOf?_eq_some_iff_append_eq.2 hname.symm] at hrest
        cases hrest
  | some rest =>
      rw [List.isPrefixOf?_eq_some_iff_append_eq] at hrest
      constructor
      · intro h
        split at h
        · next rest heq =>
            obtain rfl := Option.some.inj heq
            exact ⟨rest, hrest.symm, Option.some.inj h⟩
        · cases h
      · rintro ⟨found, hname, rfl⟩
        rw [hname, List.append_right_inj] at hrest
        subst hrest
        rfl

/-- A class with another name is that of a rule or nested in it, and keeps what comes after. -/
theorem mapClass_eq_some {names : Renaming} {name renamed : String}
    (h : names.mapClass name = some renamed) :
    ∃ source target rest, names.table[source]? = some target ∧ name = source ++ rest ∧
      renamed = target ++ rest ∧ (rest = "" ∨ ∃ inner, rest = "$" ++ inner) := by
  unfold mapClass at h
  split at h
  · next target htarget =>
      cases h
      exact ⟨name, renamed, "", htarget, by simp, by simp, Or.inl rfl⟩
  · obtain ⟨⟨source, target⟩, hmem, hnested⟩ := List.exists_of_findSome?_eq_some h
    obtain ⟨rest, hname, rfl⟩ := nestedName?_eq_some_iff.1 hnested
    refine ⟨source, target, String.ofList ('$' :: rest),
      Std.ExtTreeMap.mem_toList_iff_getElem?_eq_some.1 hmem, ?_, rfl,
      Or.inr ⟨String.ofList rest, ?_⟩⟩
    · rw [← String.toList_inj, hname, String.toList_append, String.toList_ofList]
    · simp

/-- A name stays, or what is before its end or one of its dollar signs becomes a target. -/
theorem rename_cases (names : Renaming) (name : String) :
    names.mapClass name = none ∧ names.rename name = name ∨
      ∃ source target rest, names.table[source]? = some target ∧ name = source ++ rest ∧
        names.rename name = target ++ rest ∧ (rest = "" ∨ ∃ inner, rest = "$" ++ inner) := by
  cases hrenamed : names.mapClass name with
  | none => exact Or.inl ⟨rfl, by rw [rename, hrenamed, Option.getD_none]⟩
  | some renamed =>
      obtain ⟨source, target, rest, htarget, hname, rfl, hrest⟩ := mapClass_eq_some hrenamed
      exact Or.inr ⟨source, target, rest, htarget, hname,
        by rw [rename, hrenamed, Option.getD_some], hrest⟩

section Characters

variable {names : Renaming} (hadmissible : names.Admissible)

include hadmissible

/-- Characters of new names come from old names or may stand in every name. -/
theorem rename_all {holds : Char → Prop}
    (hlegalChar : ∀ c, c ≠ '.' ∧ c ≠ ';' ∧ c ≠ '[' ∧ c ≠ '<' → holds c) {name : String}
    (hname : ∀ c ∈ name.toList, holds c) : ∀ c ∈ (names.rename name).toList, holds c := by
  rcases rename_cases names name with ⟨-, hsame⟩ | ⟨source, target, rest, htarget, hsplit, hnew, -⟩
  · rwa [hsame]
  · rw [hnew]
    intro c hc
    rcases List.mem_append.1 (String.toList_append ▸ hc) with hc | hc
    · exact hlegalChar c ((hadmissible.target htarget).2 c hc)
    · apply hname
      rw [hsplit, String.toList_append]
      exact List.mem_append_right _ hc

/-- A new name begins like the old one or like a legal name. -/
theorem head?_rename (name : String) :
    (names.rename name).toList.head? = name.toList.head? ∨
      ∃ c, (names.rename name).toList.head? = some c ∧
        c ≠ '.' ∧ c ≠ ';' ∧ c ≠ '[' ∧ c ≠ '<' := by
  rcases rename_cases names name with ⟨-, hsame⟩ | ⟨source, target, rest, htarget, -, hnew, -⟩
  · rw [hsame]
    exact Or.inl rfl
  · obtain ⟨hne, hchars⟩ := hadmissible.target htarget
    obtain ⟨c, others, hlist⟩ := List.exists_cons_of_ne_nil (mt String.toList_eq_nil_iff.1 hne)
    refine Or.inr ⟨c, ?_, hchars c (hlist ▸ List.mem_cons_self)⟩
    rw [hnew, String.toList_append, hlist]
    rfl

theorem rename_ne_empty {name : String} (hname : name ≠ "") : names.rename name ≠ "" := by
  intro hempty
  rcases head?_rename hadmissible name with heq | ⟨c, hc, -⟩
  · rw [hempty] at heq
    apply hname
    rw [← String.toList_eq_nil_iff, ← List.head?_eq_none_iff, ← heq]
    rfl
  · rw [hempty] at hc
    cases hc

/-- No rule is for an array. -/
theorem rename_of_head?_bracket {name : String} (h : name.toList.head? = some '[') :
    names.rename name = name := by
  rcases rename_cases names name with ⟨-, hsame⟩ | ⟨source, target, rest, htarget, hsplit, -, -⟩
  · exact hsame
  · obtain ⟨hne, hchars⟩ := hadmissible.source htarget
    obtain ⟨c, others, hlist⟩ := List.exists_cons_of_ne_nil (mt String.toList_eq_nil_iff.1 hne)
    rw [hsplit, String.toList_append, hlist] at h
    exact absurd (Option.some.inj h) (hchars c (hlist ▸ List.mem_cons_self)).2.2.1

end Characters

/-- A renaming without dollar signs in its sources looks up the name up to its first one. -/
theorem mapClass_eq {names : Renaming} (hlegal : names.Legal) (name : String) :
    names.mapClass name = names.table[head name]?.map (· ++ tail name) := by
  unfold mapClass
  cases hname : names.table[name]? with
  | some renamed =>
      obtain ⟨hhead, htail⟩ := head_of_flat (hlegal.flat hname)
      rw [hhead, htail, hname, Option.map_some, String.append_empty]
  | none =>
      have hnested : ∀ source target renamed, names.table[source]? = some target →
          (nestedName? source target name = some renamed ↔
            source = head name ∧ target ++ tail name = renamed) := by
        intro source target renamed hsource
        rw [nestedName?_eq_some_iff]
        constructor
        · rintro ⟨rest, hsplit, rfl⟩
          obtain ⟨htake, hdrop⟩ := split_of_flat (hlegal.flat hsource) rest
          rw [head, tail, hsplit, htake, hdrop, String.ofList_toList]
          exact ⟨rfl, rfl⟩
        · rintro ⟨rfl, rfl⟩
          have hdollar : '$' ∈ name.toList := by
            by_contra hflat
            rw [(head_of_flat hflat).1, hname] at hsource
            cases hsource
          obtain ⟨rest, hrest⟩ := exists_dollar hdollar
          refine ⟨rest, ?_, by rw [tail, hrest]⟩
          rw [head, String.toList_ofList, ← hrest, List.takeWhile_append_dropWhile]
      cases hhead : names.table[head name]? with
      | none =>
          rw [Option.map_none, List.findSome?_eq_none_iff]
          rintro ⟨source, target⟩ hmem
          rw [Std.ExtTreeMap.mem_toList_iff_getElem?_eq_some] at hmem
          rw [Option.eq_none_iff_forall_not_mem]
          intro renamed hrenamed
          rw [((hnested source target renamed hmem).1 hrenamed).1, hhead] at hmem
          cases hmem
      | some target =>
          have hmem := Std.ExtTreeMap.mem_toList_iff_getElem?_eq_some.2 hhead
          have hsome : (names.table.toList.findSome? fun pair =>
              nestedName? pair.1 pair.2 name).isSome := by
            rw [List.findSome?_isSome_iff]
            refine ⟨_, hmem, ?_⟩
            simp only [(hnested _ _ _ hhead).2 ⟨rfl, rfl⟩, Option.isSome_some]
          obtain ⟨renamed, hrenamed⟩ := Option.isSome_iff_exists.1 hsome
          obtain ⟨⟨source, other⟩, hother, hfound⟩ := List.exists_of_findSome?_eq_some hrenamed
          rw [Std.ExtTreeMap.mem_toList_iff_getElem?_eq_some] at hother
          obtain ⟨rfl, rfl⟩ := (hnested _ _ _ hother).1 hfound
          rw [hhead] at hother
          show (names.table.toList.findSome? fun pair => nestedName? pair.1 pair.2 name) = _
          rw [hrenamed, Option.map_some, Option.some.inj hother]

section Rename

variable {names : Renaming} (hlegal : names.Legal)

include hlegal

theorem rename_eq (name : String) :
    names.rename name = names.table[head name]?.getD (head name) ++ tail name := by
  rw [rename, mapClass_eq hlegal]
  cases names.table[head name]? with
  | none => exact (head_append_tail name).symm
  | some target => rfl

/-- A nested class follows the class around it. -/
theorem rename_nested (name segment : String) :
    names.rename (name ++ "$" ++ segment) = names.rename name ++ "$" ++ segment := by
  have hlist : (name ++ "$" ++ segment).toList = name.toList ++ '$' :: segment.toList := by simp
  have hsplit : head (name ++ "$" ++ segment) = head name ∧
      tail (name ++ "$" ++ segment) = tail name ++ "$" ++ segment := by
    by_cases hflat : '$' ∉ name.toList
    · obtain ⟨hhead, htail⟩ := head_of_flat hflat
      obtain ⟨htake, hdrop⟩ := split_of_flat hflat segment.toList
      rw [hhead, htail, head, tail, hlist, htake, hdrop, String.ofList_toList]
      refine ⟨rfl, String.toList_inj.1 ?_⟩
      simp
    · obtain ⟨rest, hrest⟩ := exists_dollar (not_not.1 hflat)
      have hjoin := List.takeWhile_append_dropWhile (p := (· ≠ '$')) (l := name.toList)
      have hinner : '$' ∉ name.toList.takeWhile (· ≠ '$') := by
        intro hmem
        simpa using List.mem_takeWhile_imp hmem
      have hwhole : (name ++ "$" ++ segment).toList =
          name.toList.takeWhile (· ≠ '$') ++ '$' :: (rest ++ '$' :: segment.toList) := by
        rw [hrest] at hjoin
        calc (name ++ "$" ++ segment).toList
            = name.toList ++ '$' :: segment.toList := hlist
          _ = (name.toList.takeWhile (· ≠ '$') ++ '$' :: rest) ++ '$' :: segment.toList :=
              congrArg (· ++ _) hjoin.symm
          _ = _ := by rw [List.append_assoc, List.cons_append]
      obtain ⟨htake, hdrop⟩ := split_of_flat hinner (rest ++ '$' :: segment.toList)
      rw [head, tail, hwhole, htake, hdrop, head, tail, hrest]
      refine ⟨rfl, String.toList_inj.1 ?_⟩
      simp
  rw [rename_eq hlegal, rename_eq hlegal, hsplit.1, hsplit.2]
  simp [String.append_assoc]

end Rename

end Renaming

end JarTailor
