import JarTailor.Proofs.Edit.Names
import Mathlib

/-!
# New names of nested classes

A class without a rule of its own follows the outermost of the sources around it: in the order of
the table a source comes before those nested in it. So a nested class follows the class around it,
unless that class has a rule and is itself nested in a source, whose rule then counts for the nested
class only.
-/

namespace JarTailor

/-- A class is nested in another, at some depth. -/
def IsNested (name outer : String) : Prop :=
  ∃ inner, name = outer ++ "$" ++ inner

namespace Renaming

/-- A class is nested in no source. -/
def IsOutermost (names : Renaming) (name : String) : Prop :=
  ∀ source ∈ names.table, ¬IsNested name source

section Nesting

variable {outer other inner rest : String}

theorem toList_nested (outer inner : String) :
    (outer ++ "$" ++ inner).toList = outer.toList ++ '$' :: inner.toList := by
  simp

theorem compare_of_isNested (h : IsNested inner outer) : compare outer inner = .lt := by
  obtain ⟨rest, rfl⟩ := h
  refine compareOfLessAndEq_eq_lt.2 (String.lt_iff.2 ?_)
  have hlonger : outer.toList ++ [] < outer.toList ++ '$' :: rest.toList :=
    List.Lex.append_left _ List.Lex.nil _
  rwa [List.append_nil, ← toList_nested] at hlonger

/-- Of two classes around a class one is nested in the other, or they are the same. -/
theorem nested_cases (h : outer ++ "$" ++ inner = other ++ "$" ++ rest) :
    outer = other ∧ inner = rest ∨
      (∃ middle, other = outer ++ "$" ++ middle ∧ inner = middle ++ "$" ++ rest) ∨
      ∃ middle, outer = other ++ "$" ++ middle ∧ rest = middle ++ "$" ++ inner := by
  have hbehind : ∀ {front : List Char} {first second : String},
      '$' :: first.toList = front ++ '$' :: second.toList →
        front = [] ∧ first = second ∨
          ∃ middle, front = '$' :: String.toList middle ∧ first = middle ++ "$" ++ second := by
    intro front first second hfront
    cases front with
    | nil => exact Or.inl ⟨rfl, String.toList_inj.1 (List.cons.inj hfront).2⟩
    | cons c front =>
        obtain ⟨rfl, htail⟩ := List.cons.inj hfront
        refine Or.inr ⟨String.ofList front, by rw [String.toList_ofList], String.toList_inj.1 ?_⟩
        rw [toList_nested, String.toList_ofList, htail]
        rfl
  rw [← String.toList_inj, toList_nested, toList_nested, List.append_eq_append_iff] at h
  rcases h with ⟨front, hother, hinner⟩ | ⟨front, houter, hrest⟩
  · rcases hbehind hinner with ⟨rfl, rfl⟩ | ⟨middle, rfl, rfl⟩
    · rw [List.append_nil] at hother
      exact Or.inl ⟨(String.toList_inj.1 hother).symm, rfl⟩
    · have hnested := String.toList_inj.1 (hother.trans (toList_nested outer middle).symm)
      exact Or.inr (Or.inl ⟨middle, hnested, rfl⟩)
  · rcases hbehind hrest with ⟨rfl, rfl⟩ | ⟨middle, rfl, rfl⟩
    · rw [List.append_nil] at houter
      exact Or.inl ⟨String.toList_inj.1 houter, rfl⟩
    · have hnested := String.toList_inj.1 (houter.trans (toList_nested other middle).symm)
      exact Or.inr (Or.inr ⟨middle, hnested, rfl⟩)

/-- Split at its last dollar sign, a name is nested in the part before it and in the classes around
that. -/
theorem nested_of_last (hinner : '$' ∉ inner.toList)
    (h : outer ++ "$" ++ inner = other ++ "$" ++ rest) :
    outer = other ∧ inner = rest ∨
      ∃ middle, outer = other ++ "$" ++ middle ∧ rest = middle ++ "$" ++ inner := by
  rcases nested_cases h with hsame | ⟨middle, -, rfl⟩ | hdeeper
  · exact Or.inl hsame
  · exact absurd (by rw [toList_nested]; simp) hinner
  · exact Or.inr hdeeper

theorem nestedName?_eq_some_iff_append {target renamed : String} :
    nestedName? outer target other = some renamed ↔
      ∃ inner, other = outer ++ "$" ++ inner ∧ target ++ "$" ++ inner = renamed := by
  rw [nestedName?_eq_some_iff]
  constructor
  · rintro ⟨rest, hname, rfl⟩
    refine ⟨String.ofList rest, String.toList_inj.1 ?_, String.toList_inj.1 ?_⟩
    · rw [toList_nested, String.toList_ofList, hname]
    · simp
  · rintro ⟨inner, rfl, rfl⟩
    refine ⟨inner.toList, toList_nested .., String.toList_inj.1 ?_⟩
    simp

end Nesting

section Lookup

variable {names : Renaming} {name renamed outer inner : String}

/-- A class without a rule of its own follows the first source that it is nested in. -/
theorem mapClass_of_notMem (hname : name ∉ names.table) :
    names.mapClass name =
      names.table.toList.findSome? fun rule => nestedName? rule.1 rule.2 name := by
  rw [mapClass, Std.ExtTreeMap.getElem?_eq_none hname]

/-- A source is nested in no other if none of the sources before it is around a class nested in
it. -/
theorem isOutermost_of_front {front back : List (String × String)} {source target : String}
    (hsplit : names.table.toList = front ++ (source, target) :: back)
    (hnone : ∀ rule ∈ front, nestedName? rule.1 rule.2 (source ++ "$" ++ inner) = none) :
    names.IsOutermost source := by
  rintro other hother hnested
  obtain ⟨new, hnew⟩ := mem_iff_exists_getElem?.1 hother
  have hlt := compare_of_isNested hnested
  have hordered := Std.ExtTreeMap.ordered_keys_toList (t := names.table)
  have hentry := Std.ExtTreeMap.mem_toList_iff_getElem?_eq_some.2 hnew
  rw [hsplit] at hordered hentry
  rcases List.mem_append.1 hentry with hfront | hback
  · obtain ⟨middle, rfl⟩ := hnested
    have hsome : nestedName? other new (other ++ "$" ++ middle ++ "$" ++ inner) =
        some (new ++ "$" ++ (middle ++ "$" ++ inner)) :=
      nestedName?_eq_some_iff_append.2 ⟨_, by simp only [String.append_assoc], rfl⟩
    rw [hnone _ hfront] at hsome
    cases hsome
  -- the order of the table puts a source behind those that it is nested in
  · rcases List.mem_cons.1 hback with heq | hback
    · obtain rfl : other = source := congrArg Prod.fst heq
      have hself : compare other other = .eq := Std.ReflCmp.compare_self
      cases hself.symm.trans hlt
    · have hgt := (List.pairwise_cons.1 (List.pairwise_append.1 hordered).2.1).1 _ hback
      rw [Std.OrientedCmp.gt_iff_lt.2 hlt] at hgt
      cases hgt

/-- The rule that counts for a class without one of its own is that of the outermost source around
it. -/
theorem mapClass_eq_some_of_notMem (hname : name ∉ names.table)
    (h : names.mapClass name = some renamed) :
    ∃ source target inner, names.table[source]? = some target ∧ names.IsOutermost source ∧
      name = source ++ "$" ++ inner ∧ target ++ "$" ++ inner = renamed := by
  rw [mapClass_of_notMem hname] at h
  obtain ⟨front, ⟨source, target⟩, back, hsplit, hfound, hnone⟩ := List.findSome?_eq_some_iff.1 h
  obtain ⟨inner, rfl, hrenamed⟩ := nestedName?_eq_some_iff_append.1 hfound
  have hmem : (source, target) ∈ names.table.toList := by simp [hsplit]
  exact ⟨source, target, inner, Std.ExtTreeMap.mem_toList_iff_getElem?_eq_some.1 hmem,
    isOutermost_of_front hsplit hnone, rfl, hrenamed⟩

/-- A class without a rule of its own keeps its name if and only if it is nested in no source. -/
theorem mapClass_eq_none_iff_of_notMem (hname : name ∉ names.table) :
    names.mapClass name = none ↔ names.IsOutermost name := by
  rw [mapClass_of_notMem hname, List.findSome?_eq_none_iff]
  constructor
  · rintro hnone source hsource ⟨inner, rfl⟩
    obtain ⟨target, htarget⟩ := mem_iff_exists_getElem?.1 hsource
    have hsome : nestedName? source target (source ++ "$" ++ inner) =
        some (target ++ "$" ++ inner) := nestedName?_eq_some_iff_append.2 ⟨inner, rfl, rfl⟩
    rw [hnone _ (Std.ExtTreeMap.mem_toList_iff_getElem?_eq_some.2 htarget)] at hsome
    cases hsome
  · rintro houtermost ⟨source, target⟩ hentry
    refine Option.eq_none_iff_forall_ne_some.2 fun renamed hsome => ?_
    obtain ⟨inner, hnested, -⟩ := nestedName?_eq_some_iff_append.1 hsome
    have hsource := Std.ExtTreeMap.mem_toList_iff_getElem?_eq_some.1 hentry
    exact houtermost source (mem_iff_exists_getElem?.2 ⟨target, hsource⟩) ⟨inner, hnested⟩

theorem mapClass_of_isOutermost {source target : String}
    (hname : source ++ "$" ++ inner ∉ names.table) (hrule : names.table[source]? = some target)
    (houtermost : names.IsOutermost source) :
    names.mapClass (source ++ "$" ++ inner) = some (target ++ "$" ++ inner) := by
  have hsource : source ∈ names.table := mem_iff_exists_getElem?.2 ⟨target, hrule⟩
  cases hmap : names.mapClass (source ++ "$" ++ inner) with
  | none => exact absurd ⟨inner, rfl⟩ ((mapClass_eq_none_iff_of_notMem hname).1 hmap source hsource)
  | some renamed =>
      obtain ⟨other, new, rest, hother, hfirst, hsplit, rfl⟩ :=
        mapClass_eq_some_of_notMem hname hmap
      have hmem : other ∈ names.table := mem_iff_exists_getElem?.2 ⟨new, hother⟩
      rcases nested_cases hsplit with ⟨rfl, rfl⟩ | ⟨middle, hnested, -⟩ | ⟨middle, hnested, -⟩
      · rw [Option.some.inj (hother.symm.trans hrule)]
      · exact absurd ⟨middle, hnested⟩ (hfirst source hsource)
      · exact absurd ⟨middle, hnested⟩ (houtermost other hmem)

/-- A source counts for the classes nested in it at any depth. -/
theorem mapClass_around {source target middle : String}
    (hname : source ++ "$" ++ middle ++ "$" ++ inner ∉ names.table)
    (hrule : names.table[source]? = some target) (houtermost : names.IsOutermost source) :
    names.mapClass (source ++ "$" ++ middle ++ "$" ++ inner) =
      some (target ++ "$" ++ middle ++ "$" ++ inner) := by
  have hassoc : ∀ front : String, front ++ "$" ++ middle ++ "$" ++ inner =
      front ++ "$" ++ (middle ++ "$" ++ inner) := fun front => by simp only [String.append_assoc]
  rw [hassoc] at hname ⊢
  rw [hassoc, mapClass_of_isOutermost hname hrule houtermost]

theorem isOutermost_nested_iff (hinner : '$' ∉ inner.toList) :
    names.IsOutermost (outer ++ "$" ++ inner) ↔ outer ∉ names.table ∧ names.IsOutermost outer := by
  constructor
  · intro h
    refine ⟨fun hmem => h outer hmem ⟨inner, rfl⟩, ?_⟩
    rintro source hsource ⟨middle, rfl⟩
    exact h source hsource ⟨middle ++ "$" ++ inner, by simp only [String.append_assoc]⟩
  · rintro ⟨hmem, h⟩ source hsource ⟨rest, hsplit⟩
    rcases nested_of_last hinner hsplit with ⟨rfl, -⟩ | ⟨middle, hnested, -⟩
    · exact hmem hsource
    · exact h source hsource ⟨middle, hnested⟩

/-- A nested class without a rule of its own is renamed if and only if the class around it is. It
follows that class, but when that has a rule and is nested in a source it follows the outermost
source around both. -/
theorem mapClass_nested (hinner : '$' ∉ inner.toList)
    (hname : outer ++ "$" ++ inner ∉ names.table) :
    (names.mapClass (outer ++ "$" ++ inner) = none ↔ names.mapClass outer = none) ∧
      ((outer ∈ names.table → names.IsOutermost outer) →
        names.mapClass (outer ++ "$" ++ inner) =
          (names.mapClass outer).map (· ++ "$" ++ inner)) ∧
      (¬names.IsOutermost outer → ∃ source target middle,
        names.table[source]? = some target ∧ names.IsOutermost source ∧
          outer = source ++ "$" ++ middle ∧
          names.mapClass (outer ++ "$" ++ inner) =
            some (target ++ "$" ++ middle ++ "$" ++ inner)) := by
  have hnone : names.mapClass (outer ++ "$" ++ inner) = none ↔ names.mapClass outer = none := by
    rw [mapClass_eq_none_iff_of_notMem hname, isOutermost_nested_iff hinner]
    constructor
    · rintro ⟨hmem, houtermost⟩
      exact (mapClass_eq_none_iff_of_notMem hmem).2 houtermost
    · intro hmap
      have hmem : outer ∉ names.table := by
        intro hmem
        obtain ⟨target, htarget⟩ := mem_iff_exists_getElem?.1 hmem
        rw [mapClass, htarget] at hmap
        cases hmap
      exact ⟨hmem, (mapClass_eq_none_iff_of_notMem hmem).1 hmap⟩
  refine ⟨hnone, fun hfirst => ?_, fun hnested => ?_⟩
  · cases hmap : names.mapClass outer with
    | none => rw [hnone.2 hmap, Option.map_none]
    | some renamed =>
        rw [Option.map_some]
        by_cases hmem : outer ∈ names.table
        · obtain ⟨target, htarget⟩ := mem_iff_exists_getElem?.1 hmem
          obtain rfl : target = renamed := by
            rw [mapClass, htarget] at hmap
            exact Option.some.inj hmap
          exact mapClass_of_isOutermost hname htarget (hfirst hmem)
        · obtain ⟨source, target, middle, hrule, houtermost, rfl, rfl⟩ :=
            mapClass_eq_some_of_notMem hmem hmap
          rw [← mapClass_around hname hrule houtermost]
  · have hmap : names.mapClass (outer ++ "$" ++ inner) ≠ none := by
      rw [Ne, mapClass_eq_none_iff_of_notMem hname, isOutermost_nested_iff hinner]
      exact fun h => hnested h.2
    obtain ⟨renamed, hrenamed⟩ := Option.ne_none_iff_exists'.1 hmap
    obtain ⟨source, target, rest, hrule, houtermost, hsplit, rfl⟩ :=
      mapClass_eq_some_of_notMem hname hrenamed
    rcases nested_of_last hinner hsplit with ⟨rfl, -⟩ | ⟨middle, rfl, rfl⟩
    · exact absurd houtermost hnested
    · exact ⟨source, target, middle, hrule, houtermost, rfl, mapClass_around hname hrule houtermost⟩

end Lookup

/-- A class and a class nested in it both get new names. -/
def renamingBoth : Renaming :=
  ofPairs [("A", "X"), ("A$B", "Y")]

theorem mapClass_nested_renamingBoth :
    '$' ∉ "C".toList ∧ "A$D" ++ "$" ++ "C" ∉ renamingBoth.table ∧
      renamingBoth.mapClass ("A$D" ++ "$" ++ "C") =
        (renamingBoth.mapClass "A$D").map (· ++ "$" ++ "C") ∧
      renamingBoth.mapClass "A$D" = some "X$D" := by
  have hinner : '$' ∉ "C".toList := by decide
  have hname : "A$D" ++ "$" ++ "C" ∉ renamingBoth.table := by
    rw [Std.ExtTreeMap.mem_iff_contains, Bool.not_eq_true]
    cbv
  have houter : "A$D" ∉ renamingBoth.table := by
    rw [Std.ExtTreeMap.mem_iff_contains, Bool.not_eq_true]
    cbv
  exact ⟨hinner, hname, (mapClass_nested hinner hname).2.1 fun hmem => absurd hmem houter, by cbv⟩

/-- A class nested in both follows the outer one. -/
theorem not_follows_renamingBoth :
    '$' ∉ "C".toList ∧ "A$B" ++ "$" ++ "C" ∉ renamingBoth.table ∧
      renamingBoth.mapClass "A$B" = some "Y" ∧
      renamingBoth.mapClass ("A$B" ++ "$" ++ "C") = some "X$B$C" ∧
      renamingBoth.mapClass ("A$B" ++ "$" ++ "C") ≠
        (renamingBoth.mapClass "A$B").map (· ++ "$" ++ "C") := by
  have hname : "A$B" ++ "$" ++ "C" ∉ renamingBoth.table := by
    rw [Std.ExtTreeMap.mem_iff_contains, Bool.not_eq_true]
    cbv
  have houter : renamingBoth.mapClass "A$B" = some "Y" := by cbv
  have hnested : renamingBoth.mapClass ("A$B" ++ "$" ++ "C") = some "X$B$C" := by cbv
  refine ⟨by decide, hname, houter, hnested, ?_⟩
  rw [houter, hnested]
  decide

end Renaming

end JarTailor
