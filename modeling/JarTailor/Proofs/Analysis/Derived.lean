import JarTailor.Proofs.Analysis.Kept
import Mathlib

/-!
# The classes that derive from a root

What is found to derive from a root is its closure under superclasses and interfaces. An analysis
flags the classes that it may keep and that derive from a configured root.
-/

namespace JarTailor.Analysis

/-- There are no more sweeps than classes. -/
theorem exists_derivedFrom_eq_iterate (references : ReferenceMap) (root : String) :
    ∃ count ≤ references.size,
      derivedFrom references root =
        (Hierarchy.sweep references.toList)^[count] (.ofList [root]) ∧
      Hierarchy.sweep references.toList (derivedFrom references root) =
        derivedFrom references root := by
  obtain ⟨count, hcount, hiterate, hsettled⟩ :=
    Hierarchy.exists_settle_eq_iterate references.toList (.ofList [root])
  refine ⟨count, hcount.trans ?_, hiterate, hsettled⟩
  exact List.countP_le_length.trans_eq Std.ExtTreeMap.length_toList

theorem exists_derivedRoot_iff {config : Config} {scan : Scan} {references : ReferenceMap}
    (h : (referencesOf scan).result = .ok references) {name : String} :
    (∃ entry, (ofReferences config scan references).classes[name]? = some entry ∧
        entry.flags.derivedRoot = true) ↔
      config.Admits scan name ∧
        ∃ root ∈ config.derivedFrom, name ∈ derivedFrom references (internalName root) := by
  have hflag : ((candidates config references).contains name &&
      (derivedFromAny references (config.derivedFrom.map internalName)).contains name) = true ↔
      config.Admits scan name ∧
        ∃ root ∈ config.derivedFrom, name ∈ derivedFrom references (internalName root) := by
    rw [Bool.and_eq_true, Std.ExtTreeMap.contains_iff_mem, Std.ExtTreeSet.contains_iff_mem,
      mem_candidates_iff h, mem_derivedFromAny]
    simp only [List.mem_map, exists_exists_and_eq_and]
  rw [← hflag]
  simp only [ofReferences, Std.ExtTreeMap.getElem?_map, Option.map_eq_some_iff]
  constructor
  · rintro ⟨entry, ⟨found, -, rfl⟩, hderived⟩
    exact hderived
  · intro hderived
    obtain ⟨found, hfound⟩ := mem_iff_exists_getElem?.1 (hflag.1 hderived).1.1
    exact ⟨_, ⟨found, hfound, rfl⟩, hderived⟩

/-- A finite number of sweeps finds just the root and the classes from which superclasses and
interfaces lead to it, in whatever order the classes are listed. The flag tells which classes that
may be kept are found for one of the configured roots. -/
theorem derivedFrom_exact :
    (∀ (references : ReferenceMap) (root : String),
      (∀ name, name ∈ derivedFrom references root ↔
        Relation.ReflTransGen (Hierarchy.Extends references.toList) name root) ∧
      (∀ listing : List (String × References), listing.Perm references.toList →
        Hierarchy.settle listing (.ofList [root]) = derivedFrom references root) ∧
      ∃ count ≤ references.size,
        derivedFrom references root =
          (Hierarchy.sweep references.toList)^[count] (.ofList [root]) ∧
        Hierarchy.sweep references.toList (derivedFrom references root) =
          derivedFrom references root) ∧
    ∀ (config : Config) (scan : Scan) (analysis : Analysis),
      (analyze config scan).result = .ok analysis →
      ∃ references, (referencesOf scan).result = .ok references ∧
        ∀ name, (∃ entry, analysis.classes[name]? = some entry ∧
            entry.flags.derivedRoot = true) ↔
          name ∈ scan.classes ∧ config.excludesClass name = false ∧
            ∃ root ∈ config.derivedFrom, name ∈ derivedFrom references (internalName root) := by
  constructor
  · intro references root
    exact ⟨fun _ => mem_derivedFrom_iff, fun _ => Hierarchy.settle_perm,
      exists_derivedFrom_eq_iterate references root⟩
  · intro config scan analysis h
    obtain ⟨references, hreferences, rfl⟩ := analyze_eq_ok h
    refine ⟨references, hreferences, fun name => ?_⟩
    rw [exists_derivedRoot_iff hreferences, Config.Admits, and_assoc]

/-- The one class of the scan extends a root that no input holds. -/
theorem derivedFrom_exact_scanNamingB :
    ∃ analysis, (analyze { derivedFrom := ["B"] } scanNamingB).result = .ok analysis ∧
      ∃ entry, analysis.classes["A"]? = some entry ∧ entry.flags.derivedRoot = true := by
  have hok : (analyze { derivedFrom := ["B"] } scanNamingB).result.toBool = true := by cbv
  obtain ⟨analysis, hanalysis⟩ := Except.exists_eq_ok hok
  obtain ⟨references, hreferences, hflag⟩ := derivedFrom_exact.2 _ _ _ hanalysis
  have hmem : "A" ∈ scanNamingB.classes := by simp [scanNamingB]
  have hextends : Hierarchy.Extends references.toList "A" "B" := by
    obtain ⟨entry, found, hfound, hentry⟩ := exists_refers_of_mem hreferences hmem
    have hknown := (getElem?_referencesOf hreferences).2 ⟨found, hfound, hentry⟩
    have hsupertypes : (scanNamingB.classes["A"]?.any fun found =>
        (References.ofBytes found.bytes).toOption.any (·.supertypes.contains "B")) = true := by cbv
    rw [hfound, Option.any_some, hentry] at hsupertypes
    exact ⟨entry, Std.ExtTreeMap.mem_toList_iff_getElem?_eq_some.2 hknown,
      List.contains_iff_mem.1 hsupertypes⟩
  have hroot : internalName "B" = "B" := by cbv
  have hderives : "A" ∈ derivedFrom references (internalName "B") := by
    rw [hroot]
    exact ((derivedFrom_exact.1 references "B").1 "A").2 (.single hextends)
  exact ⟨analysis, hanalysis, (hflag "A").2 ⟨hmem, rfl, "B", List.mem_singleton_self _, hderives⟩⟩

end JarTailor.Analysis
