import JarTailor.Proofs.Jar.Monotone
import Mathlib

/-!
# Classes that are not kept

A class that is neither kept nor excluded derives from no root, matches no include glob, and no
kept class depends on it. So an analysis without such classes finds the same, and the same is
generated from it.
-/

namespace JarTailor

/-- The second scan holds what the first holds, less the classes of a set. -/
structure Scan.Omits (scan : Scan) (dropped : Set String) (smaller : Scan) : Prop where
  classes : ∀ (name : String) (found : FoundClass), smaller.classes[name]? = some found ↔
    scan.classes[name]? = some found ∧ name ∉ dropped
  resources : smaller.resources = scan.resources

/-- A class that was added can be left out again. -/
theorem Scan.omits_insert {scan : Scan} {name : String} {found : FoundClass}
    (hnew : name ∉ scan.classes) :
    Omits { scan with classes := scan.classes.insert name found } {name} scan where
  classes other held := by
    rw [Std.ExtTreeMap.getElem?_insert, Set.mem_singleton_iff, eq_comm (a := other)]
    by_cases heq : name = other
    · subst heq
      simp [Std.ExtTreeMap.getElem?_eq_none hnew]
    · rw [if_neg fun h => heq (Std.compare_eq_iff_eq.1 h), and_iff_left heq]
  resources := rfl

namespace Scan.Omits

variable {scan smaller : Scan} {dropped : Set String} {name : String}

theorem within (h : scan.Omits dropped smaller) : smaller.Within scan :=
  fun name found hfound => ((h.classes name found).1 hfound).1

theorem getElem?_eq (h : scan.Omits dropped smaller) (hname : name ∉ dropped) :
    smaller.classes[name]? = scan.classes[name]? := by
  ext found
  rw [h.classes]
  exact and_iff_left hname

theorem mem_iff (h : scan.Omits dropped smaller) :
    name ∈ smaller.classes ↔ name ∈ scan.classes ∧ name ∉ dropped := by
  simp only [mem_iff_exists_getElem?, h.classes, exists_and_right]

theorem refers_iff (h : scan.Omits dropped smaller) {entry : References} :
    smaller.Refers name entry ↔ scan.Refers name entry ∧ name ∉ dropped := by
  constructor
  · rintro ⟨found, hfound, hrefers⟩
    obtain ⟨hheld, hname⟩ := (h.classes name found).1 hfound
    exact ⟨⟨found, hheld, hrefers⟩, hname⟩
  · rintro ⟨⟨found, hheld, hrefers⟩, hname⟩
    exact ⟨found, (h.classes name found).2 ⟨hheld, hname⟩, hrefers⟩

theorem depends_iff (h : scan.Omits dropped smaller) {config : Config} {target : String} :
    config.Depends smaller name target ↔ config.Depends scan name target ∧ name ∉ dropped := by
  constructor
  · rintro ⟨entry, hrefers, htarget⟩
    obtain ⟨hrefers, hname⟩ := h.refers_iff.1 hrefers
    exact ⟨⟨entry, hrefers, htarget⟩, hname⟩
  · rintro ⟨⟨entry, hrefers, htarget⟩, hname⟩
    exact ⟨entry, h.refers_iff.2 ⟨hrefers, hname⟩, htarget⟩

theorem exists_referencesOf (h : scan.Omits dropped smaller) {references : ReferenceMap}
    (hreferences : (Analysis.referencesOf scan).result = .ok references) :
    ∃ remaining, (Analysis.referencesOf smaller).result = .ok remaining := by
  refine Analysis.exists_referencesOf fun name hname => ?_
  obtain ⟨hmem, hspared⟩ := h.mem_iff.1 hname
  obtain ⟨entry, hrefers⟩ := Analysis.exists_refers_of_mem hreferences hmem
  exact ⟨entry, h.refers_iff.2 ⟨hrefers, hspared⟩⟩

end Scan.Omits

/-- A closed set stays clear of the classes of another set, and so do the excluded classes. -/
structure Config.Spares (config : Config) (scan : Scan) (kept dropped : Set String) : Prop where
  closed : config.Closed scan kept
  notKept : ∀ name ∈ dropped, name ∉ kept
  notExcluded : ∀ name ∈ dropped, config.excludesClass name = false

namespace Config.Spares

variable {config : Config} {scan smaller : Scan} {kept dropped : Set String} {name : String}

theorem notMem_of_selects (h : config.Spares scan kept dropped) (hmem : name ∈ scan.classes)
    (hselects : config.Selects scan name) : name ∉ dropped := by
  intro hname
  exact h.notKept name hname (h.closed.seeds name ⟨hmem, h.notExcluded name hname⟩ hselects)

theorem notMem_of_depends (h : config.Spares scan kept dropped) {target : String}
    (hmem : target ∈ scan.classes) (hname : name ∈ kept)
    (hdepends : config.Depends scan name target) : target ∉ dropped := by
  intro htarget
  exact h.notKept target htarget
    (h.closed.targets name hname target hdepends ⟨hmem, h.notExcluded target htarget⟩)

/-- No chain of supertypes that leads to a root is cut. -/
theorem derives_iff (h : config.Spares scan kept dropped) (homits : scan.Omits dropped smaller) :
    smaller.Derives (config.derivedFrom.map internalName) name ↔
      scan.Derives (config.derivedFrom.map internalName) name := by
  constructor
  · exact Scan.Derives.mono homits.within (List.Subset.refl _)
  · intro hderives
    induction hderives with
    | root hroot => exact .root hroot
    | subtype hrefers hparent hderives ih =>
        have hspared := h.notMem_of_selects hrefers.mem (Or.inl (.subtype hrefers hparent hderives))
        exact .subtype (homits.refers_iff.2 ⟨hrefers, hspared⟩) hparent ih

theorem selects_iff (h : config.Spares scan kept dropped) (homits : scan.Omits dropped smaller) :
    config.Selects smaller name ↔ config.Selects scan name := by
  rw [Config.Selects, Config.Selects, h.derives_iff homits]

/-- What is closed without the classes of a set is closed with them, if it stays within what is
clear of them. -/
theorem closed_of_omits (h : config.Spares scan kept dropped) (homits : scan.Omits dropped smaller)
    {names : Set String} (hnames : config.Closed smaller names) (hsubset : names ⊆ kept) :
    config.Closed scan names where
  seeds name hadmits hselects := by
    have hspared := h.notMem_of_selects hadmits.1 hselects
    exact hnames.seeds name ⟨homits.mem_iff.2 ⟨hadmits.1, hspared⟩, hadmits.2⟩
      ((h.selects_iff homits).2 hselects)
  targets name hname target hdepends hadmits := by
    have hkept : name ∈ kept := hsubset hname
    have hspared := h.notMem_of_depends hadmits.1 hkept hdepends
    refine hnames.targets name hname target (homits.depends_iff.2 ⟨hdepends, ?_⟩)
      ⟨homits.mem_iff.2 ⟨hadmits.1, hspared⟩, hadmits.2⟩
    exact fun hdropped => h.notKept name hdropped hkept

end Config.Spares

/-- The second analysis finds what the first finds, about the classes that are not in a set. -/
structure Analysis.AgreesOutside (dropped : Set String) (analysis remaining : Analysis) :
    Prop where
  keptNames : remaining.keptNames = analysis.keptNames
  classes : ∀ name ∉ dropped, remaining.classes[name]? = analysis.classes[name]?
  dropped : ∀ name ∈ dropped, remaining.classes[name]? = none
  graph : remaining.graph = analysis.graph
  missing : remaining.missing = analysis.missing
  excludedReferences : remaining.excludedReferences = analysis.excludedReferences
  unresolvedRoots : remaining.unresolvedRoots = analysis.unresolvedRoots
  unmatchedGlobs : remaining.unmatchedGlobs = analysis.unmatchedGlobs
  resources : remaining.resources = analysis.resources

namespace Analysis

section Known

variable {config : Config} {scan smaller : Scan} {references remaining : ReferenceMap}
variable {dropped : Set String} {name : String}

theorem reaches_candidate_iff (h : (referencesOf scan).result = .ok references) :
    ((candidates config references).contains name && ((candidates config references).reach
      (seeds config (derivedFromAny references (config.derivedFrom.map internalName))
        (candidates config references))).contains name) = true ↔
      name ∈ (ofReferences config scan references).keptNames := by
  rw [Bool.and_eq_true, Std.ExtTreeMap.contains_iff_mem, Std.ExtTreeSet.contains_iff_mem,
    mem_candidates_iff h, Graph.mem_reach_iff, mem_keptNames_iff h, Reached]

theorem derives_candidate_iff (h : (referencesOf scan).result = .ok references) :
    ((candidates config references).contains name &&
      (derivedFromAny references (config.derivedFrom.map internalName)).contains name) = true ↔
        config.Admits scan name ∧ scan.Derives (config.derivedFrom.map internalName) name := by
  rw [Bool.and_eq_true, Std.ExtTreeMap.contains_iff_mem, Std.ExtTreeSet.contains_iff_mem,
    mem_candidates_iff h, mem_derivedFromAny_iff h]

theorem spares_of_flags (h : (referencesOf scan).result = .ok references)
    (hflags : ∀ name ∈ dropped, ∃ entry,
      (ofReferences config scan references).classes[name]? = some entry ∧
        entry.flags.kept = false ∧ entry.flags.excluded = false) :
    config.Spares scan (ofReferences config scan references).keptNames dropped where
  closed := (isLeast_keptNames h).1
  notKept name hname hkept := by
    obtain ⟨entry, hentry, hflag, -⟩ := hflags name hname
    obtain ⟨other, hother, hkept⟩ := hkept
    obtain rfl : entry = other := Option.some.inj (hentry.symm.trans hother)
    rw [hflag] at hkept
    cases hkept
  notExcluded name hname := by
    obtain ⟨entry, hentry, -, hflag⟩ := hflags name hname
    rw [ofReferences, Std.ExtTreeMap.getElem?_map, Option.map_eq_some_iff] at hentry
    obtain ⟨found, -, rfl⟩ := hentry
    exact hflag

section Omits

variable (h : (referencesOf scan).result = .ok references)
variable (h' : (referencesOf smaller).result = .ok remaining)
variable (homits : scan.Omits dropped smaller)
variable (hspares : config.Spares scan (ofReferences config scan references).keptNames dropped)

include h h' homits hspares

theorem keptNames_eq_of_omits :
    (ofReferences config smaller remaining).keptNames =
      (ofReferences config scan references).keptNames := by
  have hsubset : (ofReferences config smaller remaining).keptNames ⊆
      (ofReferences config scan references).keptNames :=
    (isLeast_keptNames h').2 (hspares.closed.anti homits.within (.refl config))
  refine hsubset.antisymm ((isLeast_keptNames h).2 ?_)
  exact hspares.closed_of_omits homits (isLeast_keptNames h').1 hsubset

theorem classes_eq_of_omits (hname : name ∉ dropped) :
    (ofReferences config smaller remaining).classes[name]? =
      (ofReferences config scan references).classes[name]? := by
  have hadmits : config.Admits smaller name ↔ config.Admits scan name := by
    rw [Config.Admits, Config.Admits, homits.mem_iff, and_iff_left hname]
  have hkept := @reaches_candidate_iff config smaller remaining name h'
  rw [keptNames_eq_of_omits h h' homits hspares, ← reaches_candidate_iff h] at hkept
  have hderives := @derives_candidate_iff config smaller remaining name h'
  rw [hspares.derives_iff homits, hadmits, ← derives_candidate_iff h] at hderives
  simp only [ofReferences, Std.ExtTreeMap.getElem?_map, homits.getElem?_eq hname,
    Bool.eq_iff_iff.2 hkept, Bool.eq_iff_iff.2 hderives]

theorem graph_eq_of_omits :
    (ofReferences config smaller remaining).graph =
      (ofReferences config scan references).graph := by
  refine Std.ExtTreeMap.ext_getElem? fun name => Option.ext fun targets => ?_
  rw [getElem?_graph h', getElem?_graph h, keptNames_eq_of_omits h h' homits hspares]
  refine and_congr_right fun hkept => exists_congr fun entry => and_congr_left fun _ => ?_
  rw [homits.refers_iff]
  exact and_iff_left fun hname => hspares.notKept name hname hkept

/-- The dependencies of the kept classes stay. -/
theorem exists_depends_iff_of_omits {target : String} :
    (∃ other ∈ (ofReferences config smaller remaining).keptNames,
      config.Depends smaller other target) ↔
      ∃ other ∈ (ofReferences config scan references).keptNames,
        config.Depends scan other target := by
  rw [keptNames_eq_of_omits h h' homits hspares]
  refine exists_congr fun other => and_congr_right fun hother => ?_
  rw [homits.depends_iff]
  exact and_iff_left fun hname => hspares.notKept other hname hother

theorem missing_eq_of_omits :
    (ofReferences config smaller remaining).missing =
      (ofReferences config scan references).missing := by
  refine Std.ExtTreeSet.ext_mem fun target => ?_
  rw [mem_missing_iff h', mem_missing_iff h, exists_depends_iff_of_omits h h' homits hspares,
    homits.mem_iff, not_and_not_right]
  refine and_congr_right fun ⟨other, hother, hdepends⟩ => and_congr_right fun _ => ⟨?_, ?_⟩
  · intro hspared hmem
    exact hspares.notMem_of_depends hmem hother hdepends (hspared hmem)
  · exact fun hmem hheld => absurd hheld hmem

theorem excludedReferences_eq_of_omits :
    (ofReferences config smaller remaining).excludedReferences =
      (ofReferences config scan references).excludedReferences := by
  refine Std.ExtTreeSet.ext_mem fun target => ?_
  rw [mem_excludedReferences_iff h', mem_excludedReferences_iff h,
    exists_depends_iff_of_omits h h' homits hspares]

end Omits

section Reports

variable {kept : Set String}
variable (homits : scan.Omits dropped smaller) (hspares : config.Spares scan kept dropped)

include homits hspares

theorem mem_iff_of_selects (hselects : config.Selects scan name) :
    name ∈ smaller.classes ↔ name ∈ scan.classes := by
  rw [homits.mem_iff]
  exact and_iff_left_of_imp fun hmem => hspares.notMem_of_selects hmem hselects

theorem unresolvedRoots_eq_of_omits :
    (ofReferences config smaller remaining).unresolvedRoots =
      (ofReferences config scan references).unresolvedRoots := by
  have hroots : ∀ root ∈ config.derivedFrom.map internalName,
      smaller.classes.contains root = scan.classes.contains root := by
    intro root hroot
    rw [Bool.eq_iff_iff, Std.ExtTreeMap.contains_iff_mem, Std.ExtTreeMap.contains_iff_mem]
    exact mem_iff_of_selects homits hspares (Or.inl (.root hroot))
  have hfilter : (config.derivedFrom.map internalName).filter (!smaller.classes.contains ·) =
      (config.derivedFrom.map internalName).filter (!scan.classes.contains ·) :=
    List.filter_congr fun root hroot => congrArg Bool.not (hroots root hroot)
  simp only [ofReferences, hfilter]

theorem unmatchedGlobs_eq_of_omits :
    (ofReferences config smaller remaining).unmatchedGlobs =
      (ofReferences config scan references).unmatchedGlobs := by
  refine List.filter_congr fun pattern hpattern => congrArg Bool.not ?_
  rw [Bool.eq_iff_iff, List.any_eq_true, List.any_eq_true]
  refine exists_congr fun name => and_congr_left fun hmatch => ?_
  rw [Std.ExtTreeMap.mem_keys, Std.ExtTreeMap.mem_keys]
  exact mem_iff_of_selects homits hspares (Or.inr (Or.inl ⟨pattern, hpattern, hmatch⟩))

end Reports

end Known

theorem AgreesOutside.kept {dropped : Set String} {analysis remaining : Analysis}
    (h : analysis.AgreesOutside dropped remaining)
    (hdropped : ∀ name ∈ dropped, ∀ entry, analysis.classes[name]? = some entry →
      entry.flags.kept = false) : remaining.kept = analysis.kept := by
  have hmap : (remaining.classes.filter fun _ entry => entry.flags.kept) =
      analysis.classes.filter fun _ entry => entry.flags.kept := by
    refine Std.ExtTreeMap.ext_getElem? fun name => ?_
    rw [Std.ExtTreeMap.getElem?_filter', Std.ExtTreeMap.getElem?_filter']
    by_cases hname : name ∈ dropped
    · rw [h.dropped name hname, Option.filter_none, eq_comm, Option.filter_eq_none_iff]
      intro entry hentry
      rw [hdropped name hname entry hentry]
      exact Bool.false_ne_true
    · rw [h.classes name hname]
  calc remaining.kept
      = (remaining.classes.filter fun _ entry => entry.flags.kept).toList := by
        rw [Std.ExtTreeMap.toList_filter, Analysis.kept]
    _ = analysis.kept := by rw [hmap, Std.ExtTreeMap.toList_filter, Analysis.kept]

/-- What is generated depends on the kept classes, what they depend on, and the resources. -/
theorem generate_congr {config : Config} {analysis remaining : Analysis}
    (hkept : remaining.kept = analysis.kept) (hgraph : remaining.graph = analysis.graph)
    (hresources : remaining.resources = analysis.resources) :
    generate config remaining = generate config analysis := by
  simp only [generate, isKept, hkept, hgraph, hresources]

/-- Without classes that are neither kept nor excluded an analysis finds the same about the others,
and what is generated from it, or the failure, is the same. -/
theorem agreesOutside_of_omits {config : Config} {scan smaller : Scan} {analysis : Analysis}
    {dropped : Set String} (hanalyze : (analyze config scan).result = .ok analysis)
    (hdropped : ∀ name ∈ dropped, ∃ entry, analysis.classes[name]? = some entry ∧
      entry.flags.kept = false ∧ entry.flags.excluded = false)
    (homits : scan.Omits dropped smaller) :
    ∃ remaining, (analyze config smaller).result = .ok remaining ∧
      analysis.AgreesOutside dropped remaining ∧
        generate config remaining = generate config analysis := by
  obtain ⟨references, h, rfl⟩ := analyze_eq_ok hanalyze
  obtain ⟨remaining, h'⟩ := homits.exists_referencesOf h
  have hspares := spares_of_flags h hdropped
  have hagrees : (ofReferences config scan references).AgreesOutside dropped
      (ofReferences config smaller remaining) :=
    { keptNames := keptNames_eq_of_omits h h' homits hspares
      classes := fun name hname => classes_eq_of_omits h h' homits hspares hname
      dropped := fun name hname => by
        have hnone : smaller.classes[name]? = none :=
          Std.ExtTreeMap.getElem?_eq_none fun hmem => (homits.mem_iff.1 hmem).2 hname
        rw [ofReferences, Std.ExtTreeMap.getElem?_map, hnone, Option.map_none]
      graph := graph_eq_of_omits h h' homits hspares
      missing := missing_eq_of_omits h h' homits hspares
      excludedReferences := excludedReferences_eq_of_omits h h' homits hspares
      unresolvedRoots := unresolvedRoots_eq_of_omits homits hspares
      unmatchedGlobs := unmatchedGlobs_eq_of_omits homits hspares
      resources := congrArg (keptResources config) homits.resources }
  refine ⟨_, analyze_of_referencesOf h', hagrees, ?_⟩
  refine generate_congr (hagrees.kept fun name hname entry hentry => ?_) hagrees.graph
    hagrees.resources
  obtain ⟨other, hother, hflag, -⟩ := hdropped name hname
  obtain rfl : other = entry := Option.some.inj (hother.symm.trans hentry)
  exact hflag

/-- A third class, which `A` and `B` do not name, is not kept with them. -/
theorem agreesOutside_of_omits_scanOfAB :
    ∃ analysis remaining,
      (analyze { includes := ["A"] } { scanOfAB with
        classes := scanOfAB.classes.insert "C" (FoundClass.mk classB.encode "c.jar") }).result =
          .ok analysis ∧
        (analyze { includes := ["A"] } scanOfAB).result = .ok remaining ∧
          analysis.AgreesOutside {"C"} remaining ∧
            generate { includes := ["A"] } remaining = generate { includes := ["A"] } analysis := by
  have hflags : (analyze { includes := ["A"] } { scanOfAB with
      classes := scanOfAB.classes.insert "C" (FoundClass.mk classB.encode "c.jar") }).result.map
        (fun analysis => (analysis.classes["C"]?).map fun entry =>
          (entry.flags.kept, entry.flags.excluded)) = .ok (some (false, false)) := by cbv
  obtain ⟨analysis, hanalyze, hflags⟩ := Except.map_eq_ok_iff.1 hflags
  obtain ⟨entry, hentry, hflags⟩ := Option.map_eq_some_iff.1 hflags
  obtain ⟨hkept, hexcluded⟩ := Prod.mk.inj hflags
  have hnew : "C" ∉ scanOfAB.classes := by decide
  obtain ⟨remaining, hremaining, hagrees⟩ := agreesOutside_of_omits hanalyze
    (fun name hname => ⟨entry, Set.mem_singleton_iff.1 hname ▸ hentry, hkept, hexcluded⟩)
    (Scan.omits_insert hnew)
  exact ⟨analysis, remaining, hanalyze, hremaining, hagrees⟩

end Analysis

end JarTailor
