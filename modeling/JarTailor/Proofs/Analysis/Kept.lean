import JarTailor.Proofs.Analysis.Known
import JarTailor.Proofs.Edit.Redirect
import Mathlib

/-!
# The kept classes are a least closed set

A set of class names is closed when it holds the seeds and, with each class, the dependencies that
may be kept. The classes that an analysis keeps are the least closed set.
-/

namespace JarTailor

/-- A class of the inputs that no exclude glob matches. -/
def Config.Admits (config : Config) (scan : Scan) (name : String) : Prop :=
  name ∈ scan.classes ∧ config.excludesClass name = false

/-- What calls for a class to be kept: a root, an include glob or a rename rule. -/
def Config.Selects (config : Config) (scan : Scan) (name : String) : Prop :=
  scan.Derives (config.derivedFrom.map internalName) name ∨
    (∃ pattern ∈ config.includes, (Glob.ofClass pattern).isMatch (binaryName name) = true) ∨
    ∃ rule ∈ config.renames, internalName rule.source = name

/-- The second class is a dependency of the first, which the scan holds. -/
def Config.Depends (config : Config) (scan : Scan) (name target : String) : Prop :=
  ∃ entry, scan.Refers name entry ∧ target ∈ Analysis.dependenciesOf config entry

structure Config.Closed (config : Config) (scan : Scan) (kept : Set String) : Prop where
  seeds : ∀ name, config.Admits scan name → config.Selects scan name → name ∈ kept
  targets : ∀ name ∈ kept, ∀ target, config.Depends scan name target →
    config.Admits scan target → target ∈ kept

namespace Analysis

/-- The classes flagged as kept. -/
def keptNames (analysis : Analysis) : Set String :=
  {name | ∃ entry, analysis.classes[name]? = some entry ∧ entry.flags.kept = true}

theorem mem_kept_iff {analysis : Analysis} {name : String} {entry : ClassEntry} :
    (name, entry) ∈ analysis.kept ↔
      analysis.classes[name]? = some entry ∧ entry.flags.kept = true := by
  rw [kept, List.mem_filter, Std.ExtTreeMap.mem_toList_iff_getElem?_eq_some]

theorem exists_mem_kept_iff {analysis : Analysis} {name : String} :
    (∃ entry, (name, entry) ∈ analysis.kept) ↔ name ∈ analysis.keptNames :=
  exists_congr fun _ => mem_kept_iff

theorem mem_dependenciesOf_iff {config : Config} {references : References} {name : String} :
    name ∈ dependenciesOf config references ↔
      name ≠ references.name ∧ (name ∈ references.classes ∨
        Redirect.Targets config.redirects (· ∈ references.methods) name) := by
  rw [dependenciesOf, Std.ExtTreeSet.mem_erase, Std.ExtTreeSet.mem_insertMany_list,
    List.contains_iff_mem, List.mem_map, Ne, Std.compare_eq_iff_eq, @eq_comm _ references.name]
  refine and_congr_right fun _ => or_congr_right ?_
  simp only [List.mem_filter, set_any_iff]
  constructor
  · rintro ⟨rule, ⟨hrule, callee, hcallee, hselects⟩, rfl⟩
    exact ⟨rule, callee, ⟨hrule, hcallee, hselects⟩, rfl⟩
  · rintro ⟨rule, callee, ⟨hrule, hcallee, hselects⟩, rfl⟩
    exact ⟨rule, ⟨hrule, callee, hcallee, hselects⟩, rfl⟩

theorem analyze_eq_ok {config : Config} {scan : Scan} {analysis : Analysis}
    (h : (analyze config scan).result = .ok analysis) :
    ∃ references, (referencesOf scan).result = .ok references ∧
      analysis = ofReferences config scan references := by
  rw [analyze, Traced.result_bind] at h
  obtain ⟨references, hreferences, h⟩ := Except.bind_eq_ok_iff.1 h
  refine ⟨references, hreferences, ?_⟩
  simp only [Traced.result_bind] at h
  obtain ⟨_, -, h⟩ := Except.bind_eq_ok_iff.1 h
  obtain ⟨_, -, h⟩ := Except.bind_eq_ok_iff.1 h
  exact (Except.ok.inj h).symm

/-- A class is kept as it was found, and marked with what the configuration says about it. -/
theorem exists_found_of_mem_kept {config : Config} {scan : Scan} {analysis : Analysis}
    (h : (analyze config scan).result = .ok analysis) {name : String} {entry : ClassEntry}
    (hkept : (name, entry) ∈ analysis.kept) :
    ∃ found, scan.classes[name]? = some found ∧ entry.bytes = found.bytes ∧
      entry.source = found.source ∧ entry.flags.renamed = config.renames? name ∧
        entry.flags.stubbed = config.replacesBodiesOf name := by
  obtain ⟨references, -, rfl⟩ := analyze_eq_ok h
  obtain ⟨hlookup, hflag⟩ := mem_kept_iff.1 hkept
  rw [ofReferences, Std.ExtTreeMap.getElem?_map, Option.map_eq_some_iff] at hlookup
  obtain ⟨found, hfound, rfl⟩ := hlookup
  refine ⟨found, hfound, rfl, rfl, ?_, ?_⟩
  · exact (congrArg (· && config.renames? name) hflag).trans (Bool.true_and _)
  · exact (congrArg (· && config.replacesBodiesOf name) hflag).trans (Bool.true_and _)

theorem result_logDropped (config : Config) (scan : Scan) :
    (logDropped config scan).result = .ok () := by
  rw [logDropped, Traced.result_bind, Traced.result_forIn]
  · rfl
  · intro path
    split <;> rfl

theorem result_logFindings (analysis : Analysis) : analysis.logFindings.result = .ok () := by
  have hloop : ∀ (names : List String) (f : String → String), (forIn names PUnit.unit fun name _ =>
      log .debug .analysis (f name) >>= fun _ => pure (ForInStep.yield PUnit.unit)).result =
        .ok PUnit.unit := fun _ _ => Traced.result_forIn fun _ => rfl
  unfold logFindings
  split <;> simp only [Traced.result_bind, result_log, hloop] <;> rfl

/-- Nothing of an analysis fails once the references are known. -/
theorem analyze_of_referencesOf {config : Config} {scan : Scan}
    {references : ReferenceMap} (h : (referencesOf scan).result = .ok references) :
    (analyze config scan).result = .ok (ofReferences config scan references) := by
  rw [analyze, Traced.result_bind, h]
  show ((logDropped config scan >>= _).result) = _
  rw [Traced.result_bind, result_logDropped]
  show ((logFindings _ >>= _).result) = _
  rw [Traced.result_bind, result_logFindings]
  rfl

section Known

variable {config : Config} {scan : Scan} {references : ReferenceMap}

theorem getElem?_candidates (h : (referencesOf scan).result = .ok references) {name : String}
    {targets : NameSet} :
    (candidates config references)[name]? = some targets ↔
      config.excludesClass name = false ∧
        ∃ entry, scan.Refers name entry ∧ dependenciesOf config entry = targets := by
  rw [candidates, Std.ExtTreeMap.getElem?_map, Std.ExtTreeMap.getElem?_filter']
  simp only [Option.map_eq_some_iff, Option.filter_eq_some_iff, getElem?_referencesOf h,
    Bool.not_eq_true']
  constructor
  · rintro ⟨entry, ⟨hrefers, hadmitted⟩, rfl⟩
    exact ⟨hadmitted, entry, hrefers, rfl⟩
  · rintro ⟨hadmitted, entry, hrefers, rfl⟩
    exact ⟨entry, ⟨hrefers, hadmitted⟩, rfl⟩

theorem mem_candidates_iff (h : (referencesOf scan).result = .ok references) {name : String} :
    name ∈ candidates config references ↔ config.Admits scan name := by
  simp only [mem_iff_exists_getElem?, getElem?_candidates h]
  constructor
  · rintro ⟨targets, hadmitted, entry, hrefers, -⟩
    exact ⟨hrefers.mem, hadmitted⟩
  · rintro ⟨hmem, hadmitted⟩
    obtain ⟨entry, hrefers⟩ := exists_refers_of_mem h hmem
    exact ⟨_, hadmitted, entry, hrefers, rfl⟩

theorem isSeed_iff (h : (referencesOf scan).result = .ok references) {name : String} :
    isSeed config (derivedFromAny references (config.derivedFrom.map internalName)) name = true ↔
      config.Selects scan name := by
  simp only [isSeed, Bool.or_eq_true, Std.ExtTreeSet.contains_iff_mem, mem_derivedFromAny_iff h,
    List.any_eq_true, Config.Selects, Config.renames?, Config.renameTable, List.mem_map,
    beq_iff_eq]
  constructor
  · rintro ((hderives | ⟨_, ⟨rule, hrule, rfl⟩, hsource⟩) | hinclude)
    · exact Or.inl hderives
    · exact Or.inr (Or.inr ⟨rule, hrule, hsource⟩)
    · exact Or.inr (Or.inl hinclude)
  · rintro (hderives | hinclude | ⟨rule, hrule, hsource⟩)
    · exact Or.inl (Or.inl hderives)
    · exact Or.inr hinclude
    · exact Or.inl (Or.inr ⟨_, ⟨rule, hrule, rfl⟩, hsource⟩)

/-- The names that an analysis reaches from its seeds. -/
def Reached (config : Config) (references : ReferenceMap) : String → Prop :=
  Graph.Reaches (candidates config references)
    (seeds config (derivedFromAny references (config.derivedFrom.map internalName))
      (candidates config references))

theorem reached_iff (h : (referencesOf scan).result = .ok references) {name : String} :
    Reached config references name ↔
      (config.Admits scan name ∧ config.Selects scan name) ∨
        ∃ other, (config.Admits scan other ∧ Reached config references other) ∧
          config.Depends scan other name := by
  constructor
  · intro hreached
    cases hreached with
    | start hseed =>
        rw [seeds, List.mem_filter, Std.ExtTreeMap.mem_keys, mem_candidates_iff h,
          isSeed_iff h] at hseed
        exact Or.inl hseed
    | @step other _ targets hother hlist hmem =>
        obtain ⟨hadmitted, entry, hrefers, rfl⟩ := (getElem?_candidates h).1 hlist
        exact Or.inr ⟨other, ⟨⟨hrefers.mem, hadmitted⟩, hother⟩, entry, hrefers, hmem⟩
  · rintro (hseed | ⟨other, ⟨⟨-, hadmitted⟩, hother⟩, entry, hrefers, hmem⟩)
    · refine .start ?_
      rw [seeds, List.mem_filter, Std.ExtTreeMap.mem_keys, mem_candidates_iff h, isSeed_iff h]
      exact hseed
    · exact hother.step ((getElem?_candidates h).2 ⟨hadmitted, entry, hrefers, rfl⟩) hmem

theorem reached_least (h : (referencesOf scan).result = .ok references) {kept : Set String}
    (hclosed : config.Closed scan kept) {name : String} (hreached : Reached config references name)
    (hadmitted : config.Admits scan name) : name ∈ kept := by
  induction hreached with
  | start hseed =>
      rw [seeds, List.mem_filter, isSeed_iff h] at hseed
      exact hclosed.seeds _ hadmitted hseed.2
  | @step other target targets _ hlist hmem ih =>
      obtain ⟨hother, entry, hrefers, rfl⟩ := (getElem?_candidates h).1 hlist
      have hkept : other ∈ kept := ih ⟨hrefers.mem, hother⟩
      exact hclosed.targets other hkept target ⟨entry, hrefers, hmem⟩ hadmitted

theorem mem_keptNames_iff (h : (referencesOf scan).result = .ok references) {name : String} :
    name ∈ (ofReferences config scan references).keptNames ↔
      config.Admits scan name ∧ Reached config references name := by
  simp only [keptNames, ofReferences, Set.mem_ofPred_eq, Std.ExtTreeMap.getElem?_map,
    Option.map_eq_some_iff]
  constructor
  · rintro ⟨entry, ⟨found, -, rfl⟩, hkept⟩
    rw [Bool.and_eq_true, Std.ExtTreeMap.contains_iff_mem, Std.ExtTreeSet.contains_iff_mem,
      mem_candidates_iff h, Graph.mem_reach_iff] at hkept
    exact hkept
  · rintro ⟨hadmitted, hreached⟩
    obtain ⟨found, hfound⟩ := mem_iff_exists_getElem?.1 hadmitted.1
    refine ⟨_, ⟨found, hfound, rfl⟩, ?_⟩
    rw [Bool.and_eq_true, Std.ExtTreeMap.contains_iff_mem, Std.ExtTreeSet.contains_iff_mem,
      mem_candidates_iff h, Graph.mem_reach_iff]
    exact ⟨hadmitted, hreached⟩

theorem isLeast_keptNames (h : (referencesOf scan).result = .ok references) :
    IsLeast {kept | config.Closed scan kept} (ofReferences config scan references).keptNames := by
  constructor
  · constructor
    · intro name hadmitted hselects
      exact (mem_keptNames_iff h).2 ⟨hadmitted, (reached_iff h).2 (Or.inl ⟨hadmitted, hselects⟩)⟩
    · intro name hname target hdepends hadmitted
      refine (mem_keptNames_iff h).2 ⟨hadmitted, (reached_iff h).2 (Or.inr ⟨name, ?_, hdepends⟩)⟩
      exact (mem_keptNames_iff h).1 hname
  · intro kept hclosed name hname
    obtain ⟨hadmitted, hreached⟩ := (mem_keptNames_iff h).1 hname
    exact reached_least h hclosed hreached hadmitted

theorem getElem?_graph (h : (referencesOf scan).result = .ok references) {name : String}
    {targets : NameSet} :
    (ofReferences config scan references).graph[name]? = some targets ↔
      name ∈ (ofReferences config scan references).keptNames ∧
        ∃ entry, scan.Refers name entry ∧ dependenciesOf config entry = targets := by
  rw [mem_keptNames_iff h]
  simp only [ofReferences, Std.ExtTreeMap.getElem?_filter', Option.filter_eq_some_iff,
    getElem?_candidates h, Std.ExtTreeSet.contains_iff_mem, Graph.mem_reach_iff]
  constructor
  · rintro ⟨⟨hadmitted, entry, hrefers, rfl⟩, hreached⟩
    exact ⟨⟨⟨hrefers.mem, hadmitted⟩, hreached⟩, entry, hrefers, rfl⟩
  · rintro ⟨⟨⟨-, hadmitted⟩, hreached⟩, entry, hrefers, rfl⟩
    exact ⟨⟨hadmitted, entry, hrefers, rfl⟩, hreached⟩

/-- A reached name that cannot be kept is a dependency of a kept class. -/
theorem reached_iff_of_not_admits (h : (referencesOf scan).result = .ok references) {name : String}
    (hname : ¬config.Admits scan name) :
    Reached config references name ↔
      ∃ other ∈ (ofReferences config scan references).keptNames,
        config.Depends scan other name := by
  rw [reached_iff h]
  simp only [hname, false_and, false_or, mem_keptNames_iff h]

theorem mem_missing_iff (h : (referencesOf scan).result = .ok references) {name : String} :
    name ∈ (ofReferences config scan references).missing ↔
      (∃ other ∈ (ofReferences config scan references).keptNames,
        config.Depends scan other name) ∧
      config.excludesClass name = false ∧ name ∉ scan.classes := by
  have hunfold : name ∈ (ofReferences config scan references).missing ↔
      Reached config references name ∧ config.excludesClass name = false ∧
        name ∉ scan.classes := by
    rw [Reached, ← Graph.mem_reach_iff, ← Std.ExtTreeMap.contains_iff_mem,
      Bool.not_eq_true]
    simp [ofReferences, and_left_comm]
  rw [hunfold]
  refine and_congr_left fun hname => reached_iff_of_not_admits h ?_
  exact fun hadmits => hname.2 hadmits.1

theorem mem_excludedReferences_iff (h : (referencesOf scan).result = .ok references)
    {name : String} :
    name ∈ (ofReferences config scan references).excludedReferences ↔
      (∃ other ∈ (ofReferences config scan references).keptNames,
        config.Depends scan other name) ∧ config.excludesClass name = true := by
  have hunfold : name ∈ (ofReferences config scan references).excludedReferences ↔
      Reached config references name ∧ config.excludesClass name = true := by
    rw [Reached, ← Graph.mem_reach_iff]
    simp [ofReferences]
  rw [hunfold]
  refine and_congr_left fun hname => reached_iff_of_not_admits h ?_
  exact fun hadmits => by simp [hadmits.2] at hname

end Known

/-- Exactly one of three statements holds. -/
def ExactlyOne (a b c : Prop) : Prop :=
  (a ∧ ¬b ∧ ¬c) ∨ (¬a ∧ b ∧ ¬c) ∨ (¬a ∧ ¬b ∧ c)

theorem exactlyOne_of_mem_targets {config : Config} {scan : Scan} {references : ReferenceMap}
    (h : (referencesOf scan).result = .ok references) {name target : String}
    (hname : name ∈ (ofReferences config scan references).keptNames)
    (htarget : config.Depends scan name target) :
    ExactlyOne (target ∈ (ofReferences config scan references).keptNames)
      (target ∈ (ofReferences config scan references).missing)
      (target ∈ (ofReferences config scan references).excludedReferences) := by
  have hreached : Reached config references target :=
    (reached_iff h).2 (Or.inr ⟨name, (mem_keptNames_iff h).1 hname, htarget⟩)
  have hfrom : ∃ other ∈ (ofReferences config scan references).keptNames,
      config.Depends scan other target := ⟨name, hname, htarget⟩
  rw [mem_missing_iff h, mem_excludedReferences_iff h, mem_keptNames_iff h]
  simp only [ExactlyOne, hreached, hfrom, Config.Admits, and_true, true_and]
  cases config.excludesClass target with
  | true => simp
  | false =>
      by_cases hmem : target ∈ scan.classes
      · simp [hmem]
      · simp [hmem]

theorem isLeast_keptNames_of_analyze {config : Config} {scan : Scan} {analysis : Analysis}
    (h : (analyze config scan).result = .ok analysis) :
    IsLeast {kept | config.Closed scan kept} analysis.keptNames ∧
      (∀ name ∈ analysis.keptNames, config.excludesClass name = false) ∧
      (∀ name, name ∈ analysis.graph ↔ name ∈ analysis.keptNames) ∧
      (∀ name targets, analysis.graph[name]? = some targets →
        ∀ target, target ∈ targets ↔ config.Depends scan name target) ∧
      (∀ name ∈ analysis.keptNames, ∀ target, config.Depends scan name target →
        ExactlyOne (target ∈ analysis.keptNames) (target ∈ analysis.missing)
          (target ∈ analysis.excludedReferences)) ∧
      (∀ target, target ∈ analysis.missing ↔
        (∃ name ∈ analysis.keptNames, config.Depends scan name target) ∧
          config.excludesClass target = false ∧ target ∉ scan.classes) ∧
      (∀ target, target ∈ analysis.excludedReferences ↔
        (∃ name ∈ analysis.keptNames, config.Depends scan name target) ∧
          config.excludesClass target = true) := by
  obtain ⟨references, hreferences, rfl⟩ := analyze_eq_ok h
  refine ⟨isLeast_keptNames hreferences, ?_, ?_, ?_, ?_, ?_, ?_⟩
  · intro name hname
    exact ((mem_keptNames_iff hreferences).1 hname).1.2
  · intro name
    rw [Std.ExtTreeMap.mem_iff_isSome_getElem?, Option.isSome_iff_exists]
    simp only [getElem?_graph hreferences]
    constructor
    · rintro ⟨_, hname, -⟩
      exact hname
    · intro hname
      have hmem := ((mem_keptNames_iff hreferences).1 hname).1.1
      obtain ⟨entry, hrefers⟩ := exists_refers_of_mem hreferences hmem
      exact ⟨_, hname, entry, hrefers, rfl⟩
  · intro name targets hlist target
    obtain ⟨-, entry, hrefers, rfl⟩ := (getElem?_graph hreferences).1 hlist
    constructor
    · intro htarget
      exact ⟨entry, hrefers, htarget⟩
    · rintro ⟨other, hother, htarget⟩
      rwa [hrefers.unique hother]
  · intro name hname target htarget
    exact exactlyOne_of_mem_targets hreferences hname htarget
  · intro target
    exact mem_missing_iff hreferences
  · intro target
    exact mem_excludedReferences_iff hreferences

/-- A scan of one class `A`, which names a class `B` that no input holds. -/
def scanNamingB : Scan :=
  { classes := .ofList [("A", FoundClass.mk
      [0xca, 0xfe, 0xba, 0xbe, 0, 0, 0, 52, 0, 5, 1, 0, 1, 65, 7, 0, 1, 1, 0, 1, 66, 7, 0, 3,
        0, 0x21, 0, 2, 0, 4, 0, 0, 0, 0, 0, 0, 0, 0] "a.jar")] }

theorem isLeast_keptNames_of_analyze_scanNamingB :
    ∃ analysis, (analyze { includes := ["A"] } scanNamingB).result = .ok analysis ∧
      "A" ∈ analysis.keptNames ∧
      ∀ target, target ∈ analysis.missing →
        Config.Depends { includes := ["A"] } scanNamingB "A" target := by
  have hok : (analyze { includes := ["A"] } scanNamingB).result.toBool = true := by cbv
  obtain ⟨analysis, hanalysis⟩ := Except.exists_eq_ok hok
  have hmem : "A" ∈ scanNamingB.classes := by simp [scanNamingB]
  have hmatch : (Glob.ofClass "A").isMatch (binaryName "A") = true := by cbv
  have hleast := isLeast_keptNames_of_analyze hanalysis
  refine ⟨analysis, hanalysis, ?_, ?_⟩
  · refine hleast.1.1.seeds "A" ⟨hmem, rfl⟩ (Or.inr (Or.inl ⟨"A", ?_, hmatch⟩))
    exact List.mem_singleton.2 rfl
  · intro target htarget
    obtain ⟨⟨name, hname, hdepends⟩, -⟩ := (hleast.2.2.2.2.2.1 target).1 htarget
    have hname : name = "A" := by
      obtain ⟨entry, hrefers, -⟩ := hdepends
      have heq : "A" = name := by simpa [scanNamingB] using hrefers.mem
      exact heq.symm
    rwa [hname] at hdepends

end Analysis

end JarTailor
