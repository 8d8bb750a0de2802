import JarTailor.Proofs.Jar.FirstWins
import JarTailor.Proofs.Jar.Reported
import Mathlib

/-!
# Who depends on what

The part of a report that is about one input lists what the classes taken from there refer to and
the input itself does not have. Leaving out what other inputs have takes whole dependencies away
and changes no other.
-/

namespace JarTailor.Dependencies

/-- A class that was taken from the listed input refers to another, which that input does not
have. -/
def Uses (scan : Scan) (listing : Listing) (name target : String) : Prop :=
  name ∈ listing.classes ∧ target ∉ listing.classes ∧ ∃ found references,
    scan.classes[name]? = some found ∧ Path.same found.source listing.path = true ∧
      References.ofBytes found.bytes = .ok references ∧ target ∈ references.classes

/-- Some input has the class. -/
def Defined (scan : Scan) (target : String) : Prop :=
  ∃ listing ∈ scan.listings, target ∈ listing.classes

/-- No dependency is listed without a class that refers to it. -/
def Populated (known : ReferrerMap) : Prop :=
  ∀ (dependency : String) (referrers : NameSet), known[dependency]? = some referrers →
    ∃ referrer, referrer ∈ referrers

/-- The entry of a report lists what the classes of an input use and who uses it, by binary
names. -/
structure Covers (scan : Scan) (missingOnly : Bool) (listing : Listing)
    (entry : InputDependencies) : Prop where
  path : entry.path = listing.path
  leads : ∀ dependency referrer, Graph.Leads entry.dependencies dependency referrer ↔
    ∃ name target, Uses scan listing name target ∧ (missingOnly = true → ¬Defined scan target) ∧
      binaryName target = dependency ∧ binaryName name = referrer
  populated : Populated entry.dependencies

/-- The second entry is the first without the dependencies that some input has. Several classes of
one binary name are one dependency, of which nothing is said if inputs have some of them only. -/
structure Restricts (scan : Scan) (listing : Listing) (full missing : InputDependencies) :
    Prop where
  path : missing.path = full.path
  kept : ∀ dependency, (∀ name target, Uses scan listing name target →
    binaryName target = dependency → ¬Defined scan target) →
      missing.dependencies[dependency]? = full.dependencies[dependency]?
  dropped : ∀ dependency, (∀ name target, Uses scan listing name target →
    binaryName target = dependency → Defined scan target) →
      missing.dependencies[dependency]? = none

section Steps

variable {scan : Scan} {missingOnly : Bool} {listing : Listing} {known after : ReferrerMap}

theorem addClass_eq_ok {defined : NameSet} {name : String}
    (h : addClass scan missingOnly listing defined known name = .ok after) :
    (supplied? scan listing name = none ∧ after = known) ∨
      ∃ (found : FoundClass) (references : References) (targets : List String),
        supplied? scan listing name = some found ∧
          References.ofBytes found.bytes = .ok references ∧
            after = targets.foldl (addReference name) known := by
  unfold addClass at h
  split at h
  · next hsupplied => exact Or.inl ⟨hsupplied, (Except.ok.inj h).symm⟩
  · next found hsupplied =>
      obtain ⟨references, hreferences, h⟩ := Except.bind_eq_ok_iff.1 h
      exact Or.inr ⟨found, references, _, hsupplied, Except.within_eq_ok_iff.1 hreferences,
        (Except.ok.inj h).symm⟩

theorem Populated.of_addReferences {name : String} {targets : List String} (h : Populated known) :
    Populated (targets.foldl (addReference name) known) := by
  induction targets generalizing known with
  | nil => exact h
  | cons target targets ih =>
      refine ih fun dependency referrers hreferrers => ?_
      rw [addReference, Std.ExtTreeMap.getElem?_alter] at hreferrers
      split at hreferrers
      · obtain rfl := Option.some.inj hreferrers
        exact ⟨binaryName name, Std.ExtTreeSet.mem_insert_self⟩
      · exact h dependency referrers hreferrers

/-- The classes that a successful run goes through could be read. -/
theorem addClasses_eq_ok {defined : NameSet} {names : List String}
    (h : names.foldlM (addClass scan missingOnly listing defined) known = .ok after) :
    (Populated known → Populated after) ∧
      ∀ name ∈ names, ∀ found, supplied? scan listing name = some found →
        ∃ references, References.ofBytes found.bytes = .ok references := by
  induction names generalizing known with
  | nil =>
      cases h
      exact ⟨id, fun _ hname => absurd hname List.not_mem_nil⟩
  | cons name names ih =>
      rw [List.foldlM_cons] at h
      obtain ⟨middle, hname, h⟩ := Except.bind_eq_ok_iff.1 h
      obtain ⟨hpopulated, hread⟩ := ih h
      rcases addClass_eq_ok hname with
        ⟨hsupplied, rfl⟩ | ⟨found, references, targets, hsupplied, hreferences, rfl⟩
      · refine ⟨hpopulated, List.forall_mem_cons.2 ⟨fun found hfound => ?_, hread⟩⟩
        rw [hsupplied] at hfound
        cases hfound
      · refine ⟨fun hknown => hpopulated hknown.of_addReferences,
          List.forall_mem_cons.2 ⟨fun other hother => ?_, hread⟩⟩
        obtain rfl : found = other := Option.some.inj (hsupplied.symm.trans hother)
        exact ⟨references, hreferences⟩

theorem reports_iff_uses (hlisted : scan.Listed) {name target : String} :
    name ∈ listing.classes ∧ Reports scan missingOnly listing name target ↔
      Uses scan listing name target ∧ (missingOnly = true → ¬Defined scan target) := by
  have hdefined : Defined scan target ↔ target ∈ scan.classes := hlisted.mem_iff.symm
  simp only [Reports, Uses, supplied?, isReported_iff, Option.filter_eq_some_iff, hdefined]
  constructor
  · rintro ⟨hname, found, references, ⟨hfound, hpath⟩, hreferences, htarget, hother, hmissing⟩
    exact ⟨⟨hname, hother, found, references, hfound, hpath, hreferences, htarget⟩, hmissing⟩
  · rintro ⟨⟨hname, hother, found, references, hfound, hpath, hreferences, htarget⟩, hmissing⟩
    exact ⟨hname, found, references, ⟨hfound, hpath⟩, hreferences, htarget, hother, hmissing⟩

theorem covers_of_ofListing (hlisted : scan.Listed) {entry : InputDependencies}
    (h : ofListing scan missingOnly listing = .ok entry) :
    Covers scan missingOnly listing entry := by
  obtain ⟨dependencies, hdependencies, hentry⟩ := Except.bind_eq_ok_iff.1 h
  obtain rfl := Except.ok.inj hentry
  obtain ⟨hpopulated, hread⟩ := addClasses_eq_ok hdependencies
  obtain ⟨other, hother, hleads⟩ := @exists_ofListing scan missingOnly listing hread
  obtain rfl := Except.ok.inj (h.symm.trans hother)
  refine ⟨rfl, fun dependency referrer => ?_, hpopulated fun dependency referrers hnone => ?_⟩
  · rw [hleads]
    constructor
    · rintro ⟨name, hname, target, hreports, hnames⟩
      obtain ⟨huses, hmissing⟩ := (reports_iff_uses hlisted).1 ⟨hname, hreports⟩
      exact ⟨name, target, huses, hmissing, hnames⟩
    · rintro ⟨name, target, huses, hmissing, hnames⟩
      obtain ⟨hname, hreports⟩ := (reports_iff_uses hlisted).2 ⟨huses, hmissing⟩
      exact ⟨name, hname, target, hreports, hnames⟩
  · rw [Std.ExtTreeMap.getElem?_empty] at hnone
    cases hnone

end Steps

section Entries

variable {scan : Scan} {missingOnly : Bool} {listing : Listing} {full missing : InputDependencies}

/-- Where every dependency has a class that refers to it, the references tell the map. -/
theorem getElem?_eq_of_leads {first second : ReferrerMap} (hfirst : Populated first)
    (hsecond : Populated second) {dependency : String}
    (h : ∀ referrer, Graph.Leads first dependency referrer ↔
      Graph.Leads second dependency referrer) : first[dependency]? = second[dependency]? := by
  have hsome : ∀ {known other : ReferrerMap}, Populated known →
      (∀ referrer, Graph.Leads known dependency referrer ↔ Graph.Leads other dependency referrer) →
      ∀ referrers, known[dependency]? = some referrers → other[dependency]? = some referrers := by
    intro known other hknown hleads referrers hreferrers
    obtain ⟨referrer, hmem⟩ := hknown dependency referrers hreferrers
    obtain ⟨others, hothers, -⟩ := (hleads referrer).1 ⟨referrers, hreferrers, hmem⟩
    rw [hothers]
    refine congrArg some (Std.ExtTreeSet.ext_mem fun name => ?_)
    have hname := hleads name
    simp only [Graph.Leads, hreferrers, hothers, Option.some.injEq, exists_eq_left'] at hname
    exact hname.symm
  refine Option.ext fun referrers => ⟨hsome hfirst h referrers, ?_⟩
  exact hsome hsecond (fun referrer => (h referrer).symm) referrers

theorem Covers.restricts (hfull : Covers scan false listing full)
    (hmissing : Covers scan true listing missing) : Restricts scan listing full missing where
  path := hmissing.path.trans hfull.path.symm
  kept dependency hundefined := by
    refine getElem?_eq_of_leads hmissing.populated hfull.populated fun referrer => ?_
    rw [hmissing.leads, hfull.leads]
    refine exists_congr fun name => exists_congr fun target => and_congr_right fun huses => ?_
    constructor
    · rintro ⟨-, hdependency, hreferrer⟩
      exact ⟨nofun, hdependency, hreferrer⟩
    · rintro ⟨-, hdependency, hreferrer⟩
      exact ⟨fun _ => hundefined name target huses hdependency, hdependency, hreferrer⟩
  dropped dependency hdefined := by
    refine Option.eq_none_iff_forall_ne_some.2 fun referrers hreferrers => ?_
    obtain ⟨referrer, hmem⟩ := hmissing.populated dependency referrers hreferrers
    obtain ⟨name, target, huses, hundefined, hdependency, -⟩ :=
      (hmissing.leads dependency referrer).1 ⟨referrers, hreferrers, hmem⟩
    exact hundefined rfl (hdefined name target huses hdependency)

end Entries

section Reports

variable {scan : Scan} {missingOnly : Bool} {report : List InputDependencies}

theorem covers_of_listings (hlisted : scan.Listed)
    (h : dependencyReport scan missingOnly = .ok report) :
    List.Forall₂ (Covers scan missingOnly) scan.listings report :=
  (Except.mapM_eq_ok_iff.1 h).imp fun _ _ => covers_of_ofListing hlisted

/-- Whether a report can be made does not depend on what it leaves out. -/
theorem exists_dependencyReport_of_eq_ok (h : dependencyReport scan missingOnly = .ok report)
    (other : Bool) : ∃ others, dependencyReport scan other = .ok others := by
  refine Except.exists_mapM_eq_ok fun listing hlisting => ?_
  obtain ⟨entry, -, hentry⟩ := exists_related_right (Except.mapM_eq_ok_iff.1 h) hlisting
  obtain ⟨_, hdependencies, -⟩ := Except.bind_eq_ok_iff.1 hentry
  exact (exists_ofListing (addClasses_eq_ok hdependencies).2).imp fun _ hother => hother.1

end Reports

/-- A report has an entry for every input in the order of the inputs. It lists exactly what the
classes taken from that input use, and a report of what is missing is the full report without what
the inputs have. -/
theorem covers_of_dependencyReport {inputs : List Input} {scan : Scan} {missingOnly : Bool}
    {report : List InputDependencies} (hscan : (scanInputs inputs).result = .ok scan)
    (hreport : dependencyReport scan missingOnly = .ok report) :
    report.map (·.path) = inputs.map (·.path) ∧
      List.Forall₂ (Covers scan missingOnly) scan.listings report ∧
        ∃ full missing, dependencyReport scan false = .ok full ∧
          dependencyReport scan true = .ok missing ∧
            List.Forall₂ (fun listing pair => Restricts scan listing pair.1 pair.2) scan.listings
              (full.zip missing) := by
  have hlisted := Scan.listed_of_scanInputs hscan
  have hcovers := covers_of_listings hlisted hreport
  obtain ⟨full, hfull⟩ := exists_dependencyReport_of_eq_ok hreport false
  obtain ⟨missing, hmissing⟩ := exists_dependencyReport_of_eq_ok hreport true
  refine ⟨?_, hcovers, full, missing, hfull, hmissing, ?_⟩
  · have hpaths : scan.listings.map (·.path) = report.map (·.path) :=
      map_eq_map_of_related hcovers fun _ _ hcover => hcover.path.symm
    rw [← hpaths, (Scan.listings_of_scanInputs hscan).1, List.map_map]
    rfl
  · exact related_zip (covers_of_listings hlisted hfull) (covers_of_listings hlisted hmissing)
      fun _ _ _ => Covers.restricts

/-- An input whose class `A` cannot be read. -/
def inputShadowed : Input :=
  ⟨"b.jar", .ok [("A.class", [])]⟩

def scanShadowing : Scan :=
  { scanOfA with listings := [⟨"a.jar", ["A"]⟩, ⟨"b.jar", ["A"]⟩], classCount := 2 }

theorem scanInputs_inputShadowed :
    (scanInputs [inputOfA, inputShadowed]).result = .ok scanShadowing := by
  rw [← List.singleton_append, scanInputs, List.foldlM_append, Traced.result_bind, ← scanInputs,
    scanInputs_inputOfA]
  show (List.foldlM Scan.addInput scanOfA [inputShadowed]).result = _
  rw [List.foldlM_cons, inputShadowed, Scan.addInput_of_archive (by decide), Scan.addArchive,
    Archive.files_of_sorted (by decide) (List.pairwise_singleton _ _)]
  rfl

/-- The second input has a class `A` too, which is not looked at. -/
theorem covers_of_dependencyReport_inputShadowed :
    ∃ report, dependencyReport scanShadowing true = .ok report ∧
      report.map (·.path) = ["a.jar", "b.jar"] ∧ Lists report "B" "A" := by
  have hreferences : (References.ofBytes classExtendingB.encode).map (·.classes.toList) =
      .ok ["B"] := by cbv
  obtain ⟨references, hreferences, hclasses⟩ := Except.map_eq_ok_iff.1 hreferences
  have hfound : scanShadowing.classes["A"]? =
      some (FoundClass.mk classExtendingB.encode "a.jar") := rfl
  obtain ⟨report, hreport, -⟩ := @exists_dependencyReport scanShadowing true fun name hname => by
    have hname : "A" = name := by simpa [scanShadowing, scanOfA] using hname
    exact ⟨references, _, hname ▸ hfound, hreferences⟩
  obtain ⟨hpaths, hcovers, -⟩ := covers_of_dependencyReport scanInputs_inputShadowed hreport
  have huses : Uses scanShadowing ⟨"a.jar", ["A"]⟩ "A" "B" := by
    refine ⟨by decide, by decide, _, references, hfound, Path.same_iff.2 ⟨rfl, rfl⟩, hreferences,
      ?_⟩
    rw [← Std.ExtTreeSet.mem_toList, hclasses]
    exact List.mem_cons_self
  have hundefined : ¬Defined scanShadowing "B" := by
    rintro ⟨listing, hlisting, hmem⟩
    simp only [scanShadowing, List.mem_cons, List.not_mem_nil, or_false] at hlisting
    rcases hlisting with rfl | rfl <;> exact absurd hmem (by decide)
  obtain ⟨first, others, hfirst, -, rfl⟩ := List.forall₂_cons_left_iff.1 hcovers
  refine ⟨first :: others, hreport, hpaths, first, List.mem_cons_self, ?_⟩
  exact (hfirst.leads "B" "A").2 ⟨"A", "B", huses, fun _ => hundefined, by cbv, by cbv⟩

end JarTailor.Dependencies
