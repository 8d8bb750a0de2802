import JarTailor.Jar.Dependencies
import JarTailor.Proofs.Jar.Monotone
import Mathlib

/-!
# What a dependency report lists

A report goes through the inputs one by one, an analysis follows the references of the kept classes.
Where every class is kept, both tell of the same missing classes and of the same classes that refer
to them.
-/

namespace JarTailor

namespace Scan

/-- What some entries of the input at `source` add to a scan: the classes they hold under `names`,
but for those that were there before. -/
structure Supplies (source : String) (before after : Scan) (names : List String) : Prop where
  within : before.Within after
  origin : ∀ (name : String) (found : FoundClass), after.classes[name]? = some found →
    before.classes[name]? = some found ∨ found.source = source ∧ name ∈ names
  held : ∀ name ∈ names, name ∈ after.classes
  listings : after.listings = before.listings

/-- Every class is listed for the input it was taken from, and what is listed was taken. -/
structure Listed (scan : Scan) : Prop where
  origin : ∀ (name : String) (found : FoundClass), scan.classes[name]? = some found →
    ∃ listing ∈ scan.listings, listing.path = found.source ∧ name ∈ listing.classes
  held : ∀ listing ∈ scan.listings, ∀ name ∈ listing.classes, name ∈ scan.classes

section Steps

variable {source : String} {before middle after : Scan}

theorem Supplies.refl (source : String) (scan : Scan) : Supplies source scan scan [] :=
  ⟨.refl scan, fun _ _ h => Or.inl h, fun _ h => absurd h List.not_mem_nil, rfl⟩

theorem Supplies.trans {names others : List String} (h : Supplies source before middle names)
    (h' : Supplies source middle after others) :
    Supplies source before after (names ++ others) where
  within := h.within.trans h'.within
  origin name found hfound := by
    rcases h'.origin name found hfound with hmiddle | ⟨hsource, hname⟩
    · rcases h.origin name found hmiddle with hbefore | ⟨hsource, hname⟩
      · exact Or.inl hbefore
      · exact Or.inr ⟨hsource, List.mem_append_left _ hname⟩
    · exact Or.inr ⟨hsource, List.mem_append_right _ hname⟩
  held name hname := by
    rcases List.mem_append.1 hname with hname | hname
    · exact h'.within.mem (h.held name hname)
    · exact h'.held name hname
  listings := h'.listings.trans h.listings

theorem supplies_of_addEntry {path : String} {bytes : Bytes} {name : Option String}
    (h : (addEntry source before path bytes).result = .ok (after, name)) :
    Supplies source before after name.toList := by
  have hwithin := within_of_addEntry h
  unfold addEntry at h
  split at h
  · next own _ =>
      split at h
      · next hmem =>
          cases h
          refine ⟨hwithin, fun _ _ => Or.inl, fun other hother => ?_, rfl⟩
          rw [List.mem_singleton.1 hother]
          exact Std.ExtTreeMap.contains_iff_mem.1 hmem
      · cases h
        refine ⟨hwithin, fun other found hfound => ?_, fun other hother => ?_, rfl⟩
        · rw [Std.ExtTreeMap.getElem?_insert] at hfound
          split at hfound
          · next heq =>
              obtain rfl := Std.compare_eq_iff_eq.1 heq
              cases hfound
              exact Or.inr ⟨rfl, List.mem_singleton_self _⟩
          · exact Or.inl hfound
        · rw [List.mem_singleton.1 hother]
          exact Std.ExtTreeMap.mem_insert_self
  · cases h
    exact ⟨hwithin, fun _ _ => Or.inl, fun _ hother => absurd hother List.not_mem_nil, rfl⟩
  · cases h
    exact .refl source before

theorem supplies_of_addEntries {entries : Archive} {names : List String}
    (h : (addEntries source before entries).result = .ok (after, names)) :
    Supplies source before after names := by
  induction entries generalizing before names with
  | nil =>
      cases h
      exact .refl source after
  | cons entry entries ih =>
      obtain ⟨path, bytes⟩ := entry
      simp only [addEntries, Traced.result_bind] at h
      obtain ⟨⟨middle, name⟩, hentry, h⟩ := Except.bind_eq_ok_iff.1 h
      obtain ⟨⟨last, others⟩, hentries, h⟩ := Except.bind_eq_ok_iff.1 h
      cases h
      exact (supplies_of_addEntry hentry).trans (ih hentries)

theorem Supplies.listed {names : List String} (h : Supplies source before after names)
    (hlisted : before.Listed) :
    Listed { after with listings := after.listings ++ [⟨source, names⟩] } where
  origin name found hfound := by
    rcases h.origin name found hfound with hbefore | ⟨hsource, hname⟩
    · obtain ⟨listing, hlisting, hpath⟩ := hlisted.origin name found hbefore
      exact ⟨listing, List.mem_append_left _ (h.listings ▸ hlisting), hpath⟩
    · exact ⟨⟨source, names⟩, List.mem_append_right _ (List.mem_singleton_self _), hsource.symm,
        hname⟩
  held listing hlisting name hname := by
    rcases List.mem_append.1 hlisting with hlisting | hlisting
    · exact h.within.mem (hlisted.held listing (h.listings ▸ hlisting) name hname)
    · rw [List.mem_singleton.1 hlisting] at hname
      exact h.held name hname

theorem listed_of_addInput {input : Input} (hlisted : before.Listed)
    (h : (addInput before input).result = .ok after) : after.Listed := by
  obtain ⟨archive, scan, names, -, hentries, rfl⟩ := addInput_eq_ok h
  exact (supplies_of_addEntries hentries).listed hlisted

theorem Listed.mem_iff {scan : Scan} (h : scan.Listed) {name : String} :
    name ∈ scan.classes ↔ ∃ listing ∈ scan.listings, name ∈ listing.classes := by
  constructor
  · intro hmem
    obtain ⟨found, hfound⟩ := mem_iff_exists_getElem?.1 hmem
    obtain ⟨listing, hlisting, -, hname⟩ := h.origin name found hfound
    exact ⟨listing, hlisting, hname⟩
  · rintro ⟨listing, hlisting, hname⟩
    exact h.held listing hlisting name hname

end Steps

theorem listed_of_scanInputs {inputs : List Input} {scan : Scan}
    (h : (scanInputs inputs).result = .ok scan) : scan.Listed := by
  refine Traced.foldlM_preserves (fun _ _ _ => listed_of_addInput) ?_ h
  refine ⟨fun name found hfound => ?_, fun _ hlisting => absurd hlisting List.not_mem_nil⟩
  rw [Std.ExtTreeMap.getElem?_empty] at hfound
  cases hfound

end Scan

section Leads

variable {graph : Graph} {parent name : String}

theorem Graph.leads_alter_iff {added key : String} :
    Graph.Leads (graph.alter key fun known => some ((known.getD ∅).insert added)) parent name ↔
      (key = parent ∧ added = name) ∨ graph.Leads parent name := by
  unfold Graph.Leads
  rw [Std.ExtTreeMap.getElem?_alter]
  by_cases hkey : key = parent
  · subst hkey
    simp only [Std.ReflCmp.compare_self, if_true, Option.some.injEq, exists_eq_left', true_and,
      Std.ExtTreeSet.mem_insert, Std.compare_eq_iff_eq]
    cases graph[key]? with
    | none => simp
    | some names => simp
  · have hcompare : ¬compare key parent = .eq := fun heq => hkey (Std.compare_eq_iff_eq.1 heq)
    simp only [if_neg hcompare, hkey, false_and, false_or]

theorem Graph.leads_addAll_iff {added : String} {parents : List String} :
    (parents.foldl (fun graph parent =>
      graph.alter parent fun known => some ((known.getD ∅).insert added)) graph).Leads parent name ↔
      (parent ∈ parents ∧ added = name) ∨ graph.Leads parent name := by
  induction parents generalizing graph with
  | nil => simp
  | cons first parents ih =>
      rw [List.foldl_cons, ih, Graph.leads_alter_iff, List.mem_cons, or_and_right, or_assoc,
        or_left_comm, @eq_comm _ parent first]

end Leads

namespace Dependencies

/-- One class of a listing refers to another, which is to be reported. -/
def Reports (scan : Scan) (missingOnly : Bool) (listing : Listing) (name target : String) : Prop :=
  ∃ found references, supplied? scan listing name = some found ∧
    References.ofBytes found.bytes = .ok references ∧ target ∈ references.classes ∧
      isReported scan missingOnly (.ofList listing.classes) target = true

/-- The report has the second class among those that refer to the first, both by binary name. -/
def Lists (report : List InputDependencies) (dependency referrer : String) : Prop :=
  ∃ input ∈ report, Graph.Leads input.dependencies dependency referrer

section Listings

variable {scan : Scan} {missingOnly : Bool} {listing : Listing} {dependency referrer : String}

theorem isReported_iff {target : String} :
    isReported scan missingOnly (.ofList listing.classes) target = true ↔
      target ∉ listing.classes ∧ (missingOnly = true → target ∉ scan.classes) := by
  cases missingOnly <;>
    simp only [isReported, Bool.true_and, Bool.false_and, Bool.and_eq_true, Bool.not_eq_true',
      ← Bool.not_eq_true, Std.ExtTreeMap.contains_iff_mem, Std.ExtTreeSet.contains_iff_mem,
      Std.ExtTreeSet.mem_ofList, List.contains_iff_mem, Bool.false_eq_true, and_true,
      false_implies, true_implies]

theorem leads_addReferences_iff {name : String} {targets : List String} {known : ReferrerMap} :
    Graph.Leads (targets.foldl (addReference name) known) dependency referrer ↔
      (∃ target ∈ targets, binaryName target = dependency ∧ binaryName name = referrer) ∨
        Graph.Leads known dependency referrer := by
  have hfold : targets.foldl (addReference name) known = (targets.map binaryName).foldl
      (fun known target => known.alter target fun referrers =>
        some ((referrers.getD ∅).insert (binaryName name))) known := by
    rw [List.foldl_map]
    rfl
  rw [hfold, Graph.leads_addAll_iff, List.mem_map, ← exists_and_right]
  simp only [and_assoc]

theorem exists_addClass {name : String} {known : ReferrerMap}
    (hread : ∀ found, supplied? scan listing name = some found →
      ∃ references, References.ofBytes found.bytes = .ok references) :
    ∃ after, addClass scan missingOnly listing (.ofList listing.classes) known name = .ok after ∧
      ∀ dependency referrer, Graph.Leads after dependency referrer ↔
        (∃ target, Reports scan missingOnly listing name target ∧
          binaryName target = dependency ∧ binaryName name = referrer) ∨
            Graph.Leads known dependency referrer := by
  unfold addClass
  cases hsupplied : supplied? scan listing name with
  | none =>
      refine ⟨known, rfl, fun dependency referrer => (or_iff_right ?_).symm⟩
      rintro ⟨target, ⟨found, references, hfound, -⟩, -⟩
      rw [hsupplied] at hfound
      cases hfound
  | some found =>
      obtain ⟨references, hreferences⟩ := hread found hsupplied
      refine ⟨_, Except.bind_eq_ok_iff.2 ⟨references, Except.within_eq_ok_iff.2 hreferences, rfl⟩,
        fun dependency referrer => ?_⟩
      rw [leads_addReferences_iff]
      refine or_congr_left (exists_congr fun target => and_congr_left fun _ => ?_)
      rw [List.mem_filter, Std.ExtTreeSet.mem_toList]
      constructor
      · rintro ⟨hmem, hreported⟩
        exact ⟨found, references, hsupplied, hreferences, hmem, hreported⟩
      · rintro ⟨other, others, hother, hothers, hmem, hreported⟩
        obtain rfl : found = other := Option.some.inj (hsupplied.symm.trans hother)
        obtain rfl : references = others := Except.ok.inj (hreferences.symm.trans hothers)
        exact ⟨hmem, hreported⟩

theorem exists_addClasses {names : List String} {known : ReferrerMap}
    (hread : ∀ name ∈ names, ∀ found, supplied? scan listing name = some found →
      ∃ references, References.ofBytes found.bytes = .ok references) :
    ∃ after, names.foldlM (addClass scan missingOnly listing (.ofList listing.classes)) known =
        .ok after ∧
      ∀ dependency referrer, Graph.Leads after dependency referrer ↔
        (∃ name ∈ names, ∃ target, Reports scan missingOnly listing name target ∧
          binaryName target = dependency ∧ binaryName name = referrer) ∨
            Graph.Leads known dependency referrer := by
  induction names generalizing known with
  | nil => exact ⟨known, rfl, fun _ _ => by simp⟩
  | cons name names ih =>
      obtain ⟨middle, hmiddle, hfirst⟩ :=
        @exists_addClass scan missingOnly listing name known (hread name List.mem_cons_self)
      obtain ⟨after, hafter, hothers⟩ := @ih middle fun other hother =>
        hread other (List.mem_cons_of_mem _ hother)
      refine ⟨after, Except.bind_eq_ok_iff.2 ⟨middle, hmiddle, hafter⟩,
        fun dependency referrer => ?_⟩
      rw [hothers, hfirst, List.exists_mem_cons_iff, or_assoc]
      exact or_left_comm

theorem exists_ofListing
    (hread : ∀ name ∈ listing.classes, ∀ found, supplied? scan listing name = some found →
      ∃ references, References.ofBytes found.bytes = .ok references) :
    ∃ input, ofListing scan missingOnly listing = .ok input ∧
      ∀ dependency referrer, Graph.Leads input.dependencies dependency referrer ↔
        ∃ name ∈ listing.classes, ∃ target, Reports scan missingOnly listing name target ∧
          binaryName target = dependency ∧ binaryName name = referrer := by
  obtain ⟨dependencies, hdependencies, hleads⟩ :=
    @exists_addClasses scan missingOnly listing listing.classes ∅ hread
  refine ⟨⟨listing.path, dependencies⟩, Except.bind_eq_ok_iff.2 ⟨_, hdependencies, rfl⟩, ?_⟩
  intro dependency referrer
  rw [hleads]
  exact or_iff_left Graph.not_leads_empty

end Listings

/-- A report can be made if every scanned class can be read, and lists what is reported of one of
the inputs. -/
theorem exists_dependencyReport {scan : Scan} {missingOnly : Bool}
    (hread : ∀ name ∈ scan.classes, ∃ references, scan.Refers name references) :
    ∃ report, dependencyReport scan missingOnly = .ok report ∧
      ∀ dependency referrer, Lists report dependency referrer ↔
        ∃ listing ∈ scan.listings, ∃ name ∈ listing.classes, ∃ target,
          Reports scan missingOnly listing name target ∧
            binaryName target = dependency ∧ binaryName name = referrer := by
  have hlisting : ∀ listing : Listing, ∃ input, ofListing scan missingOnly listing = .ok input ∧
      ∀ dependency referrer, Graph.Leads input.dependencies dependency referrer ↔
        ∃ name ∈ listing.classes, ∃ target, Reports scan missingOnly listing name target ∧
          binaryName target = dependency ∧ binaryName name = referrer := by
    refine fun listing => exists_ofListing fun name _ found hsupplied => ?_
    have hfound := (Option.filter_eq_some_iff.1 hsupplied).1
    obtain ⟨references, other, hother, hreferences⟩ :=
      hread name (mem_iff_exists_getElem?.2 ⟨found, hfound⟩)
    obtain rfl : found = other := Option.some.inj (hfound.symm.trans hother)
    exact ⟨references, hreferences⟩
  obtain ⟨report, hreport⟩ := Except.exists_mapM_eq_ok fun listing (_ : listing ∈ scan.listings) =>
    (hlisting listing).imp fun _ h => h.1
  refine ⟨report, hreport, fun dependency referrer => ?_⟩
  have hinputs := Except.mapM_eq_ok_iff.1 hreport
  constructor
  · rintro ⟨input, hinput, hleads⟩
    obtain ⟨listing, hmem, hlisted⟩ := exists_related_left hinputs hinput
    obtain ⟨other, hother, hiff⟩ := hlisting listing
    obtain rfl : input = other := Except.ok.inj (hlisted.symm.trans hother)
    exact ⟨listing, hmem, (hiff dependency referrer).1 hleads⟩
  · rintro ⟨listing, hmem, hreports⟩
    obtain ⟨input, hinput, hlisted⟩ := exists_related_right hinputs hmem
    obtain ⟨other, hother, hiff⟩ := hlisting listing
    obtain rfl : input = other := Except.ok.inj (hlisted.symm.trans hother)
    exact ⟨input, hinput, (hiff dependency referrer).2 hreports⟩

/-- With `missingOnly` a report is about the names that no input holds, whichever input refers to
them. -/
theorem exists_reports_iff {scan : Scan} (hlisted : scan.Listed) {name target : String} :
    (∃ listing ∈ scan.listings, name ∈ listing.classes ∧ Reports scan true listing name target) ↔
      target ∉ scan.classes ∧
        ∃ references, scan.Refers name references ∧ target ∈ references.classes := by
  constructor
  · rintro ⟨listing, -, -, found, references, hsupplied, hreferences, htarget, hmissing⟩
    have hfound := (Option.filter_eq_some_iff.1 hsupplied).1
    exact ⟨(isReported_iff.1 hmissing).2 rfl, references, ⟨found, hfound, hreferences⟩, htarget⟩
  · rintro ⟨hmissing, references, ⟨found, hfound, hreferences⟩, htarget⟩
    obtain ⟨listing, hlisting, hpath, hname⟩ := hlisted.origin name found hfound
    refine ⟨listing, hlisting, hname, found, references, ?_, hreferences, htarget, ?_⟩
    · refine Option.filter_eq_some_iff.2 ⟨hfound, ?_⟩
      rw [hpath]
      exact Path.same_iff.2 ⟨rfl, rfl⟩
    · refine isReported_iff.2 ⟨fun hmem => hmissing ?_, fun _ => hmissing⟩
      exact hlisted.held listing hlisting target hmem

end Dependencies

theorem References.ne_name_of_mem {bytes : Bytes} {references : References} {target : String}
    (h : ofBytes bytes = .ok references) (htarget : target ∈ references.classes) :
    target ≠ references.name := by
  obtain ⟨classFile, -, hclass⟩ := Except.bind_eq_ok_iff.1 h
  obtain ⟨uses, hknown⟩ := known_of_ofClass hclass
  exact ((hknown.classes target).1 htarget).1

/-- Without redirects a class depends on the classes that it refers to. -/
theorem Config.depends_iff {config : Config} {scan : Scan} {name target : String}
    (hredirects : config.redirects = []) :
    config.Depends scan name target ↔
      ∃ references, scan.Refers name references ∧ target ∈ references.classes := by
  have hnone : ∀ called, ¬Redirect.Targets config.redirects called target := by
    rintro called ⟨rule, callee, ⟨hrule, -⟩, -⟩
    rw [hredirects] at hrule
    cases hrule
  refine exists_congr fun references => and_congr_right fun ⟨_, _, hreferences⟩ => ?_
  rw [Analysis.mem_dependenciesOf_iff, or_iff_left (hnone _)]
  exact and_iff_right_of_imp (References.ne_name_of_mem hreferences)

theorem Graph.mem_referrers_iff {graph : Graph} {name target : String} :
    name ∈ graph.referrers target ↔ graph.Leads name target := by
  simp only [referrers, Std.ExtTreeMap.mem_keys, mem_iff_exists_getElem?, Leads,
    Std.ExtTreeMap.getElem?_filter', Option.filter_eq_some_iff, Std.ExtTreeSet.contains_iff_mem]

theorem Analysis.leads_graph_iff {config : Config} {scan : Scan} {references : ReferenceMap}
    (h : (referencesOf scan).result = .ok references) {name target : String} :
    (ofReferences config scan references).graph.Leads name target ↔
      name ∈ (ofReferences config scan references).keptNames ∧ config.Depends scan name target := by
  simp only [Graph.Leads, getElem?_graph h]
  constructor
  · rintro ⟨_, ⟨hname, entry, hrefers, rfl⟩, htarget⟩
    exact ⟨hname, entry, hrefers, htarget⟩
  · rintro ⟨hname, entry, hrefers, htarget⟩
    exact ⟨_, ⟨hname, entry, hrefers, rfl⟩, htarget⟩

/-- Where nothing is excluded or redirected and all is kept, the edges of the graph that lead to
missing classes are the references to classes that no input holds. -/
theorem Analysis.missing_edge_iff {config : Config} {scan : Scan} {references : ReferenceMap}
    (h : (referencesOf scan).result = .ok references) (hexcludes : config.excludes = [])
    (hredirects : config.redirects = [])
    (hkept : ∀ name ∈ scan.classes, name ∈ (ofReferences config scan references).keptNames)
    {name target : String} :
    (target ∈ (ofReferences config scan references).missing ∧
      name ∈ (ofReferences config scan references).graph.referrers target) ↔
        target ∉ scan.classes ∧
          ∃ entry, scan.Refers name entry ∧ target ∈ entry.classes := by
  rw [Graph.mem_referrers_iff, leads_graph_iff h, mem_missing_iff h,
    ← Config.depends_iff hredirects]
  constructor
  · rintro ⟨⟨-, -, hmissing⟩, -, hdepends⟩
    exact ⟨hmissing, hdepends⟩
  · rintro ⟨hmissing, hdepends⟩
    have hname : name ∈ scan.classes := hdepends.elim fun _ hentry => hentry.1.mem
    have hadmitted : config.excludesClass target = false := by
      rw [Config.excludesClass, hexcludes, List.any_nil]
    exact ⟨⟨⟨name, hkept name hname, hdepends⟩, hadmitted, hmissing⟩, hkept name hname, hdepends⟩

/-- A report of what is missing lists the missing classes of an analysis that excludes nothing,
redirects nothing and keeps every class, each with the classes that refer to it in the graph. -/
theorem Dependencies.lists_iff_missing {config : Config} {inputs : List Input} {scan : Scan}
    {analysis : Analysis} (hscan : (scanInputs inputs).result = .ok scan)
    (hexcludes : config.excludes = []) (hredirects : config.redirects = [])
    (hanalyze : (analyze config scan).result = .ok analysis)
    (hkept : ∀ name ∈ scan.classes, name ∈ analysis.keptNames) :
    ∃ report, dependencyReport scan true = .ok report ∧
      ∀ dependency referrer, Lists report dependency referrer ↔
        ∃ target name, target ∈ analysis.missing ∧ name ∈ analysis.graph.referrers target ∧
          binaryName target = dependency ∧ binaryName name = referrer := by
  obtain ⟨references, hreferences, rfl⟩ := Analysis.analyze_eq_ok hanalyze
  obtain ⟨report, hreport, hlists⟩ := @exists_dependencyReport scan true fun name hname =>
    Analysis.exists_refers_of_mem hreferences hname
  refine ⟨report, hreport, fun dependency referrer => ?_⟩
  rw [hlists]
  constructor
  · rintro ⟨listing, hlisting, name, hname, target, hreports, hdependency, hreferrer⟩
    have hmissing := (exists_reports_iff (Scan.listed_of_scanInputs hscan)).1
      ⟨listing, hlisting, hname, hreports⟩
    obtain ⟨hmissing, hgraph⟩ :=
      (Analysis.missing_edge_iff hreferences hexcludes hredirects hkept).2 hmissing
    exact ⟨target, name, hmissing, hgraph, hdependency, hreferrer⟩
  · rintro ⟨target, name, hmissing, hgraph, hdependency, hreferrer⟩
    have hreference := (Analysis.missing_edge_iff hreferences hexcludes hredirects hkept).1
      ⟨hmissing, hgraph⟩
    obtain ⟨listing, hlisting, hname, hreports⟩ :=
      (exists_reports_iff (Scan.listed_of_scanInputs hscan)).2 hreference
    exact ⟨listing, hlisting, name, hname, target, hreports, hdependency, hreferrer⟩

/-- The class `A` refers to a class `B` that no input holds. -/
theorem Dependencies.lists_iff_missing_inputOfA :
    ∃ report, dependencyReport scanOfA true = .ok report ∧ Lists report "B" "A" := by
  have hfound : (analyze { includes := ["A"] } scanOfA).result.map (fun analysis =>
      (analysis.missing.toList, analysis.graph.referrers "B", analysis.kept.map Prod.fst)) =
        .ok (["B"], ["A"], ["A"]) := by cbv
  obtain ⟨analysis, hanalyze, hfound⟩ := Except.map_eq_ok_iff.1 hfound
  obtain ⟨hmissing, hfound⟩ := Prod.mk.inj hfound
  obtain ⟨hreferrers, hnames⟩ := Prod.mk.inj hfound
  have hkept : ∀ name ∈ scanOfA.classes, name ∈ analysis.keptNames := by
    intro name hname
    have hname : "A" = name := by simpa [scanOfA] using hname
    obtain ⟨⟨_, entry⟩, hentry, hfirst⟩ := List.mem_map.1 (hnames ▸ List.mem_cons_self)
    exact Analysis.exists_mem_kept_iff.1 ⟨entry, hname ▸ hfirst ▸ hentry⟩
  obtain ⟨report, hreport, hlists⟩ :=
    lists_iff_missing scanInputs_inputOfA rfl rfl hanalyze hkept
  refine ⟨report, hreport, (hlists "B" "A").2 ⟨"B", "A", ?_, ?_, by cbv, by cbv⟩⟩
  · rw [← Std.ExtTreeSet.mem_toList, hmissing]
    exact List.mem_cons_self
  · rw [hreferrers]
    exact List.mem_cons_self

end JarTailor
