import JarTailor.Jar.Analysis
import JarTailor.Proofs.Analysis.Hierarchy
import JarTailor.Proofs.ClassFile.Codec
import JarTailor.Proofs.Maps
import JarTailor.Proofs.Success

/-!
# What an analysis knows of its inputs

The references of every scanned class, the supertypes that lead to a root, and the classes that
may be kept, each described in terms of the scan alone.
-/

namespace JarTailor

/-- The scan holds a class under a name, and the class refers to what is given. -/
def Scan.Refers (scan : Scan) (name : String) (references : References) : Prop :=
  ∃ found, scan.classes[name]? = some found ∧ References.ofBytes found.bytes = .ok references

/-- A root, or a scanned class with a supertype that derives from one. -/
inductive Scan.Derives (scan : Scan) (roots : List String) : String → Prop
  | root {name : String} (h : name ∈ roots) : Derives scan roots name
  | subtype {name parent : String} {references : References}
      (hrefers : scan.Refers name references) (hparent : parent ∈ references.supertypes)
      (h : Derives scan roots parent) : Derives scan roots name

theorem Scan.Refers.mem {scan : Scan} {name : String} {entry : References}
    (h : scan.Refers name entry) : name ∈ scan.classes := by
  obtain ⟨held, hheld, -⟩ := h
  exact mem_iff_exists_getElem?.2 ⟨held, hheld⟩

theorem Scan.Refers.unique {scan : Scan} {name : String} {first second : References}
    (hfirst : scan.Refers name first) (hsecond : scan.Refers name second) : first = second := by
  obtain ⟨held, hheld, hrefers⟩ := hfirst
  obtain ⟨other, hother, hsame⟩ := hsecond
  obtain rfl : held = other := Option.some.inj (hheld.symm.trans hother)
  exact Except.ok.inj (hrefers.symm.trans hsame)

/-- The graph lists the second name among the targets of the first. -/
def Graph.Leads (graph : Graph) (name target : String) : Prop :=
  ∃ targets, graph[name]? = some targets ∧ target ∈ targets

theorem Graph.not_leads_empty {name target : String} : ¬(∅ : Graph).Leads name target := by
  rintro ⟨targets, hlist, -⟩
  rw [Std.ExtTreeMap.getElem?_empty] at hlist
  cases hlist

namespace Analysis

theorem referencesOf_entries {scan : Scan} {references : ReferenceMap}
    (h : (referencesOf scan).result = .ok references) :
    ∃ found : List (String × References), references = .ofList found ∧
      List.Forall₂ (fun entry known => known.1 = entry.1 ∧
        References.ofBytes entry.2.bytes = .ok known.2) scan.classes.toList found := by
  rw [referencesOf, Traced.result_bind] at h
  obtain ⟨found, hfound, h⟩ := Except.bind_eq_ok_iff.1 h
  refine ⟨found, (Except.ok.inj h).symm, ?_⟩
  rw [Traced.result_mapM, Except.mapM_eq_ok_iff] at hfound
  refine hfound.imp fun ⟨name, entry⟩ known hentry => ?_
  simp only [Traced.result_bind] at hentry
  obtain ⟨collected, hcollected, hentry⟩ := Except.bind_eq_ok_iff.1 hentry
  have hofBytes : References.ofBytes entry.bytes = .ok collected :=
    Except.within_eq_ok_iff.1 hcollected
  have hknown : (name, collected) = known := by
    split at hentry <;> exact Except.ok.inj hentry
  subst hknown
  exact ⟨rfl, hofBytes⟩

/-- A successful collection knows exactly what every scanned class refers to. -/
theorem getElem?_referencesOf {scan : Scan} {references : ReferenceMap}
    (h : (referencesOf scan).result = .ok references) {name : String} {entry : References} :
    references[name]? = some entry ↔ scan.Refers name entry := by
  obtain ⟨found, rfl, hentries⟩ := referencesOf_entries h
  have hkeys : found.map Prod.fst = scan.classes.keys := by
    rw [← Std.ExtTreeMap.map_fst_toList_eq_keys]
    exact (map_eq_map_of_related hentries fun _ _ h => h.1.symm).symm
  rw [getElem?_map_ofList_iff (hkeys ▸ Std.ExtTreeMap.nodup_keys)]
  constructor
  · intro hmem
    obtain ⟨⟨_, held⟩, hheld, rfl, hrefers⟩ := exists_related_left hentries hmem
    exact ⟨held, Std.ExtTreeMap.mem_toList_iff_getElem?_eq_some.1 hheld, hrefers⟩
  · rintro ⟨held, hheld, hrefers⟩
    have hmem := Std.ExtTreeMap.mem_toList_iff_getElem?_eq_some.2 hheld
    obtain ⟨⟨_, known⟩, hknown, rfl, hsame⟩ := exists_related_right hentries hmem
    rw [hrefers] at hsame
    rwa [Except.ok.inj hsame]

theorem exists_refers_of_mem {scan : Scan} {references : ReferenceMap}
    (h : (referencesOf scan).result = .ok references) {name : String}
    (hname : name ∈ scan.classes) : ∃ entry, scan.Refers name entry := by
  obtain ⟨found, -, hentries⟩ := referencesOf_entries h
  obtain ⟨held, hheld⟩ := mem_iff_exists_getElem?.1 hname
  have hmem := Std.ExtTreeMap.mem_toList_iff_getElem?_eq_some.2 hheld
  obtain ⟨known, -, -, hrefers⟩ := exists_related_right hentries hmem
  exact ⟨known.2, held, hheld, hrefers⟩

/-- A collection succeeds if every scanned class can be read. -/
theorem exists_referencesOf {scan : Scan}
    (h : ∀ name ∈ scan.classes, ∃ entry, scan.Refers name entry) :
    ∃ references, (referencesOf scan).result = .ok references := by
  rw [referencesOf, Traced.result_bind, Traced.result_mapM]
  refine Exists.elim (Except.exists_mapM_eq_ok ?_) fun found hfound =>
    ⟨.ofList found, Except.bind_eq_ok_iff.2 ⟨found, hfound, rfl⟩⟩
  rintro ⟨name, found⟩ hpair
  have hfound := Std.ExtTreeMap.mem_toList_iff_getElem?_eq_some.1 hpair
  obtain ⟨entry, held, hheld, hrefers⟩ := h name (mem_iff_exists_getElem?.2 ⟨found, hfound⟩)
  obtain rfl : found = held := Option.some.inj (hfound.symm.trans hheld)
  refine ⟨(name, entry), ?_⟩
  rw [Traced.result_bind, hrefers]
  show (if entry.name ≠ name then _ else _ : Logged _).result = _
  split <;> rfl

theorem mem_derivedFrom_iff {references : ReferenceMap} {root name : String} :
    name ∈ derivedFrom references root ↔
      Relation.ReflTransGen (Hierarchy.Extends references.toList) name root := by
  rw [derivedFrom, Hierarchy.mem_settle_iff]
  simp only [Std.ExtTreeSet.mem_ofList, List.contains_iff_mem, List.mem_singleton,
    exists_eq_left]

theorem mem_derivedFromAny {references : ReferenceMap} {roots : List String} {name : String} :
    name ∈ derivedFromAny references roots ↔
      ∃ root ∈ roots, name ∈ derivedFrom references root := by
  simp only [derivedFromAny, Std.ExtTreeSet.mem_ofList, List.contains_iff_mem, List.mem_flatMap,
    Std.ExtTreeSet.mem_toList]

/-- The classes found to derive from the roots are those that do. -/
theorem mem_derivedFromAny_iff {scan : Scan} {references : ReferenceMap}
    (h : (referencesOf scan).result = .ok references) {roots : List String} {name : String} :
    name ∈ derivedFromAny references roots ↔ scan.Derives roots name := by
  have hextends : ∀ {name parent : String}, Hierarchy.Extends references.toList name parent ↔
      ∃ entry, scan.Refers name entry ∧ parent ∈ entry.supertypes := by
    simp only [Hierarchy.Extends, Std.ExtTreeMap.mem_toList_iff_getElem?_eq_some,
      getElem?_referencesOf h, implies_true]
  simp only [mem_derivedFromAny, mem_derivedFrom_iff]
  constructor
  · rintro ⟨root, hroot, hleads⟩
    induction hleads using Relation.ReflTransGen.head_induction_on with
    | refl => exact .root hroot
    | head hlink _ ih =>
        obtain ⟨entry, hrefers, hparent⟩ := hextends.1 hlink
        exact .subtype hrefers hparent ih
  · intro hderives
    induction hderives with
    | root hroot => exact ⟨_, hroot, .refl⟩
    | subtype hrefers hparent _ ih =>
        obtain ⟨root, hroot, hleads⟩ := ih
        exact ⟨root, hroot, .head (hextends.2 ⟨_, hrefers, hparent⟩) hleads⟩

end Analysis

end JarTailor
