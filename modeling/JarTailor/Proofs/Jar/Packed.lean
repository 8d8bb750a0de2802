import JarTailor.Jar.Archive
import JarTailor.Proofs.Jar.Scanned
import JarTailor.Proofs.Jar.Written
import Mathlib

/-!
# What the output archive holds

Classes and resources are kept apart from the first look at an entry's name on: the paths of classes
end with `.class` whatever the classes are renamed to, those of resources do not. So putting them
together for the output loses none of them.
-/

namespace JarTailor

namespace Text

theorem stripStart?_eq_some_iff {start text rest : String} :
    stripStart? start text = some rest ↔ text = start ++ rest := by
  rw [stripStart?, Option.map_eq_some_iff]
  constructor
  · rintro ⟨chars, hchars, rfl⟩
    rw [← String.toList_inj, String.toList_append, String.toList_ofList]
    exact (List.isPrefixOf?_eq_some_iff_append_eq.1 hchars).symm
  · rintro rfl
    refine ⟨rest.toList, List.isPrefixOf?_eq_some_iff_append_eq.2 ?_, String.ofList_toList⟩
    rw [String.toList_append]

theorem stripEnd?_eq_some_iff {finish text rest : String} :
    stripEnd? finish text = some rest ↔ text = rest ++ finish := by
  rw [stripEnd?, Option.map_eq_some_iff]
  constructor
  · rintro ⟨chars, hchars, rfl⟩
    rw [← String.toList_inj, String.toList_append, String.toList_ofList]
    rw [← List.reverse_inj, List.reverse_append, List.reverse_reverse]
    exact (List.isPrefixOf?_eq_some_iff_append_eq.1 hchars).symm
  · rintro rfl
    refine ⟨rest.toList.reverse, List.isPrefixOf?_eq_some_iff_append_eq.2 ?_, ?_⟩
    · rw [String.toList_append, List.reverse_append]
    · rw [List.reverse_reverse, String.ofList_toList]

theorem endsWith_iff_exists {finish text : String} :
    endsWith finish text = true ↔ ∃ rest, text = rest ++ finish := by
  rw [endsWith_iff]
  constructor
  · rintro ⟨chars, hchars⟩
    refine ⟨String.ofList chars, ?_⟩
    rw [← String.toList_inj, String.toList_append, String.toList_ofList, hchars]
  · rintro ⟨rest, rfl⟩
    rw [String.toList_append]
    exact List.suffix_append _ _

end Text

/-- The bytes at a path in an input; of several entries there the first counts. -/
def Input.content? (input : Input) (path : String) : Option Bytes :=
  input.content.toOption.bind fun archive => archive.files.lookup path

theorem Input.content?_eq_lookup {input : Input} {path : String} :
    input.content? path = input.files.lookup path := by
  rw [content?, files]
  cases input.content.toOption <;> rfl

/-- The bytes at a path in the first of some inputs that has it. -/
def firstContent? (inputs : List Input) (path : String) : Option Bytes :=
  inputs.findSome? (·.content? path)

theorem firstContent?_eq_findSome? {inputs : List Input} {path : String} :
    firstContent? inputs path = inputs.findSome? fun input =>
      input.files.findSome? fun entry => if path == entry.1 then some entry.2 else none := by
  simp only [firstContent?, Input.content?_eq_lookup, List.lookup_eq_findSome?]

/-- A signature file, which stands in `META-INF` itself and has one of four endings. -/
def IsSignature (path : String) : Prop :=
  ∃ name, path = "META-INF/" ++ name ∧ '/' ∉ name.toList ∧
    ∃ ending ∈ [".SF", ".RSA", ".DSA", ".EC"], ending.toList <:+ name.toList

/-- A resource that goes into the output: neither the manifest nor a signature file, and matched by
no glob for files to leave out. -/
structure Config.Retains (config : Config) (path : String) : Prop where
  ne_manifest : path ≠ "META-INF/MANIFEST.MF"
  not_signature : ¬IsSignature path
  not_excluded : ∀ pattern ∈ config.excludedFiles, (Glob.ofPath pattern).isMatch path = false

/-- Every path that ends like that of a class is one, or is left out. -/
theorem Scan.entryUse_eq_resource_iff {path : String} :
    entryUse path = .resource ↔ Text.endsWith ".class" path = false := by
  rw [← Bool.not_eq_true, Text.endsWith_iff_exists, entryUse]
  cases hstrip : Text.stripEnd? ".class" path with
  | none =>
      refine iff_of_true rfl ?_
      rintro ⟨name, hname⟩
      rw [Text.stripEnd?_eq_some_iff.2 hname] at hstrip
      cases hstrip
  | some name =>
      refine iff_of_false ?_ fun h => h ⟨name, Text.stripEnd?_eq_some_iff.1 hstrip⟩
      simp only
      split <;> exact nofun

namespace Scan

section Resources

variable {source path : String} {before after : Scan}

/-- Of a resource that several entries hold the first stays. -/
theorem keepsFirst_resources (hpath : entryUse path = .resource) :
    KeepsFirst (fun scan => scan.resources[path]?)
      fun _ entry => if path == entry.1 then some entry.2 else none where
  listings _ _ := rfl
  entry {source own bytes before after name} h := by
    by_cases hown : path = own
    · subst hown
      rw [addEntry, hpath] at h
      cases h
      show (before.resources.insertIfNew path bytes)[path]? = _
      rw [Std.ExtTreeMap.getElem?_insertIfNew]
      cases hbefore : before.resources[path]? with
      | none =>
          have hnew : path ∉ before.resources := by
            rw [Std.ExtTreeMap.mem_iff_isSome_getElem?, hbefore]
            exact Bool.false_ne_true
          simp [hnew]
      | some held =>
          have hheld : path ∈ before.resources := mem_iff_exists_getElem?.2 ⟨held, hbefore⟩
          simp [hheld]
    · rw [if_neg (fun heq => hown (eq_of_beq heq)), Option.or_none]
      unfold addEntry at h
      split at h
      · split at h <;> cases h <;> rfl
      · cases h
        show (before.resources.insertIfNew own bytes)[path]? = _
        rw [Std.ExtTreeMap.getElem?_insertIfNew, if_neg]
        rintro ⟨heq, -⟩
        exact hown (Std.compare_eq_iff_eq.1 heq).symm
      · cases h
        rfl

theorem resources_of_addInputs {inputs : List Input}
    (h : (inputs.foldlM addInput before).result = .ok after) (hpath : entryUse path = .resource) :
    after.resources[path]? = before.resources[path]?.or (firstContent? inputs path) := by
  rw [firstContent?_eq_findSome?]
  exact (keepsFirst_resources hpath).of_addInputs h

/-- No class is among the resources. -/
def ResourcesApart (scan : Scan) : Prop :=
  ∀ path ∈ scan.resources, entryUse path = .resource

theorem ResourcesApart.of_addEntries {entries : Archive} {names : List String}
    (h : (addEntries source before entries).result = .ok (after, names))
    (hapart : before.ResourcesApart) : after.ResourcesApart := by
  induction entries generalizing before names with
  | nil =>
      cases h
      exact hapart
  | cons entry entries ih =>
      obtain ⟨own, bytes⟩ := entry
      simp only [addEntries, Traced.result_bind] at h
      obtain ⟨⟨middle, name⟩, hentry, h⟩ := Except.bind_eq_ok_iff.1 h
      obtain ⟨⟨last, others⟩, hentries, h⟩ := Except.bind_eq_ok_iff.1 h
      cases h
      refine ih hentries fun path hmiddle => ?_
      unfold addEntry at hentry
      split at hentry
      · split at hentry <;> cases hentry <;> exact hapart path hmiddle
      · next huse =>
          cases hentry
          rcases Std.ExtTreeMap.mem_insertIfNew.1 hmiddle with heq | hmiddle
          · rwa [← Std.compare_eq_iff_eq.1 heq]
          · exact hapart path hmiddle
      · cases hentry
        exact hapart path hmiddle

theorem ResourcesApart.of_addInput {input : Input}
    (h : (addInput before input).result = .ok after) (hapart : before.ResourcesApart) :
    after.ResourcesApart := by
  obtain ⟨archive, scan, names, -, hentries, rfl⟩ := addInput_eq_ok h
  have hscan : scan.ResourcesApart := hapart.of_addEntries hentries
  exact hscan

end Resources

/-- The resources of a scan are the entries that are not named like a class, each with the bytes
that it has in the first input. -/
theorem getElem?_resources_of_scanInputs {inputs : List Input} {scan : Scan}
    (h : (scanInputs inputs).result = .ok scan) {path : String} {bytes : Bytes} :
    scan.resources[path]? = some bytes ↔
      Text.endsWith ".class" path = false ∧ firstContent? inputs path = some bytes := by
  have hapart : scan.ResourcesApart :=
    Traced.foldlM_preserves (fun _ _ _ hbefore hinput => hbefore.of_addInput hinput)
      (fun path hpath => absurd hpath Std.ExtTreeMap.not_mem_empty) h
  constructor
  · intro hbytes
    have hpath := hapart path (mem_iff_exists_getElem?.2 ⟨bytes, hbytes⟩)
    refine ⟨entryUse_eq_resource_iff.1 hpath, ?_⟩
    rw [resources_of_addInputs h hpath, Std.ExtTreeMap.getElem?_empty, Option.none_or] at hbytes
    exact hbytes
  · rintro ⟨hpath, hbytes⟩
    rw [resources_of_addInputs h (entryUse_eq_resource_iff.2 hpath), Std.ExtTreeMap.getElem?_empty,
      Option.none_or]
    exact hbytes

end Scan

namespace Analysis

theorem isSignatureFile_iff {path : String} : isSignatureFile path = true ↔ IsSignature path := by
  unfold isSignatureFile IsSignature
  cases hstrip : Text.stripStart? "META-INF/" path with
  | none =>
      refine iff_of_false Bool.false_ne_true ?_
      rintro ⟨name, hname, -⟩
      rw [Text.stripStart?_eq_some_iff.2 hname] at hstrip
      cases hstrip
  | some name =>
      have hpath := Text.stripStart?_eq_some_iff.1 hstrip
      simp only [Bool.and_eq_true, Bool.not_eq_true', List.any_eq_true, Text.endsWith_iff,
        String.contains_char_eq, decide_eq_false_iff_not]
      constructor
      · rintro ⟨hslash, hending⟩
        exact ⟨name, hpath, hslash, hending⟩
      · rintro ⟨other, hother, hslash, hending⟩
        obtain rfl : name = other := Option.some.inj
          (hstrip.symm.trans (Text.stripStart?_eq_some_iff.2 hother))
        exact ⟨hslash, hending⟩

theorem getElem?_keptResources {config : Config} {resources : FileMap} {path : String}
    {bytes : Bytes} : (keptResources config resources)[path]? = some bytes ↔
      config.Retains path ∧ resources[path]? = some bytes := by
  have hsignature : isSignatureFile path = false ↔ ¬IsSignature path := by
    rw [← isSignatureFile_iff, Bool.not_eq_true]
  have hkeeps : (!isArchiveBound path && !config.excludesFile path) = true ↔
      config.Retains path := by
    simp only [isArchiveBound, Config.excludesFile, Bool.and_eq_true, Bool.not_eq_true',
      Bool.or_eq_false_iff, beq_eq_false_iff_ne, List.any_eq_false, Bool.not_eq_true, hsignature]
    exact ⟨fun ⟨⟨hmanifest, hsignature⟩, hglobs⟩ => ⟨hmanifest, hsignature, hglobs⟩,
      fun ⟨hmanifest, hsignature, hglobs⟩ => ⟨⟨hmanifest, hsignature⟩, hglobs⟩⟩
  rw [keptResources, Std.ExtTreeMap.getElem?_filter', Option.filter_eq_some_iff, hkeeps, and_comm]

theorem resources_of_analyze {config : Config} {scan : Scan} {analysis : Analysis}
    (h : (analyze config scan).result = .ok analysis) :
    analysis.resources = keptResources config scan.resources := by
  obtain ⟨references, -, rfl⟩ := analyze_eq_ok h
  rfl

end Analysis

theorem Generated.resources_of_generate {config : Config} {analysis : Analysis}
    {generated : Generated} (h : (generate config analysis).result = .ok generated) :
    generated.resources = analysis.resources := by
  simp only [generate, Traced.result_bind, Traced.result_monadLift] at h
  obtain ⟨tailor, -, h⟩ := Except.bind_eq_ok_iff.1 h
  obtain ⟨⟨classes, outputs⟩, -, h⟩ := Except.bind_eq_ok_iff.1 h
  obtain ⟨_, -, h⟩ := Except.bind_eq_ok_iff.1 h
  obtain ⟨_, -, h⟩ := Except.bind_eq_ok_iff.1 h
  cases h
  rfl

theorem Generated.endsWith_of_mem_classes {config : Config} {analysis : Analysis}
    {generated : Generated} (h : (generate config analysis).result = .ok generated) {path : String}
    (hpath : path ∈ generated.classes) : Text.endsWith ".class" path = true := by
  obtain ⟨tailor, outputs, -, hfit⟩ := Tailor.generate_eq_ok h
  have hadds := (Tailor.adds_of_fitAll hfit).2
  rcases hadds.mem_iff.1 hpath with hempty | hpath
  · exact absurd hempty Std.ExtTreeMap.not_mem_empty
  · obtain ⟨output, -, rfl⟩ := List.mem_map.1 hpath
    exact Text.endsWith_iff_exists.2 ⟨output.name, rfl⟩

namespace Archive

/-- Where no file is a manifest, none is left out. -/
theorem ofFiles_eq {files : FileMap} (h : manifestPath ∉ files) :
    ofFiles files = (manifestPath, manifest) :: files.toList := by
  refine congrArg _ (List.filter_eq_self.2 fun entry hentry => ?_)
  rw [decide_eq_true_iff]
  rintro hpath
  refine h (mem_iff_exists_getElem?.2 ⟨entry.2, ?_⟩)
  rw [← hpath]
  exact Std.ExtTreeMap.mem_toList_iff_getElem?_eq_some.1 hentry

/-- The archive written for some inputs: after a manifest of its own it has, in the order of their
paths, an entry for every class that was made and one for every resource that is retained, with the
bytes that the first input has for it. -/
theorem entries_of_generate {inputs : List Input} {config : Config} {scan : Scan}
    {analysis : Analysis} {generated : Generated}
    (hscan : (scanInputs inputs).result = .ok scan)
    (hanalyze : (analyze config scan).result = .ok analysis)
    (hgenerate : (generate config analysis).result = .ok generated) :
    (∀ path ∈ generated.classes, path ∉ scan.resources) ∧
      ∃ entries, ofFiles generated.files = (manifestPath, manifest) :: entries ∧
        entries.Pairwise (fun a b => a.1 < b.1) ∧
        entries.length = generated.classes.size + generated.resources.size ∧
        ∀ path bytes, (path, bytes) ∈ entries ↔ generated.classes[path]? = some bytes ∨
          Text.endsWith ".class" path = false ∧ config.Retains path ∧
            firstContent? inputs path = some bytes := by
  have hresource : ∀ path bytes, generated.resources[path]? = some bytes ↔
      config.Retains path ∧ scan.resources[path]? = some bytes := by
    intro path bytes
    rw [Generated.resources_of_generate hgenerate, Analysis.resources_of_analyze hanalyze,
      Analysis.getElem?_keptResources]
  have hclass : ∀ path ∈ generated.classes, path ∉ scan.resources := by
    intro path hpath hmem
    obtain ⟨bytes, hbytes⟩ := mem_iff_exists_getElem?.1 hmem
    have hends := Generated.endsWith_of_mem_classes hgenerate hpath
    rw [((Scan.getElem?_resources_of_scanInputs hscan).1 hbytes).1] at hends
    cases hends
  have hapart : ∀ path ∈ generated.classes, path ∉ generated.resources := by
    intro path hpath hmem
    obtain ⟨bytes, hbytes⟩ := mem_iff_exists_getElem?.1 hmem
    exact hclass path hpath (mem_iff_exists_getElem?.2 ⟨bytes, ((hresource _ _).1 hbytes).2⟩)
  have hmanifest : manifestPath ∉ generated.files := by
    rw [Generated.files, Std.ExtTreeMap.mem_union_iff]
    rintro (hmem | hmem)
    · exact absurd (Generated.endsWith_of_mem_classes hgenerate hmem) (by decide)
    · obtain ⟨bytes, hbytes⟩ := mem_iff_exists_getElem?.1 hmem
      exact ((hresource _ _).1 hbytes).1.ne_manifest rfl
  refine ⟨hclass, generated.files.toList, ofFiles_eq hmanifest, pairwise_toList _, ?_, ?_⟩
  · rw [Std.ExtTreeMap.length_toList, Generated.files,
      Std.ExtTreeMap.size_union_of_not_mem hapart]
  · intro path bytes
    have hretained : generated.resources[path]? = some bytes ↔
        Text.endsWith ".class" path = false ∧ config.Retains path ∧
          firstContent? inputs path = some bytes := by
      rw [hresource, Scan.getElem?_resources_of_scanInputs hscan, and_left_comm]
    rw [Std.ExtTreeMap.mem_toList_iff_getElem?_eq_some, Generated.files,
      Std.ExtTreeMap.getElem?_union, Option.or_eq_some_iff, ← hretained]
    constructor
    · rintro (hbytes | ⟨-, hbytes⟩)
      · exact Or.inr hbytes
      · exact Or.inl hbytes
    · rintro (hbytes | hbytes)
      · refine Or.inr ⟨?_, hbytes⟩
        exact Std.ExtTreeMap.getElem?_eq_none (hapart path (mem_iff_exists_getElem?.2 ⟨_, hbytes⟩))
      · exact Or.inl hbytes

end Archive

def inputWithText : Input :=
  ⟨"a.jar", .ok [("A.class", classExtendingB.encode), ("r.txt", [1])]⟩

/-- An input with a signature file and other texts. -/
def inputWithSignature : Input :=
  ⟨"b.jar", .ok [("META-INF/X.SF", [2]), ("r.txt", [3]), ("s.txt", [4])]⟩

def scanWithText : Scan :=
  { classes := .ofList [("A", FoundClass.mk classExtendingB.encode "a.jar")]
    resources := Std.ExtTreeMap.ofList
      [("r.txt", ([1] : Bytes)), ("META-INF/X.SF", [2]), ("s.txt", [4])]
    listings := [⟨"a.jar", ["A"]⟩, ⟨"b.jar", []⟩]
    classCount := 1 }

def configDropping : Config :=
  { configRenamingA with excludedFiles := ["s*"] }

theorem scanInputs_inputWithText :
    (scanInputs [inputWithText, inputWithSignature]).result = .ok scanWithText := by
  have hsupported : Scan.isSupported "a.jar" = true ∧ Scan.isSupported "b.jar" = true := by decide
  rw [scanInputs, List.foldlM_cons, inputWithText, inputWithSignature,
    Scan.addInput_of_archive hsupported.1, Scan.addArchive,
    Archive.files_of_sorted (by decide) (by decide)]
  simp only [Traced.result_bind, List.foldlM_cons, Scan.addInput_of_archive hsupported.2,
    Scan.addArchive]
  rw [Archive.files_of_sorted (by decide) (by decide)]
  rfl

theorem Archive.entries_of_generate_inputWithText :
    ∃ analysis generated entries, (analyze configDropping scanWithText).result = .ok analysis ∧
      (generate configDropping analysis).result = .ok generated ∧
        ofFiles generated.files = (manifestPath, manifest) :: entries ∧
          ("r.txt", [1]) ∈ entries ∧ ∀ bytes, ("META-INF/X.SF", bytes) ∉ entries := by
  have hfit : ((Analysis.referencesOf scanWithText).result >>= fun references =>
      (Tailor.fitAll { tailorRenamingA with config := configDropping }
        (Analysis.ofReferences configDropping scanWithText references).kept ∅).result).toBool =
      true := by cbv
  obtain ⟨⟨written, outputs⟩, hboth⟩ := Except.exists_eq_ok hfit
  obtain ⟨references, hreferences, hfit⟩ := Except.bind_eq_ok_iff.1 hboth
  have hanalyze : (analyze configDropping scanWithText).result = .ok _ :=
    Analysis.analyze_of_referencesOf hreferences
  have htailor : Tailor.ofConfig configDropping =
      .ok { tailorRenamingA with config := configDropping } := by cbv
  obtain ⟨generated, hgenerate, -⟩ := Tailor.exists_generate htailor hfit
  obtain ⟨-, entries, hentries, -, -, hmem⟩ :=
    entries_of_generate scanInputs_inputWithText hanalyze hgenerate
  have hretains : configDropping.Retains "r.txt" := by
    refine ⟨by decide, fun h => ?_, List.forall_mem_singleton.2 (by cbv)⟩
    exact absurd (Analysis.isSignatureFile_iff.2 h) (by decide)
  have hsignature : IsSignature "META-INF/X.SF" :=
    ⟨"X.SF", rfl, by decide, ".SF", by decide, by decide⟩
  have hlookup : scanWithText.resources["r.txt"]? = some [1] := rfl
  obtain ⟨hpath, hfirst⟩ :=
    (Scan.getElem?_resources_of_scanInputs scanInputs_inputWithText).1 hlookup
  refine ⟨_, generated, entries, hanalyze, hgenerate, hentries,
    (hmem _ _).2 (Or.inr ⟨hpath, hretains, hfirst⟩), fun bytes hbytes => ?_⟩
  rcases (hmem _ _).1 hbytes with hclass | ⟨-, hretained, -⟩
  · have hends := Generated.endsWith_of_mem_classes hgenerate
      (mem_iff_exists_getElem?.2 ⟨bytes, hclass⟩)
    exact absurd hends (by decide)
  · exact hretained.not_signature hsignature

end JarTailor
