import JarTailor.Proofs.Analysis.Kept
import JarTailor.Proofs.Jar.Scanned
import JarTailor.Proofs.Jar.Written
import Mathlib

/-!
# More inputs and more rules

Further inputs and further reasons to keep classes drop no kept class, and further reasons to
exclude classes add none. What is written of the classes that were kept before further inputs stays
as it was.
-/

namespace JarTailor

/-- The second configuration has every reason of the first to keep a class, and no reason to exclude
one that the first does not have. -/
structure Config.Widens (narrow wide : Config) : Prop where
  roots : narrow.derivedFrom ⊆ wide.derivedFrom
  includes : narrow.includes ⊆ wide.includes
  renames : narrow.renames ⊆ wide.renames
  redirects : narrow.redirects ⊆ wide.redirects
  excludes : wide.excludes ⊆ narrow.excludes

theorem Config.Widens.refl (config : Config) : config.Widens config :=
  ⟨fun _ h => h, fun _ h => h, fun _ h => h, fun _ h => h, fun _ h => h⟩

section Relations

variable {narrow wide : Config} {before after : Scan} {name target : String}
variable {references : References}

theorem Scan.Refers.mono (hscan : before.Within after) (h : before.Refers name references) :
    after.Refers name references := by
  obtain ⟨found, hfound, hrefers⟩ := h
  exact ⟨found, hscan name found hfound, hrefers⟩

theorem Scan.Derives.mono {roots more : List String} (hscan : before.Within after)
    (hroots : roots ⊆ more) (h : before.Derives roots name) : after.Derives more name := by
  induction h with
  | root hroot => exact .root (hroots hroot)
  | subtype hrefers hparent _ ih => exact .subtype (hrefers.mono hscan) hparent ih

theorem Redirect.Targets.mono {rules more : List RedirectRule} {called : MemberRef → Prop}
    (hrules : rules ⊆ more) (h : Targets rules called name) : Targets more called name := by
  obtain ⟨rule, callee, ⟨hrule, hselected⟩, htarget⟩ := h
  exact ⟨rule, callee, ⟨hrules hrule, hselected⟩, htarget⟩

theorem Config.Admits.mono (hscan : before.Within after) (hconfig : narrow.Widens wide)
    (h : narrow.Admits before name) : wide.Admits after name := by
  refine ⟨hscan.mem h.1, ?_⟩
  have hnone := List.any_eq_false.1 h.2
  exact List.any_eq_false.2 fun pattern hpattern => hnone pattern (hconfig.excludes hpattern)

theorem Config.Selects.mono (hscan : before.Within after) (hconfig : narrow.Widens wide)
    (h : narrow.Selects before name) : wide.Selects after name := by
  rcases h with hderives | ⟨pattern, hpattern, hmatch⟩ | ⟨rule, hrule, hsource⟩
  · exact Or.inl (hderives.mono hscan (List.map_subset _ hconfig.roots))
  · exact Or.inr (Or.inl ⟨pattern, hconfig.includes hpattern, hmatch⟩)
  · exact Or.inr (Or.inr ⟨rule, hconfig.renames hrule, hsource⟩)

theorem Config.Depends.mono (hscan : before.Within after) (hconfig : narrow.Widens wide)
    (h : narrow.Depends before name target) : wide.Depends after name target := by
  obtain ⟨entry, hrefers, htarget⟩ := h
  obtain ⟨hne, hmem⟩ := Analysis.mem_dependenciesOf_iff.1 htarget
  exact ⟨entry, hrefers.mono hscan, Analysis.mem_dependenciesOf_iff.2
    ⟨hne, hmem.imp_right fun h => h.mono hconfig.redirects⟩⟩

/-- What is closed under many reasons is closed under some of them. -/
theorem Config.Closed.anti {kept : Set String} (hscan : before.Within after)
    (hconfig : narrow.Widens wide) (h : wide.Closed after kept) : narrow.Closed before kept where
  seeds name hadmits hselects :=
    h.seeds name (hadmits.mono hscan hconfig) (hselects.mono hscan hconfig)
  targets name hname target hdepends hadmits :=
    h.targets name hname target (hdepends.mono hscan hconfig) (hadmits.mono hscan hconfig)

end Relations

namespace Analysis

section Runs

variable {narrow wide config : Config} {before after : Scan} {analysis larger : Analysis}

theorem keptNames_subset (hscan : before.Within after) (hconfig : narrow.Widens wide)
    (h : (analyze narrow before).result = .ok analysis)
    (h' : (analyze wide after).result = .ok larger) : analysis.keptNames ⊆ larger.keptNames := by
  obtain ⟨references, hreferences, rfl⟩ := analyze_eq_ok h
  obtain ⟨references', hreferences', rfl⟩ := analyze_eq_ok h'
  have hclosed : wide.Closed after (ofReferences wide after references').keptNames :=
    (isLeast_keptNames hreferences').1
  exact (isLeast_keptNames hreferences).2 (hclosed.anti hscan hconfig)

/-- A class that is kept in a larger scan too is kept as it was. -/
theorem exists_mem_kept (hscan : before.Within after)
    (h : (analyze config before).result = .ok analysis)
    (h' : (analyze config after).result = .ok larger) {name : String} {entry : ClassEntry}
    (hkept : (name, entry) ∈ analysis.kept) :
    ∃ other, (name, other) ∈ larger.kept ∧ other.bytes = entry.bytes ∧
      other.source = entry.source ∧ other.flags.renamed = entry.flags.renamed ∧
        other.flags.stubbed = entry.flags.stubbed := by
  have hname : name ∈ analysis.keptNames := ⟨entry, mem_kept_iff.1 hkept⟩
  obtain ⟨other, hother⟩ := keptNames_subset hscan (.refl config) h h' hname
  have hother := mem_kept_iff.2 hother
  obtain ⟨found, hfound, hbytes, hsource, hrenamed, hstubbed⟩ := exists_found_of_mem_kept h hkept
  obtain ⟨found', hfound', hbytes', hsource', hrenamed', hstubbed'⟩ :=
    exists_found_of_mem_kept h' hother
  obtain rfl : found = found' := Option.some.inj ((hscan name found hfound).symm.trans hfound')
  exact ⟨other, hother, hbytes'.trans hbytes.symm, hsource'.trans hsource.symm,
    hrenamed'.trans hrenamed.symm, hstubbed'.trans hstubbed.symm⟩

/-- What is written of a class does not depend on other inputs. -/
theorem getElem?_classes_of_within {first second : Generated} (hscan : before.Within after)
    (h : (analyze config before).result = .ok analysis)
    (h' : (analyze config after).result = .ok larger)
    (hfirst : (generate config analysis).result = .ok first)
    (hsecond : (generate config larger).result = .ok second) {path : String} {bytes : Bytes}
    (hpath : first.classes[path]? = some bytes) : second.classes[path]? = some bytes := by
  obtain ⟨tailor, -, htailor, -⟩ := Tailor.generate_eq_ok hfirst
  obtain ⟨name, entry, output, hkept, hfit, hwritten⟩ :=
    (Tailor.getElem?_classes_iff htailor hfirst).1 hpath
  obtain ⟨other, hother, hbytes, -, hrenamed, hstubbed⟩ := exists_mem_kept hscan h h' hkept
  rw [← Tailor.fit_congr hbytes hrenamed hstubbed] at hfit
  exact (Tailor.getElem?_classes_iff htailor hsecond).2
    ⟨name, other, output, hother, hfit, hwritten⟩

end Runs

/-- Further inputs keep what was kept, with the same bytes before and after the passes. Further
roots, include globs, renames and redirects keep it too, and further exclude globs keep no more. -/
theorem kept_monotone {config : Config} {inputs : List Input} {scan : Scan} {analysis : Analysis}
    (hscan : (scanInputs inputs).result = .ok scan)
    (hanalyze : (analyze config scan).result = .ok analysis) :
    (∀ more extended larger, (scanInputs (inputs ++ more)).result = .ok extended →
      (analyze config extended).result = .ok larger →
        (∀ name entry, (name, entry) ∈ analysis.kept → ∃ other, (name, other) ∈ larger.kept ∧
          other.bytes = entry.bytes ∧ other.source = entry.source) ∧
        ∀ first second, (generate config analysis).result = .ok first →
          (generate config larger).result = .ok second →
            ∀ (path : String) (bytes : Bytes), first.classes[path]? = some bytes →
              second.classes[path]? = some bytes) ∧
      (∀ wide larger, config.Widens wide → (analyze wide scan).result = .ok larger →
        analysis.keptNames ⊆ larger.keptNames) ∧
      ∀ excludes smaller, config.excludes ⊆ excludes →
        (analyze { config with excludes } scan).result = .ok smaller →
          smaller.keptNames ⊆ analysis.keptNames := by
  refine ⟨fun more extended larger hextended hlarger => ?_, fun wide larger hwide hlarger => ?_,
    fun excludes smaller hexcludes hsmaller => ?_⟩
  · have hwithin := Scan.within_of_scanInputs hscan hextended
    refine ⟨fun name entry hkept => ?_, fun first second hfirst hsecond path bytes hpath => ?_⟩
    · obtain ⟨other, hother, hbytes, hsource, -⟩ :=
        exists_mem_kept hwithin hanalyze hlarger hkept
      exact ⟨other, hother, hbytes, hsource⟩
    · exact getElem?_classes_of_within hwithin hanalyze hlarger hfirst hsecond hpath
  · exact keptNames_subset (.refl scan) hwide hanalyze hlarger
  · have hnarrow : Config.Widens { config with excludes } config :=
      ⟨fun _ h => h, fun _ h => h, fun _ h => h, fun _ h => h, hexcludes⟩
    exact keptNames_subset (.refl scan) hnarrow hsmaller hanalyze

end Analysis

def inputOfA : Input :=
  ⟨"a.jar", .ok [("A.class", classExtendingB.encode)]⟩

def classB : ClassFile :=
  { classExtendingB with thisClass := 4, superClass := 0 }

/-- An input with a class `B` and another entry for `A`. -/
def inputOfB : Input :=
  ⟨"b.jar", .ok [("A.class", []), ("B.class", classB.encode)]⟩

def scanOfA : Scan :=
  { classes := .ofList [("A", FoundClass.mk classExtendingB.encode "a.jar")]
    listings := [⟨"a.jar", ["A"]⟩]
    classCount := 1 }

def scanOfAB : Scan :=
  { classes := scanOfA.classes.insert "B" (FoundClass.mk classB.encode "b.jar")
    listings := [⟨"a.jar", ["A"]⟩, ⟨"b.jar", ["A", "B"]⟩]
    classCount := 3 }

theorem scanInputs_inputOfA : (scanInputs [inputOfA]).result = .ok scanOfA :=
  scanInputs_of_class _

theorem scanInputs_inputOfB :
    (scanInputs ([inputOfA] ++ [inputOfB])).result = .ok scanOfAB := by
  rw [scanInputs, List.foldlM_append, Traced.result_bind, ← scanInputs, scanInputs_inputOfA]
  show (List.foldlM Scan.addInput scanOfA [inputOfB]).result = _
  rw [List.foldlM_cons, inputOfB, Scan.addInput_of_archive (by decide), Scan.addArchive,
    Archive.files_of_sorted (by decide) (by decide)]
  rfl

theorem Analysis.kept_monotone_inputOfB :
    ∃ analysis larger, (analyze configRenamingA scanOfA).result = .ok analysis ∧
      (analyze configRenamingA scanOfAB).result = .ok larger ∧
        ∃ entry, ("A", entry) ∈ larger.kept ∧ entry.bytes = classExtendingB.encode := by
  have hlist : (analyze configRenamingA scanOfA).result.map
      (·.kept.map fun pair => (pair.1, pair.2.bytes)) = .ok [("A", classExtendingB.encode)] := by
    cbv
  have hok : (analyze configRenamingA scanOfAB).result.toBool = true := by cbv
  obtain ⟨analysis, hanalyze, hlist⟩ := Except.map_eq_ok_iff.1 hlist
  obtain ⟨larger, hlarger⟩ := Except.exists_eq_ok hok
  obtain ⟨⟨name, entry⟩, hkept, hentry⟩ := List.mem_map.1 (hlist ▸ List.mem_cons_self)
  obtain ⟨rfl, hentry⟩ := Prod.mk.inj hentry
  obtain ⟨other, hother, hbytes, -⟩ := ((kept_monotone scanInputs_inputOfA hanalyze).1 _ _ _
    scanInputs_inputOfB hlarger).1 _ _ hkept
  exact ⟨analysis, larger, hanalyze, hlarger, other, hother, hbytes.trans hentry⟩

end JarTailor
