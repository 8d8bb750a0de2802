import JarTailor.Config.Validate
import JarTailor.Proofs.Success
import Mathlib

/-!
# Renames that contradict one another

A configuration is accepted only if its renames, as they are written, tell for every class what
becomes of it. The renames are applied by internal names, and a class can be written in several ways
that have one internal name. So a class that there is a rule for has to be written in one way only,
as it is where all names are binary names.
-/

namespace JarTailor

/-- New names by old ones that do not depend on the order of the pairs: no class has two, becomes
itself, or becomes a class that is renamed too. -/
structure Unambiguous (table : List (String × String)) : Prop where
  distinct : (table.map Prod.fst).Nodup
  moved : ∀ rule ∈ table, rule.1 ≠ rule.2
  unchained : ∀ rule ∈ table, ∀ other ∈ table, rule.2 ≠ other.1

/-- A loop that refuses some values succeeds if it meets none of them. -/
theorem Traced.result_refusing_eq_ok_iff {ε α : Type} {refuses : α → Bool} {fault : α → Fault}
    {values : List α} :
    (forIn values PUnit.unit fun value _ =>
      if refuses value = true then do
        fail (fault value)
        pure (ForInStep.yield PUnit.unit)
      else pure (ForInStep.yield PUnit.unit) : Traced ε PUnit).result = .ok ⟨⟩ ↔
      ∀ value ∈ values, refuses value = false := by
  induction values with
  | nil => exact iff_of_true rfl (by simp)
  | cons value values ih =>
      rw [List.forIn_cons, result_bind, List.forall_mem_cons, ← ih]
      cases refuses value with
      | false => exact (and_iff_right rfl).symm
      | true => exact iff_of_false (fun h => by cases h) fun h => by cases h.1

namespace Config

/-- The renames as pairs of names as they are written. -/
def writtenTable (config : Config) : List (String × String) :=
  config.renames.map fun rule => (rule.source, rule.target)

/-- A class that there is a rename rule for is written in one way only in these rules. -/
def SpellsSourcesOnce (config : Config) : Prop :=
  ∀ rule ∈ config.renames, ∀ other ∈ config.renames,
    (internalName other.source = internalName rule.source → other.source = rule.source) ∧
      (internalName other.target = internalName rule.source → other.target = rule.source)

theorem validateRename_eq_ok_iff {config : Config} {earlier : List String} {rule : RenameRule} :
    (config.validateRename earlier rule).result = .ok () ↔
      (rule.source ≠ "" ∧ rule.target ≠ "") ∧ rule.source ≠ rule.target ∧
        rule.source ∉ earlier := by
  have hempty : (rule.source.isEmpty || rule.target.isEmpty) = true ↔
      ¬(rule.source ≠ "" ∧ rule.target ≠ "") := by
    simp [imp_iff_not_or]
  have hwarnings : ∀ (patterns : List String) (text : String → String),
      (forIn patterns PUnit.unit fun pattern _ =>
        if (Glob.ofClass pattern).isMatch rule.source = true then do
          log .warn .config (text pattern)
          pure (ForInStep.yield PUnit.unit)
        else pure (ForInStep.yield PUnit.unit) : Logged PUnit).result = .ok ⟨⟩ :=
    fun patterns text => Traced.result_forIn fun pattern => by split <;> rfl
  unfold validateRename
  by_cases hcomplete : rule.source ≠ "" ∧ rule.target ≠ ""
  · rw [if_neg (mt hempty.1 (not_not.2 hcomplete))]
    by_cases hsame : rule.source = rule.target
    · rw [if_pos hsame]
      exact iff_of_false (fun h => by cases h) fun h => h.2.1 hsame
    · rw [if_neg hsame]
      by_cases hearlier : rule.source ∈ earlier
      · rw [if_pos (List.contains_iff_mem.2 hearlier)]
        exact iff_of_false (fun h => by cases h) fun h => h.2.2 hearlier
      · rw [if_neg (mt List.contains_iff_mem.1 hearlier), Traced.result_bind, hwarnings]
        exact iff_of_true rfl ⟨hcomplete, hsame, hearlier⟩
  · rw [if_pos (hempty.2 hcomplete)]
    exact iff_of_false (fun h => by cases h) fun h => hcomplete h.1

theorem validateRenames_eq_ok_iff {config : Config} {earlier : List String}
    {rules : List RenameRule} :
    (config.validateRenames earlier rules).result = .ok () ↔
      (∀ rule ∈ rules, (rule.source ≠ "" ∧ rule.target ≠ "") ∧ rule.source ≠ rule.target ∧
        rule.source ∉ earlier) ∧ (rules.map RenameRule.source).Nodup := by
  induction rules generalizing earlier with
  | nil => exact iff_of_true rfl (by simp)
  | cons rule rules ih =>
      rw [validateRenames, Traced.result_bind, Except.bind_eq_ok_iff, List.forall_mem_cons,
        List.map_cons, List.nodup_cons, List.mem_map]
      constructor
      · rintro ⟨_, hrule, hrules⟩
        obtain ⟨hrules, hdistinct⟩ := ih.1 hrules
        refine ⟨⟨validateRename_eq_ok_iff.1 hrule, fun other hother => ?_⟩, ?_, hdistinct⟩
        · obtain ⟨hcomplete, hmoved, hearlier⟩ := hrules other hother
          exact ⟨hcomplete, hmoved, mt (List.mem_cons_of_mem _) hearlier⟩
        · rintro ⟨other, hother, hsame⟩
          exact (hrules other hother).2.2 (hsame ▸ List.mem_cons_self)
      · rintro ⟨⟨hrule, hrules⟩, hfirst, hdistinct⟩
        refine ⟨(), validateRename_eq_ok_iff.2 hrule, ih.2 ⟨fun other hother => ?_, hdistinct⟩⟩
        obtain ⟨hcomplete, hmoved, hearlier⟩ := hrules other hother
        refine ⟨hcomplete, hmoved, fun hmem => ?_⟩
        rcases List.mem_cons.1 hmem with hsame | hmem
        · exact hfirst ⟨other, hother, hsame⟩
        · exact hearlier hmem

/-- What an accepted configuration says. -/
structure Accepted (config : Config) : Prop where
  renamesComplete : ∀ rule ∈ config.renames, rule.source ≠ "" ∧ rule.target ≠ ""
  renames : Unambiguous config.writtenTable
  replacements : ∀ rule ∈ config.replacements,
    rule.pattern.className ≠ "" ∧ rule.pattern.method ≠ ""
  redirects : ∀ rule ∈ config.redirects,
    rule.pattern.className ≠ "" ∧ rule.pattern.method ≠ "" ∧ rule.target ≠ ""
  fields : ∃ specs, config.fieldSpecs = .ok specs
  methods : ∃ specs, config.methodSpecs = .ok specs

/-- A table of renames in some form of their names contradicts itself nowhere. -/
theorem unambiguous_map_iff {rules : List RenameRule} (form : String → String) :
    Unambiguous (rules.map fun rule => (form rule.source, form rule.target)) ↔
      (rules.map fun rule => form rule.source).Nodup ∧
        (∀ rule ∈ rules, form rule.source ≠ form rule.target) ∧
        ∀ rule ∈ rules, ∀ other ∈ rules, form rule.target ≠ form other.source := by
  have hsources : (rules.map fun rule => (form rule.source, form rule.target)).map Prod.fst =
      rules.map fun rule => form rule.source := by
    rw [List.map_map]
    rfl
  constructor
  · rintro ⟨hdistinct, hmoved, hunchained⟩
    exact ⟨hsources ▸ hdistinct, fun rule hrule => hmoved _ (List.mem_map_of_mem hrule),
      fun rule hrule other hother =>
        hunchained _ (List.mem_map_of_mem hrule) _ (List.mem_map_of_mem hother)⟩
  · rintro ⟨hdistinct, hmoved, hunchained⟩
    exact ⟨hsources ▸ hdistinct, List.forall_mem_map.2 hmoved, List.forall_mem_map.2
      fun rule hrule => List.forall_mem_map.2 (hunchained rule hrule)⟩

theorem unambiguous_writtenTable_iff {config : Config} :
    Unambiguous config.writtenTable ↔
      (config.renames.map RenameRule.source).Nodup ∧
        (∀ rule ∈ config.renames, rule.source ≠ rule.target) ∧
        ∀ rule ∈ config.renames, ∀ other ∈ config.renames, rule.target ≠ other.source :=
  unambiguous_map_iff id

/-- A configuration is accepted exactly if its rules are complete, its renames do not contradict one
another as they are written, and its members can be read. -/
theorem validate_eq_ok_iff {config : Config} :
    config.validate.result = .ok () ↔ config.Accepted := by
  have hnamed : ∀ first second : String,
      (first.isEmpty || second.isEmpty) = false ↔ first ≠ "" ∧ second ≠ "" := by simp
  have hchained : (∀ rule ∈ config.renames,
      (config.renames.map RenameRule.source).contains rule.target = false) ↔
        ∀ rule ∈ config.renames, ∀ other ∈ config.renames, rule.target ≠ other.source := by
    simp only [← Bool.not_eq_true, List.contains_iff_mem, List.mem_map, not_exists, not_and,
      @eq_comm _ _ (RenameRule.target _), Ne]
  unfold validate
  simp only [Traced.result_bind]
  constructor
  · intro h
    obtain ⟨_, hrenames, h⟩ := Except.bind_eq_ok_iff.1 h
    obtain ⟨_, hunchained, h⟩ := Except.bind_eq_ok_iff.1 h
    obtain ⟨_, hreplacements, h⟩ := Except.bind_eq_ok_iff.1 h
    obtain ⟨_, hredirects, h⟩ := Except.bind_eq_ok_iff.1 h
    obtain ⟨fields, hfields, h⟩ := Except.bind_eq_ok_iff.1 h
    obtain ⟨methods, hmethods, -⟩ := Except.bind_eq_ok_iff.1 h
    obtain ⟨hrules, hdistinct⟩ := validateRenames_eq_ok_iff.1 hrenames
    refine ⟨fun rule hrule => (hrules rule hrule).1, unambiguous_writtenTable_iff.2
      ⟨hdistinct, fun rule hrule => (hrules rule hrule).2.1,
        hchained.1 (Traced.result_refusing_eq_ok_iff.1 hunchained)⟩,
      fun rule hrule => ?_, fun rule hrule => ?_, ⟨fields, hfields⟩, ⟨methods, hmethods⟩⟩
    · exact (hnamed _ _).1 (Traced.result_refusing_eq_ok_iff.1 hreplacements rule hrule)
    · have hrefused := Traced.result_refusing_eq_ok_iff.1 hredirects rule hrule
      rw [Bool.or_eq_false_iff, hnamed] at hrefused
      exact ⟨hrefused.1.1, hrefused.1.2, by simpa using hrefused.2⟩
  · rintro ⟨hcomplete, hrenames, hreplacements, hredirects, ⟨fields, hfields⟩, methods, hmethods⟩
    obtain ⟨hdistinct, hmoved, hunchained⟩ := unambiguous_writtenTable_iff.1 hrenames
    refine Except.bind_eq_ok_iff.2 ⟨(), validateRenames_eq_ok_iff.2 ⟨fun rule hrule =>
        ⟨hcomplete rule hrule, hmoved rule hrule, List.not_mem_nil⟩, hdistinct⟩,
      Except.bind_eq_ok_iff.2 ⟨(), Traced.result_refusing_eq_ok_iff.2 (hchained.2 hunchained),
      Except.bind_eq_ok_iff.2 ⟨(), Traced.result_refusing_eq_ok_iff.2 fun rule hrule => ?_,
      Except.bind_eq_ok_iff.2 ⟨(), Traced.result_refusing_eq_ok_iff.2 fun rule hrule => ?_,
      Except.bind_eq_ok_iff.2 ⟨fields, hfields,
      Except.bind_eq_ok_iff.2 ⟨methods, hmethods, rfl⟩⟩⟩⟩⟩⟩
    · exact (hnamed _ _).2 (hreplacements rule hrule)
    · obtain ⟨hclass, hmethod, htarget⟩ := hredirects rule hrule
      rw [Bool.or_eq_false_iff, hnamed]
      exact ⟨⟨hclass, hmethod⟩, by simpa using htarget⟩

/-- By internal names the renames contradict one another exactly if some class that there is a rule
for is written in two ways. -/
theorem unambiguous_renameTable_iff {config : Config} (h : Unambiguous config.writtenTable) :
    Unambiguous config.renameTable ↔ config.SpellsSourcesOnce := by
  obtain ⟨hdistinct, hmoved, hunchained⟩ := unambiguous_writtenTable_iff.1 h
  rw [renameTable, unambiguous_map_iff internalName]
  constructor
  · rintro ⟨hdistinct', -, hunchained'⟩ rule hrule other hother
    refine ⟨fun hsame => ?_, fun hsame => absurd hsame (hunchained' other hother rule hrule)⟩
    rw [List.inj_on_of_nodup_map hdistinct' hother hrule hsame]
  · intro hspells
    refine ⟨?_, fun rule hrule hsame => ?_, fun rule hrule other hother hsame => ?_⟩
    · have hinj : ∀ first ∈ config.renames.map RenameRule.source,
          ∀ second ∈ config.renames.map RenameRule.source,
            internalName first = internalName second → first = second :=
        List.forall_mem_map.2 fun rule hrule => List.forall_mem_map.2 fun other hother hsame =>
          (hspells other hother rule hrule).1 hsame
      have hinternal := hdistinct.map_on hinj
      rwa [List.map_map] at hinternal
    · exact hmoved rule hrule ((hspells rule hrule rule hrule).2 hsame.symm).symm
    · exact hunchained rule hrule other hother ((hspells other hother rule hrule).2 hsame)

/-- All names in the rename rules are binary names. -/
def WritesBinaryNames (config : Config) : Prop :=
  ∀ rule ∈ config.renames, '/' ∉ rule.source.toList ∧ '/' ∉ rule.target.toList

theorem WritesBinaryNames.spellsSourcesOnce {config : Config} (h : config.WritesBinaryNames) :
    config.SpellsSourcesOnce := by
  have hinj : ∀ {first second : String}, '/' ∉ first.toList → '/' ∉ second.toList →
      internalName first = internalName second → first = second := by
    intro first second hfirst hsecond hsame
    rw [← binaryName_internalName hfirst, hsame, binaryName_internalName hsecond]
  intro rule hrule other hother
  exact ⟨hinj (h other hother).1 (h rule hrule).1, hinj (h other hother).2 (h rule hrule).1⟩

/-- The renames of an accepted configuration do not contradict one another as they are written. They
do not by internal names either exactly if every class that there is a rule for is written in one
way, as it is in binary names. -/
theorem unambiguous_of_validate {config : Config} (h : config.validate.result = .ok ()) :
    Unambiguous config.writtenTable ∧
      (Unambiguous config.renameTable ↔ config.SpellsSourcesOnce) ∧
      (config.WritesBinaryNames → Unambiguous config.renameTable) := by
  obtain ⟨-, hrenames, -⟩ := validate_eq_ok_iff.1 h
  have hiff := unambiguous_renameTable_iff hrenames
  exact ⟨hrenames, hiff, fun hbinary => hiff.2 hbinary.spellsSourcesOnce⟩

/-- Two rules for one class, which they write in two ways. -/
def configSpellingTwice : Config :=
  { renames := [⟨"a.B", "x.C"⟩, ⟨"a/B", "x.D"⟩] }

/-- A rule for a class and one for a class nested in it. -/
def configOfTwoClasses : Config :=
  { renames := [⟨"a.B", "x.C"⟩, ⟨"a.B$E", "x.D"⟩] }

theorem unambiguous_of_validate_configOfTwoClasses :
    configOfTwoClasses.validate.result = .ok () ∧ configOfTwoClasses.WritesBinaryNames ∧
      Unambiguous configOfTwoClasses.renameTable := by
  have hvalid : configOfTwoClasses.validate.result = .ok () := by cbv
  have hbinary : configOfTwoClasses.WritesBinaryNames := by
    simp [configOfTwoClasses, WritesBinaryNames]
  exact ⟨hvalid, hbinary, (unambiguous_of_validate hvalid).2.2 hbinary⟩

/-- Both rules are accepted, and which of them counts depends on their order. -/
theorem not_unambiguous_configSpellingTwice :
    configSpellingTwice.validate.result = .ok () ∧
      configSpellingTwice.renameTable = [("a/B", "x/C"), ("a/B", "x/D")] ∧
      ¬Unambiguous configSpellingTwice.renameTable := by
  have hvalid : configSpellingTwice.validate.result = .ok () := by cbv
  have htable : configSpellingTwice.renameTable = [("a/B", "x/C"), ("a/B", "x/D")] := by cbv
  refine ⟨hvalid, htable, fun hunambiguous => ?_⟩
  have hdistinct := hunambiguous.distinct
  rw [htable] at hdistinct
  exact absurd hdistinct (by decide)

end Config

end JarTailor
