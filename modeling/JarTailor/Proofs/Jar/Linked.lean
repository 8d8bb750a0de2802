import JarTailor.Proofs.Jar.Named
import JarTailor.Proofs.Jar.Written
import Mathlib

/-!
# What the output refers to

Every class that a written class names has the new name of a class that is written too, of one
that is recorded as missing or excluded, or of one that a new body needs.
-/

namespace JarTailor

open TypeUse

namespace Tailor

variable {tailor : Tailor} {config : Config}

theorem legal_names (h : ofConfig config = .ok tailor) (hlegal : config.Legal) :
    tailor.names.Legal := by
  rw [(ofConfig_eq_ok h).2]
  refine Renaming.legal_ofPairs ?_ ?_
  · exact List.forall_mem_map.2 fun rule hrule =>
      ⟨(hlegal.sources rule hrule).1, hlegal.targets rule hrule⟩
  · exact List.forall_mem_map.2 fun rule hrule => (hlegal.sources rule hrule).2

end Tailor

/-- Every class of a scan declares the name it is held under, and each of them is orderly. -/
def Scan.Orderly (described : String → ClassFile → Index → Prop) (scan : Scan) : Prop :=
  ∀ name found original, scan.classes[name]? = some found →
    ClassFile.decode found.bytes = .ok original →
      original.name = .ok name ∧ original.Orderly (described name original)

/-- An entry is a descriptor that the passes depend on. What methods hold is only of interest in
classes whose bodies may be replaced. -/
def Config.Reads (config : Config) (name : String) (original : ClassFile) (index : Index) : Prop :=
  original.Declares index ∨ config.replacesBodiesOf name = true ∧ original.HoldsInMethods index

/-- Renaming a kept class changes no text that names an attribute. -/
def Analysis.KeepsAttributeNames (config : Config) (analysis : Analysis) : Prop :=
  ∀ tailor, Tailor.ofConfig config = .ok tailor →
    ∀ name entry original prepared renamed changed, (name, entry) ∈ analysis.kept →
      ClassFile.decode entry.bytes = .ok original →
        tailor.Prepares name entry.flags original prepared →
          tailor.names.apply prepared = .ok (renamed, changed) →
            Renaming.KeepsAttributeNames prepared renamed

/-- A class is written under its new name, or recorded as one that cannot be. -/
def Analysis.Accounts (analysis : Analysis) (names : Renaming) (files : FileMap) (name : String) :
    Prop :=
  name ∈ analysis.keptNames ∧ names.rename name ++ ".class" ∈ files ∨
    name ∈ analysis.missing ∨ name ∈ analysis.excludedReferences

/-- Every class that a written class refers to has the new name of a class that is accounted for or
that a new body needs. -/
def Generated.Linked (config : Config) (analysis : Analysis) (generated : Generated) : Prop :=
  ∃ tailor, Tailor.ofConfig config = .ok tailor ∧
    ∀ name entry, (name, entry) ∈ analysis.kept → ∃ original tailored,
      ClassFile.decode entry.bytes = .ok original ∧
        (tailor.passes name entry.flags original).result = .ok tailored ∧
          ∀ references, References.ofClass tailored.classFile = .ok references →
            ∀ target ∈ references.classes, ∃ source, tailor.names.rename source = target ∧
              (analysis.Accounts tailor.names generated.classes source ∨
                entry.flags.stubbed = true ∧ Replace.Needs name source)

namespace Tailor

section Kept

variable {config : Config} {scan : Scan} {analysis : Analysis} {tailor : Tailor}
variable {name : String} {entry : ClassEntry} {original : ClassFile} {tailored : Tailored}

/-- What the analysis saw of a kept class, which is what the passes are given. -/
theorem exists_known_of_mem_kept (hanalyze : (analyze config scan).result = .ok analysis)
    (horderly : scan.Orderly config.Reads) (hkept : (name, entry) ∈ analysis.kept)
    (hdecode : ClassFile.decode entry.bytes = .ok original) :
    ∃ references uses, scan.Refers name references ∧
      References.Known original references uses ∧ references.name = name ∧
      original.Orderly fun index => original.Declares index ∨
        entry.flags.stubbed = true ∧ original.HoldsInMethods index := by
  obtain ⟨references, uses, hrefers, hknown⟩ :=
    Analysis.exists_refers_of_mem_kept hanalyze hkept hdecode
  obtain ⟨found, hfound, hbytes, -, -, hreplaced⟩ :=
    Analysis.exists_found_of_mem_kept hanalyze hkept
  rw [hbytes] at hdecode
  obtain ⟨hname, hclean⟩ := horderly name found original hfound hdecode
  have hsame : references.name = name := Except.ok.inj (hknown.name.symm.trans hname)
  refine ⟨references, uses, hrefers, hknown, hsame, hclean.mono ?_⟩
  exact fun index hindex => hindex.imp id fun h => ⟨hreplaced ▸ h.1, h.2⟩

/-- A class is written under its new name. -/
theorem name_eq_rename {references : References} {uses : List TypeUse} {output : OutputClass}
    {described : Index → Prop}
    (hnames : tailor.names.Legal) (hconfig : tailor.config.Legal)
    (hdecode : ClassFile.decode entry.bytes = .ok original)
    (h : References.Known original references uses)
    (horderly : original.Orderly described)
    (hpasses : (tailor.passes name entry.flags original).result = .ok tailored)
    (houtput : tailored.changed = false ∧ output.name = references.name ∧
        output.bytes = entry.bytes ∨
      tailored.classFile.name = .ok output.name ∧ output.bytes = tailored.classFile.encode)
    (hsemicolon : ';' ∉ references.name.toList) :
    output.name = tailor.names.rename references.name := by
  obtain ⟨prepared, renamed, hprepares, happly, hunchanged⟩ := passes_eq_ok hpasses
  have hedited := edited_of_prepares hdecode h horderly.calls hprepares
  have hprepared : prepared.name = .ok references.name := by
    rw [ClassFile.name, hedited.thisClass]
    exact hedited.gains.extends.className h.name
  have hrenamed : tailored.classFile.name = .ok (tailor.names.rename references.name) :=
    Renaming.name_of_apply hnames.admissible happly hprepared (fun _ => hsemicolon)
      fun _ hall _ hfirst => (readable_of_edited h horderly hconfig hedited hall).exists_text hfirst
  rcases houtput with ⟨hchanged, hname, -⟩ | ⟨hname, -⟩
  · rw [hunchanged hchanged] at happly
    rw [Renaming.eq_of_apply_false happly, hprepared] at hrenamed
    rw [hname]
    exact Except.ok.inj hrenamed
  · exact Except.ok.inj (hname.symm.trans hrenamed)

/-- The output has an entry for the new name of every kept class that can be referred to. -/
theorem mem_classes_of_mem_keptNames {generated : Generated} {outputs : List OutputClass}
    (hanalyze : (analyze config scan).result = .ok analysis) (horderly : scan.Orderly config.Reads)
    (htailor : ofConfig config = .ok tailor) (hlegal : config.Legal)
    (hfit : (tailor.fitAll analysis.kept ∅).result = .ok (generated.classes, outputs))
    (hname : name ∈ analysis.keptNames) (hsemicolon : ';' ∉ name.toList) :
    tailor.names.rename name ++ ".class" ∈ generated.classes := by
  obtain ⟨entry, hentry⟩ := hname
  have hkept : (name, entry) ∈ analysis.kept := Analysis.mem_kept_iff.2 hentry
  obtain ⟨output, houtput, hmem⟩ := (fitAll_eq_ok hfit).2 name entry hkept
  obtain ⟨original, tailored, hdecode, hpasses, hwritten⟩ := fit_eq_ok houtput
  obtain ⟨references, uses, -, hknown, rfl, hclean⟩ :=
    exists_known_of_mem_kept hanalyze horderly hkept hdecode
  have hconfig : tailor.config.Legal := (ofConfig_eq_ok htailor).1 ▸ hlegal
  rwa [← name_eq_rename (legal_names htailor hlegal) hconfig hdecode hknown hclean hpasses
    hwritten hsemicolon]

/-- What a kept class may name is accounted for, or needed by a new body. -/
theorem accounts_of_mayName {generated : Generated} {outputs : List OutputClass}
    {references : References} {source : String}
    (hanalyze : (analyze config scan).result = .ok analysis) (horderly : scan.Orderly config.Reads)
    (htailor : ofConfig config = .ok tailor) (hlegal : config.Legal)
    (hfit : (tailor.fitAll analysis.kept ∅).result = .ok (generated.classes, outputs))
    (hkept : references.name ∈ analysis.keptNames)
    (hrefers : scan.Refers references.name references) (hsemicolon : ';' ∉ source.toList)
    (h : tailor.MayName entry.flags references source) :
    analysis.Accounts tailor.names generated.classes source ∨
      entry.flags.stubbed = true ∧ Replace.Needs references.name source := by
  have hwritten : source ∈ analysis.keptNames →
      analysis.Accounts tailor.names generated.classes source := by
    intro hsource
    exact Or.inl ⟨hsource, mem_classes_of_mem_keptNames hanalyze horderly htailor hlegal hfit
      hsource hsemicolon⟩
  have hdepends : config.Depends scan references.name source →
      analysis.Accounts tailor.names generated.classes source := by
    intro hdepends
    obtain ⟨table, htable, rfl⟩ := Analysis.analyze_eq_ok hanalyze
    rcases Analysis.exactlyOne_of_mem_targets htable hkept hdepends with ⟨hsource, -, -⟩ |
      ⟨-, hmissing, -⟩ | ⟨-, -, hexcluded⟩
    · exact hwritten hsource
    · exact Or.inr (Or.inl hmissing)
    · exact Or.inr (Or.inr hexcluded)
  by_cases hself : source = references.name
  · exact Or.inl (hwritten (hself ▸ hkept))
  · rw [MayName, (ofConfig_eq_ok htailor).1] at h
    rcases h with hname | hclass | htarget | hneeded
    · exact absurd hname hself
    · exact Or.inl (hdepends ⟨references, hrefers,
        Analysis.mem_dependenciesOf_iff.2 ⟨hself, Or.inl hclass⟩⟩)
    · exact Or.inl (hdepends ⟨references, hrefers,
        Analysis.mem_dependenciesOf_iff.2 ⟨hself, Or.inr htarget⟩⟩)
    · exact Or.inr hneeded

end Kept

end Tailor

/-- No reference of the output dangles. -/
theorem Generated.linked_of_generate {config : Config} {scan : Scan} {analysis : Analysis}
    {generated : Generated} (hanalyze : (analyze config scan).result = .ok analysis)
    (hgenerate : (generate config analysis).result = .ok generated) (hlegal : config.Legal)
    (horderly : scan.Orderly config.Reads) (hkeeps : analysis.KeepsAttributeNames config) :
    generated.Linked config analysis := by
  obtain ⟨tailor, outputs, htailor, hfit⟩ := Tailor.generate_eq_ok hgenerate
  have hconfig : tailor.config.Legal := (Tailor.ofConfig_eq_ok htailor).1 ▸ hlegal
  refine ⟨tailor, htailor, fun name entry hkept => ?_⟩
  obtain ⟨output, houtput, -⟩ := (Tailor.fitAll_eq_ok hfit).2 name entry hkept
  obtain ⟨original, tailored, hdecode, hpasses, -⟩ := Tailor.fit_eq_ok houtput
  refine ⟨original, tailored, hdecode, hpasses, fun written hwritten target htarget => ?_⟩
  obtain ⟨references, uses, hrefers, hknown, rfl, hclean⟩ :=
    Tailor.exists_known_of_mem_kept hanalyze horderly hkept hdecode
  obtain ⟨prepared, renamed, hprepares, happly, -⟩ := Tailor.passes_eq_ok hpasses
  have hedited := Tailor.edited_of_prepares hdecode hknown hclean.calls hprepares
  have hread : ∀ uses, TypeUse.all prepared = .ok uses → Renaming.Readable prepared uses :=
    fun _ hall => Tailor.readable_of_edited hknown hclean hconfig hedited hall
  -- the written class uses the texts of the prepared one, each of which names renamed classes
  obtain ⟨last, hlast⟩ := References.known_of_ofClass hwritten
  obtain ⟨hall, htexts⟩ := Renaming.ofText_of_apply (Tailor.legal_names htailor hlegal) happly
    hlast (hkeeps tailor htailor _ _ _ _ _ _ hkept hdecode hprepares happly) hread
  obtain ⟨-, use, hfirst, names, hnames, hmem⟩ := (hlast.classes target).1 htarget
  obtain ⟨found, hfound, hrenamed⟩ := htexts use hfirst
  obtain rfl : found.map tailor.names.rename = names :=
    Except.ok.inj (hrenamed.symm.trans hnames)
  obtain ⟨source, hsource, rfl⟩ := List.mem_map.1 hmem
  obtain ⟨text, htext, hclasses⟩ := References.ofText_eq_ok_iff.1 hfound
  obtain ⟨text', htext', hentry⟩ := hread last hall use hfirst
  obtain rfl : text = text' := Except.ok.inj (htext.symm.trans htext')
  have hsemicolon := TypeRole.semicolon_notMem hentry hclasses source hsource
  have hnamed : references.name ∈ analysis.keptNames := ⟨entry, Analysis.mem_kept_iff.1 hkept⟩
  refine ⟨source, rfl, ?_⟩
  exact Tailor.accounts_of_mayName hanalyze horderly htailor hlegal hfit hnamed hrefers hsemicolon
    (Tailor.mayName_of_edited hknown hclean hconfig hedited hall hfirst hfound hsource)

/-- A scan of one class. -/
def Scan.single (name : String) (classFile : ClassFile) : Scan :=
  { classes := .ofList [(name, FoundClass.mk classFile.encode "a.jar")] }

section Single

variable {name other : String} {classFile original : ClassFile}

theorem Scan.decode_of_single (hdecode : ClassFile.decode classFile.encode = .ok classFile)
    {found : FoundClass} (hfound : (single name classFile).classes[other]? = some found)
    (horiginal : ClassFile.decode found.bytes = .ok original) :
    other = name ∧ original = classFile := by
  rw [single, getElem?_map_ofList_iff (by simp), List.mem_singleton] at hfound
  cases hfound
  exact ⟨rfl, Except.ok.inj (horiginal.symm.trans hdecode)⟩

theorem Analysis.referencesOf_single {references : References}
    (hdecode : ClassFile.decode classFile.encode = .ok classFile)
    (hreferences : References.ofClass classFile = .ok references)
    (hname : references.name = name) :
    (referencesOf (.single name classFile)).result = .ok (.ofList [(name, references)]) := by
  have hlist : (Scan.single name classFile).classes.toList =
      [(name, ⟨classFile.encode, "a.jar"⟩)] := rfl
  have hbytes : References.ofBytes classFile.encode = .ok references := by
    rw [References.ofBytes, hdecode]
    exact hreferences
  rw [referencesOf, Traced.result_bind, Traced.result_mapM, hlist]
  refine Except.bind_eq_ok_iff.2 ⟨[(name, references)], ?_, rfl⟩
  refine Except.mapM_eq_ok_iff.2 (.cons ?_ .nil)
  rw [Traced.result_bind, hbytes]
  show (if references.name ≠ name then _ else _ : Logged _).result = _
  rw [if_neg (not_not.2 hname)]
  rfl

theorem Scan.orderly_single {described : String → ClassFile → Index → Prop}
    (hdecode : ClassFile.decode classFile.encode = .ok classFile)
    (hname : classFile.name = .ok name) (h : classFile.Orderly (described name classFile)) :
    (Scan.single name classFile).Orderly described := by
  intro other found original hfound horiginal
  obtain ⟨rfl, rfl⟩ := decode_of_single hdecode hfound horiginal
  exact ⟨hname, h⟩

end Single

theorem Generated.linked_of_generate_classExtendingB :
    ∃ analysis generated,
      (analyze configRenamingA (.single "A" classExtendingB)).result = .ok analysis ∧
        (generate configRenamingA analysis).result = .ok generated ∧
        generated.Linked configRenamingA analysis := by
  have hok : ((analyze configRenamingA (.single "A" classExtendingB)).result >>=
      fun analysis => (generate configRenamingA analysis).result).toBool = true := by cbv
  obtain ⟨generated, hboth⟩ := Except.exists_eq_ok hok
  obtain ⟨analysis, hanalyze, hgenerate⟩ := Except.bind_eq_ok_iff.1 hboth
  have hdecode : ClassFile.decode classExtendingB.encode = .ok classExtendingB := rfl
  have hlegal : configRenamingA.Legal := by
    have hsource : internalName "A" = "A" := by cbv
    have htarget : internalName "C" = "C" := by cbv
    refine ⟨List.forall_mem_singleton.2 ?_, List.forall_mem_singleton.2 ?_,
      fun _ hrule => absurd hrule List.not_mem_nil, fun _ hrule => absurd hrule List.not_mem_nil⟩
    · rw [hsource]
      decide
    · rw [htarget]
      decide
  have hclean : classExtendingB.Orderly (configRenamingA.Reads "A" classExtendingB) := by
    refine ⟨fun index text hentry htext => ?_, fun index _ _ hindex => ?_,
      fun _ hmethod => absurd hmethod List.not_mem_nil⟩
    · have hindex : index = 1 ∨ index = 3 := by simpa [classExtendingB] using hentry
      rcases hindex with rfl | rfl <;> obtain rfl := Except.ok.inj htext <;>
        exact Or.inl (by decide)
    · rcases hindex with (⟨member, hmember, -⟩ | ⟨name, hentry⟩) | ⟨-, method, hmethod, -⟩
      · exact absurd hmember List.not_mem_nil
      · simp [classExtendingB] at hentry
      · exact absurd hmethod List.not_mem_nil
  have horderly : (Scan.single "A" classExtendingB).Orderly configRenamingA.Reads :=
    Scan.orderly_single hdecode rfl hclean
  refine ⟨analysis, generated, hanalyze, hgenerate,
    Generated.linked_of_generate hanalyze hgenerate hlegal horderly ?_⟩
  intro tailor _ name entry original prepared renamed changed hkept horiginal hprepares _
  obtain ⟨references, uses, -, hknown, -, -⟩ :=
    Tailor.exists_known_of_mem_kept hanalyze horderly hkept horiginal
  obtain ⟨found, hfound, hbytes, -⟩ := Analysis.exists_found_of_mem_kept hanalyze hkept
  rw [hbytes] at horiginal
  obtain ⟨-, rfl⟩ := Scan.decode_of_single hdecode hfound horiginal
  have hedited := Tailor.edited_of_prepares horiginal hknown hclean.calls hprepares
  rintro inner ⟨outer, houter | ⟨member, hmember, -⟩, -⟩
  · obtain ⟨other, hother, -⟩ := exists_related_left hedited.attributes houter
    exact absurd hother List.not_mem_nil
  · rcases List.mem_append.1 hmember with hfield | hmethod
    · obtain ⟨other, hother, -⟩ := exists_related_left hedited.fields hfield
      exact absurd hother List.not_mem_nil
    · obtain ⟨other, hother, -⟩ := hedited.methods member hmethod
      exact absurd hother List.not_mem_nil

/-- A body whose one local variable is in a table of the given name. -/
def bodyWithTable (table : Index) : Code :=
  { maxStack := 0, maxLocals := 1, code := [0xb1], handlers := []
    attributes := [⟨table, [0, 1, 0, 0, 0, 1, 0, 1, 0, 6, 0, 0]⟩] }

/-- A class `X` with one text for the type of two local variables. It names `a.b` where it is read
as a descriptor, first, and `a` and a class nested in it where it is read as a signature. -/
def classReadingTwice : ClassFile :=
  { minor := 0, major := 52
    pool := ⟨#[.unusable, .utf8 (Utf8.encode "X"), .classRef 1, .utf8 (Utf8.encode "()V"),
      .utf8 (Utf8.encode "Code"), .utf8 (Utf8.encode "LocalVariableTable"),
      .utf8 (Utf8.encode "La.b;"), .utf8 (Utf8.encode "LocalVariableTypeTable"),
      .utf8 (Utf8.encode "m")]⟩
    flags := 0x21, thisClass := 2, superClass := 0, interfaces := [], fields := []
    methods := [⟨9, 1, 3, [⟨4, (bodyWithTable 5).encode⟩]⟩,
      ⟨9, 8, 3, [⟨4, (bodyWithTable 7).encode⟩]⟩]
    attributes := [] }

/-- The same class with the first body replaced. -/
def classReadingOnce : ClassFile :=
  { classReadingTwice with
    methods := [⟨9, 1, 3, [⟨4, (Body.plain 0 0 [0xb1]).encode⟩]⟩,
      ⟨9, 8, 3, [⟨4, (bodyWithTable 7).encode⟩]⟩] }

def configReturning : Config :=
  { includes := ["X"], replacements := [⟨⟨"X", "X", none⟩, .returnZero⟩] }

/-- What the class refers to when it is analysed. -/
def referencesReadingTwice : References :=
  { name := "X", superName := none, interfaces := []
    classes := (Std.ExtTreeSet.ofList ["X", "a.b"]).erase "X", methods := ∅ }

theorem ofClass_classReadingTwice :
    References.ofClass classReadingTwice = .ok referencesReadingTwice := by
  have hroles : (TypeUse.roles classReadingTwice).map (·.toList) =
      .ok [(1, .className), (3, .descriptor), (6, .descriptor)] := by
    decide +kernel
  have hname : classReadingTwice.name = .ok "X" := by cbv
  have hmethods : References.methodsOf classReadingTwice.pool = .ok [] := by cbv
  obtain ⟨table, htable, hlist⟩ := Except.map_eq_ok_iff.1 hroles
  refine References.ofClass_eq_ok_iff.2 ⟨"X", none, [], table, [["X"], [], ["a.b"]], [], hname,
    rfl, rfl, htable, ?_, hmethods, ?_⟩
  · rw [hlist]
    cbv
  · rw [Std.ExtTreeSet.ofList_nil]
    rfl

theorem exists_ofClass_classReadingOnce : ∃ references,
    References.ofClass classReadingOnce = .ok references ∧ "a" ∈ references.classes := by
  have hroles : (TypeUse.roles classReadingOnce).map (·.toList) =
      .ok [(1, .className), (3, .descriptor), (6, .signature)] := by
    decide +kernel
  have hname : classReadingOnce.name = .ok "X" := by cbv
  have hmethods : References.methodsOf classReadingOnce.pool = .ok [] := by cbv
  obtain ⟨table, htable, hlist⟩ := Except.map_eq_ok_iff.1 hroles
  refine ⟨_, References.ofClass_eq_ok_iff.2 ⟨"X", none, [], table, [["X"], [], ["a", "a$b"]], [],
    hname, rfl, rfl, htable, ?_, hmethods, rfl⟩, ?_⟩
  · rw [hlist]
    cbv
  · simp

theorem mem_methods_classReadingTwice {method : Member} (h : method ∈ classReadingTwice.methods) :
    ∃ name table, (table = 5 ∨ table = 7) ∧
      method = ⟨9, name, 3, [⟨4, (bodyWithTable table).encode⟩]⟩ := by
  rcases List.mem_pair.1 h with rfl | rfl
  · exact ⟨1, 5, Or.inl rfl, rfl⟩
  · exact ⟨8, 7, Or.inr rfl, rfl⟩

theorem orderly_classReadingTwice : classReadingTwice.Orderly classReadingTwice.Declares := by
  refine ⟨fun index text hentry htext => ?_, fun index text names hindex htext hnames => ?_, ?_⟩
  · obtain rfl : index = 1 := by simpa [classReadingTwice] using hentry
    have hread : classReadingTwice.pool.text 1 = .ok "X" := by cbv
    obtain rfl := Except.ok.inj (hread.symm.trans htext)
    exact Or.inl (by decide)
  · obtain rfl : index = 3 := by
      rcases hindex with ⟨member, hmember, rfl⟩ | ⟨name, hentry⟩
      · obtain ⟨name, table, -, rfl⟩ := mem_methods_classReadingTwice hmember
        rfl
      · simp [classReadingTwice] at hentry
    have hread : classReadingTwice.pool.text 3 = .ok "()V" := by cbv
    have hnone : TypeRole.descriptor.classNames "()V" = .ok [] := by cbv
    obtain rfl := Except.ok.inj (hread.symm.trans htext)
    obtain rfl := Except.ok.inj (hnone.symm.trans hnames)
    exact fun _ hname => absurd hname List.not_mem_nil
  · intro method hmethod entry hentry _ body hbody calls hcalls call hcall hkind
    obtain ⟨name, table, htable, rfl⟩ := mem_methods_classReadingTwice hmethod
    obtain rfl := List.mem_singleton.1 hentry
    have hdecode : Code.decode (bodyWithTable table).encode = .ok (bodyWithTable table) := by
      rcases htable with rfl | rfl <;> rfl
    have hsplit : Instruction.split [0xb1] = .ok [⟨0, 0xb1, []⟩] := by cbv
    obtain rfl := Except.ok.inj (hdecode.symm.trans hbody)
    obtain rfl := Except.ok.inj (hsplit.symm.trans hcalls)
    obtain rfl := List.mem_singleton.1 hcall
    exact absurd hkind (by decide)

theorem keepsAttributeNames_configReturning (analysis : Analysis) :
    analysis.KeepsAttributeNames configReturning := by
  intro tailor htailor name entry original prepared renamed changed _ _ _ happly
  have hempty : tailor.names.isEmpty = true := by
    rw [(Tailor.ofConfig_eq_ok htailor).2]
    rfl
  rw [Renaming.apply, if_pos hempty] at happly
  cases happly
  exact fun _ _ => rfl

def tailorReturning : Tailor :=
  { config := configReturning, promotions := ⟨∅, [], []⟩, names := ⟨∅⟩ }

def analysisReadingTwice : Analysis :=
  .ofReferences configReturning (.single "X" classReadingTwice)
    (.ofList [("X", referencesReadingTwice)])

theorem Generated.not_linked_classReadingTwice :
    ∃ analysis generated,
      (analyze configReturning (.single "X" classReadingTwice)).result = .ok analysis ∧
        (generate configReturning analysis).result = .ok generated ∧ configReturning.Legal ∧
        (Scan.single "X" classReadingTwice).Orderly (fun _ => ClassFile.Declares) ∧
        analysis.KeepsAttributeNames configReturning ∧
        ¬generated.Linked configReturning analysis := by
  have hdecode : ClassFile.decode classReadingTwice.encode = .ok classReadingTwice := rfl
  have hanalyze : (analyze configReturning (.single "X" classReadingTwice)).result =
      .ok analysisReadingTwice :=
    Analysis.analyze_of_referencesOf
      (Analysis.referencesOf_single hdecode ofClass_classReadingTwice rfl)
  have hok : (generate configReturning analysisReadingTwice).result.toBool = true := by cbv
  obtain ⟨generated, hgenerate⟩ := Except.exists_eq_ok hok
  have hlegal : configReturning.Legal := by
    constructor <;> exact fun _ hrule => absurd hrule List.not_mem_nil
  refine ⟨_, generated, hanalyze, hgenerate, hlegal,
    Scan.orderly_single hdecode rfl orderly_classReadingTwice,
    keepsAttributeNames_configReturning _, ?_⟩
  rintro ⟨tailor, htailor, hlinked⟩
  have hkept : ("X", ⟨classReadingTwice.encode, "a.jar", ⟨true, false, true, false, false⟩⟩) ∈
      analysisReadingTwice.kept := by
    have hlist : analysisReadingTwice.kept =
        [("X", ⟨classReadingTwice.encode, "a.jar", ⟨true, false, true, false, false⟩⟩)] := by cbv
    rw [hlist]
    exact List.mem_cons_self
  obtain ⟨original, tailored, horiginal, hpasses, hnames⟩ := hlinked _ _ hkept
  obtain rfl := Except.ok.inj (hdecode.symm.trans horiginal)
  have hready : Tailor.ofConfig configReturning = .ok tailorReturning := rfl
  obtain rfl := Except.ok.inj (hready.symm.trans htailor)
  have hreplaced : (tailorReturning.passes "X" ⟨true, false, true, false, false⟩
      classReadingTwice).result.map (·.classFile) = .ok classReadingOnce := by cbv
  rw [hpasses] at hreplaced
  have hclass : tailored.classFile = classReadingOnce := Except.ok.inj hreplaced
  obtain ⟨references, hreferences, hmem⟩ := exists_ofClass_classReadingOnce
  obtain ⟨source, hsource, haccounts⟩ := hnames references (hclass ▸ hreferences) "a" hmem
  rw [Renaming.rename_of_isEmpty rfl] at hsource
  subst hsource
  have hunrecorded : (analysisReadingTwice.classes["a"]?,
      analysisReadingTwice.missing.contains "a",
      analysisReadingTwice.excludedReferences.contains "a") = (none, false, false) := by cbv
  simp only [Prod.mk.injEq] at hunrecorded
  obtain ⟨hnoClass, hnotMissing, hnotExcluded⟩ := hunrecorded
  rcases haccounts with (⟨⟨entry, hentry, -⟩, -⟩ | hmissing | hexcluded) | ⟨-, hneeded⟩
  · rw [hnoClass] at hentry
    cases hentry
  · rw [Std.ExtTreeSet.mem_iff_contains, hnotMissing] at hmissing
    cases hmissing
  · rw [Std.ExtTreeSet.mem_iff_contains, hnotExcluded] at hexcluded
    cases hexcluded
  · rcases hneeded with h | h | h <;> exact absurd h (by decide)

end JarTailor
