import JarTailor.Proofs.ClassFile.Overlong
import JarTailor.Proofs.Jar.Linked

/-!
# Which generated classes can be read

Whatever the passes make of a class, it is read back as it is unless one of its texts has become too
long to be counted. Nothing stops such a class from being written.
-/

namespace JarTailor

/-- No method of a scanned class has so many attributes that a body more could not be counted. -/
def Scan.LeavesRoom (scan : Scan) : Prop :=
  ∀ (name : String) (found : FoundClass) (original : ClassFile),
    scan.classes[name]? = some found → ClassFile.decode found.bytes = .ok original →
      ∀ method ∈ original.methods, method.attributes.length ≠ 65535

namespace Tailor

variable {tailor : Tailor} {name : String} {entry : ClassEntry}
variable {original prepared last : ClassFile} {changed : Bool}

theorem length_attributes_of_prepares (hdecode : ClassFile.decode entry.bytes = .ok original)
    (hroom : ∀ method ∈ original.methods, method.attributes.length ≠ 65535)
    (hprepares : tailor.Prepares name entry.flags original prepared) :
    ∀ method ∈ prepared.methods, method.attributes.length < 2 ^ 16 := by
  obtain ⟨hfits, -⟩ := ClassFile.decode_eq_ok_iff.1 hdecode
  intro method hmethod
  obtain ⟨old, hold, -, hlength⟩ :=
    exists_related_left (hprepares.methods hfits.pool.size_le) hmethod
  have hbound := (hfits.methods.2 old hold).1
  have hne := hroom old hold
  omega

theorem decode_encode_iff (hdecode : ClassFile.decode entry.bytes = .ok original)
    (hdescriptors : original.HasDescriptors)
    (hroom : ∀ method ∈ original.methods, method.attributes.length ≠ 65535)
    (hprepares : tailor.Prepares name entry.flags original prepared)
    (happly : tailor.names.apply prepared = .ok (last, changed)) :
    ClassFile.decode last.encode = .ok last ↔ last.pool.TextsBelow (2 ^ 16) := by
  have hmethods : last.methods = prepared.methods := by rw [(Renaming.apply_eq_ok happly).1]
  constructor
  · intro h
    exact (ClassFile.decode_eq_ok_iff.1 h).1.pool.texts
  · intro htexts
    refine decode_encode_of_lengths hdecode hprepares happly htexts ?_ (Or.inl hdescriptors)
    rw [hmethods]
    exact length_attributes_of_prepares hdecode hroom hprepares

end Tailor

/-- The bytes are those of a kept class, or what is written for it after the passes; `last` is the
class as it was, or as the passes left it. -/
def Analysis.Yields (analysis : Analysis) (config : Config) (bytes : Bytes) (last : ClassFile) :
    Prop :=
  ∃ name entry original, (name, entry) ∈ analysis.kept ∧
    ClassFile.decode entry.bytes = .ok original ∧
      (bytes = entry.bytes ∧ last = original ∨ bytes = last.encode ∧ ∃ tailor tailored,
        Tailor.ofConfig config = .ok tailor ∧
          (tailor.passes name entry.flags original).result = .ok tailored ∧
            last = tailored.classFile)

/-- From its bytes a generated class is read back exactly if its texts can be counted. -/
theorem Generated.readable_of_generate {config : Config} {scan : Scan} {analysis : Analysis}
    {generated : Generated} (hanalyze : (analyze config scan).result = .ok analysis)
    (hgenerate : (generate config analysis).result = .ok generated) (hroom : scan.LeavesRoom)
    {path : String} {bytes : Bytes} (hpath : generated.classes[path]? = some bytes) :
    ∃ last, analysis.Yields config bytes last ∧
      (ClassFile.decode bytes = .ok last ↔ last.pool.TextsBelow (2 ^ 16)) := by
  obtain ⟨tailor, -, htailor, -⟩ := Tailor.generate_eq_ok hgenerate
  obtain ⟨name, entry, output, hkept, hfit, -, rfl⟩ :=
    (Tailor.getElem?_classes_iff htailor hgenerate).1 hpath
  obtain ⟨original, tailored, hdecode, hpasses, hwritten⟩ := Tailor.fit_eq_ok hfit
  rcases hwritten with ⟨-, -, hbytes⟩ | ⟨-, hbytes⟩
  · have htexts := (ClassFile.decode_eq_ok_iff.1 hdecode).1.pool.texts
    exact ⟨original, ⟨name, entry, original, hkept, hdecode, Or.inl ⟨hbytes, rfl⟩⟩,
      fun _ => htexts, fun _ => hbytes ▸ hdecode⟩
  · refine ⟨tailored.classFile, ⟨name, entry, original, hkept, hdecode,
      Or.inr ⟨hbytes, tailor, tailored, htailor, hpasses, rfl⟩⟩, ?_⟩
    obtain ⟨prepared, renamed, hprepares, happly, -⟩ := Tailor.passes_eq_ok hpasses
    obtain ⟨references, uses, -, hknown⟩ :=
      Analysis.exists_refers_of_mem_kept hanalyze hkept hdecode
    obtain ⟨found, hfound, hsame, -⟩ := Analysis.exists_found_of_mem_kept hanalyze hkept
    have hcounts := hroom name found original hfound (hsame ▸ hdecode)
    rw [hbytes]
    exact Tailor.decode_encode_iff hdecode
      (fun member hmember => Tailor.exists_descriptor_of_known hknown hmember) hcounts hprepares
      happly

/-- An interface `A` with one method, which takes two objects of the class itself. -/
def classTakingA : ClassFile :=
  { minor := 0, major := 52
    pool := ⟨#[.unusable, .utf8 (Utf8.encode "(LA;LA;)V"), .utf8 (Utf8.encode "A"), .classRef 2,
      .utf8 (Utf8.encode "m")]⟩
    flags := 0x601, thisClass := 3, superClass := 0, interfaces := [], fields := []
    methods := [⟨0x401, 4, 1, []⟩], attributes := [] }

def configNaming (target : String) : Config :=
  { includes := ["A"], renames := [⟨"A", target⟩] }

def tailorNaming (target : String) : Tailor :=
  { config := configNaming target, promotions := ⟨∅, [], []⟩, names := .ofPairs [("A", target)] }

def takingTwo (name : String) : Descriptor :=
  .method ⟨[⟨0, .object name⟩, ⟨0, .object name⟩], none⟩

/-- The pool of the class once its descriptor names `first` and its name is `second`. -/
def poolTaking (first second : String) : Pool :=
  ⟨#[.unusable, .utf8 (Utf8.encode (takingTwo first).text), .utf8 (Utf8.encode second),
    .classRef 2, .utf8 (Utf8.encode "m")]⟩

def classTaking (name : String) : ClassFile :=
  { classTakingA with pool := poolTaking name name }

def entryTakingA : ClassEntry :=
  ⟨classTakingA.encode, "a.jar", ⟨true, true, false, false, false⟩⟩

section Naming

variable (target : String)

theorem mapClass_ofPairs_singleton :
    (Renaming.ofPairs [("A", target)]).mapClass "A" = some target := by
  cbv

theorem mapText_takingTwo : (Renaming.ofPairs [("A", target)]).mapText .descriptor "(LA;LA;)V" =
    .ok (some (takingTwo target).text) := by
  have hparse : Descriptor.parse "(LA;LA;)V" = .ok (takingTwo "A") := by cbv
  have hmapped : (takingTwo "A").mapNamesM (m := Id)
      (Renaming.ofPairs [("A", target)]).mapClass = some (takingTwo target) := by
    simp only [takingTwo, Descriptor.mapNamesM, MethodType.mapNamesM, FieldType.mapNamesM,
      List.mapM_cons, List.mapM_nil, mapClass_ofPairs_singleton]
    rfl
  exact Except.bind_eq_ok_iff.2
    ⟨_, hparse, congrArg Except.ok (congrArg (Option.map Descriptor.text) hmapped)⟩

theorem apply_classTakingA : (Renaming.ofPairs [("A", target)]).apply classTakingA =
    .ok (classTaking target, true) := by
  have hroles : (TypeUse.roles classTakingA).map (·.toList) =
      .ok [(1, .descriptor), (2, .className)] := by decide +kernel
  obtain ⟨table, htable, hlist⟩ := Except.map_eq_ok_iff.1 hroles
  have hempty : (Renaming.ofPairs [("A", target)]).isEmpty = false := by cbv
  have hfirst : (Renaming.ofPairs [("A", target)]).renameEntry
      (Renaming.literalTexts classTakingA.pool) classTakingA.pool 1 .descriptor =
        .ok (poolTaking target "A", true) :=
    Renaming.renameEntry_of_mapText (by cbv) (mapText_takingTwo target) (by cbv) rfl
  have hname : (poolTaking target "A").text 2 = .ok "A" := Pool.text_eq_ok_iff.2 rfl
  have hmap : (Renaming.ofPairs [("A", target)]).mapText .className "A" = .ok (some target) := by
    rw [Renaming.mapText_className (by decide), mapClass_ofPairs_singleton]
  have hsecond : (Renaming.ofPairs [("A", target)]).renameEntry
      (Renaming.literalTexts classTakingA.pool) (poolTaking target "A") 2 .className =
        .ok (poolTaking target target, true) :=
    Renaming.renameEntry_of_mapText hname hmap (by cbv) rfl
  rw [Renaming.apply, hempty]
  refine Except.bind_eq_ok_iff.2 ⟨table, htable, Except.bind_eq_ok_iff.2 ⟨(_, true), ?_, rfl⟩⟩
  rw [hlist, List.foldlM_cons]
  refine Except.bind_eq_ok_iff.2 ⟨_, Except.bind_eq_ok_iff.2 ⟨_, hfirst, rfl⟩, ?_⟩
  rw [List.foldlM_cons]
  exact Except.bind_eq_ok_iff.2 ⟨_, Except.bind_eq_ok_iff.2 ⟨_, hsecond, rfl⟩, rfl⟩

theorem passes_classTakingA :
    ((tailorNaming target).passes "A" entryTakingA.flags classTakingA).result =
      .ok ⟨classTaking target, true, ∅⟩ := by
  have hredirected : (Redirect.apply [] classTakingA).result = .ok (classTakingA, 0) := by cbv
  have hpromoted : (Promotions.apply ⟨∅, [], []⟩ classTakingA).result =
      .ok (classTakingA, false) := by cbv
  simp only [Tailor.passes, Traced.result_bind]
  refine Except.bind_eq_ok_iff.2 ⟨_, hredirected, ?_⟩
  refine Except.bind_eq_ok_iff.2 ⟨⟨classTakingA, false, ∅⟩, rfl, ?_⟩
  refine Except.bind_eq_ok_iff.2 ⟨_, hpromoted, ?_⟩
  exact Except.bind_eq_ok_iff.2 ⟨_, apply_classTakingA target, rfl⟩

theorem fit_entryTakingA : ((tailorNaming target).fit "A" entryTakingA).result =
    .ok ⟨target, (classTaking target).encode, true, ∅⟩ := by
  have hdecode : ClassFile.decode entryTakingA.bytes = .ok classTakingA := rfl
  have hname : (classTaking target).name = .ok target :=
    Pool.className_eq_ok_iff.2 ⟨2, rfl, Pool.text_eq_ok_iff.2 rfl⟩
  simp only [Tailor.fit, Traced.result_bind, Traced.result_monadLift]
  refine Except.bind_eq_ok_iff.2 ⟨_, hdecode, ?_⟩
  refine Except.bind_eq_ok_iff.2 ⟨_, passes_classTakingA target, ?_⟩
  simp only [Bool.not_true, Bool.false_eq_true, if_false, Traced.result_bind,
    Traced.result_monadLift]
  exact Except.bind_eq_ok_iff.2 ⟨_, hname, rfl⟩

variable {target}

theorem ofConfig_configNaming (hplain : '.' ∉ target.toList) :
    Tailor.ofConfig (configNaming target) = .ok (tailorNaming target) := by
  have hsource : internalName "A" = "A" := internalName_eq_self (by decide)
  have hconfig : Tailor.ofConfig (configNaming target) = .ok { tailorNaming target with
      names := .ofPairs [(internalName "A", internalName target)] } := rfl
  rw [hconfig, hsource, internalName_eq_self hplain]
  rfl

/-- No pass fails on the class, however long its new name is. -/
theorem exists_generated_classTakingA (hplain : '.' ∉ target.toList) :
    ∃ analysis generated,
      (analyze (configNaming target) (.single "A" classTakingA)).result = .ok analysis ∧
        (generate (configNaming target) analysis).result = .ok generated ∧
        generated.classes[target ++ ".class"]? = some (classTaking target).encode := by
  -- what is kept does not depend on the new name
  have hkept : (analyze (configNaming "B") (.single "A" classTakingA)).result.map (·.kept) =
      .ok [("A", entryTakingA)] := by cbv
  obtain ⟨analysis, hanalyze, hkept⟩ := Except.map_eq_ok_iff.1 hkept
  obtain ⟨table, htable, rfl⟩ := Analysis.analyze_eq_ok hanalyze
  have hfit : ((tailorNaming target).fitAll [("A", entryTakingA)] ∅).result =
      .ok (Std.ExtTreeMap.insert ∅ (target ++ ".class") (classTaking target).encode,
        [⟨target, (classTaking target).encode, true, ∅⟩]) := by
    rw [Tailor.fitAll]
    simp only [Traced.result_bind, Traced.result_within]
    exact Except.bind_eq_ok_iff.2
      ⟨_, Except.within_eq_ok_iff.2 (fit_entryTakingA target), rfl⟩
  have hsame : (Analysis.ofReferences (configNaming target) (.single "A" classTakingA) table).kept =
      [("A", entryTakingA)] := hkept
  rw [← hsame] at hfit
  obtain ⟨generated, hgenerate, hclasses⟩ :=
    Tailor.exists_generate (ofConfig_configNaming hplain) hfit
  refine ⟨_, generated, Analysis.analyze_of_referencesOf htable, hgenerate, ?_⟩
  rw [hclasses, Std.ExtTreeMap.getElem?_insert_self]

theorem leavesRoom_classTakingA : (Scan.single "A" classTakingA).LeavesRoom := by
  intro name found original hfound hdecode method hmethod
  obtain ⟨-, rfl⟩ := Scan.decode_of_single rfl hfound hdecode
  obtain rfl := List.mem_singleton.1 hmethod
  decide

theorem decode_classTaking_ne_ok {bytes : Bytes} {byte : UInt8}
    (hbytes : Utf8.encode (takingTwo target).text = bytes)
    (hbyte : bytes[bytes.length % 2 ^ 16]? = some byte) (htag : 20 < byte) {found : ClassFile} :
    ClassFile.decode (classTaking target).encode ≠ .ok found := by
  subst hbytes
  have hsize : (classTaking target).pool.size ≤ Pool.capacity := (by decide : 5 ≤ Pool.capacity)
  have hentries : (classTaking target).pool.entries.toList =
      .unusable :: ([] ++ Constant.utf8 (Utf8.encode (takingTwo target).text) ::
        [Constant.utf8 (Utf8.encode target), .classRef 2, .utf8 (Utf8.encode "m")]).flatMap
          Constant.slots := rfl
  exact ClassFile.decode_ne_ok_of_overlong hentries hsize (fun _ h => absurd h List.not_mem_nil)
    (List.cons_ne_nil _ _) hbyte htag

end Naming

theorem Generated.readable_of_generate_classTakingA :
    ∃ analysis generated bytes last,
      (analyze (configNaming "B") (.single "A" classTakingA)).result = .ok analysis ∧
        (generate (configNaming "B") analysis).result = .ok generated ∧
        generated.classes["B.class"]? = some bytes ∧ analysis.Yields (configNaming "B") bytes last ∧
        (ClassFile.decode bytes = .ok last ↔ last.pool.TextsBelow (2 ^ 16)) := by
  have hplain : '.' ∉ "B".toList := by decide
  obtain ⟨analysis, generated, hanalyze, hgenerate, hpath⟩ := exists_generated_classTakingA hplain
  obtain ⟨last, hyields, hread⟩ :=
    Generated.readable_of_generate hanalyze hgenerate leavesRoom_classTakingA hpath
  exact ⟨analysis, generated, _, last, hanalyze, hgenerate, hpath, hyields, hread⟩

/-- A name of `length` letters. -/
def repeatedName (length : Nat) : String :=
  String.ofList (List.replicate length 'x')

theorem encode_takingTwo_repeatedName (length : Nat) :
    Utf8.encode (takingTwo (repeatedName length)).text =
      [40, 76] ++ (List.replicate length 120 ++ ([59, 76] ++ (List.replicate length 120 ++
        [59, 41, 86]))) := by
  have hx : String.utf8EncodeChar 'x' = [120] := by decide
  have hchars : (takingTwo (repeatedName length)).text =
      String.ofList (['(', 'L'] ++ (List.replicate length 'x' ++ ([';', 'L'] ++
        (List.replicate length 'x' ++ [';', ')', 'V'])))) := by
    simp [takingTwo, Descriptor.text, MethodType.text, MethodType.chars, FieldType.chars,
      ElementType.chars, repeatedName]
  rw [hchars, Utf8.encode_ofList]
  simp only [List.flatMap_append, List.flatMap_replicate, hx, List.flatten_replicate_singleton]
  rfl

theorem length_encode_takingTwo_repeatedName (length : Nat) :
    (Utf8.encode (takingTwo (repeatedName length)).text).length = 2 * length + 7 := by
  rw [encode_takingTwo_repeatedName]
  simp only [List.length_append, List.length_replicate, List.length_cons, List.length_nil]
  omega

theorem getElem?_encode_takingTwo_repeatedName {length index : Nat} (hlt : index < length) :
    (Utf8.encode (takingTwo (repeatedName length)).text)[index + 2]? = some 120 := by
  have hindex : index < (List.replicate length (120 : UInt8)).length := by
    rwa [List.length_replicate]
  rw [encode_takingTwo_repeatedName]
  show (List.replicate length (120 : UInt8) ++ _)[index]? = _
  rw [List.getElem?_append_left hindex, List.getElem?_replicate, if_pos hlt]

/-- A name of forty thousand letters fits into a text, and two of them do not. The generation
succeeds, and no class can be read from the bytes that it writes. -/
theorem Generated.not_readable_classTakingA :
    ∃ analysis generated bytes,
      (analyze (configNaming (repeatedName 40000)) (.single "A" classTakingA)).result =
          .ok analysis ∧
        (generate (configNaming (repeatedName 40000)) analysis).result = .ok generated ∧
        (Scan.single "A" classTakingA).LeavesRoom ∧
        generated.classes[repeatedName 40000 ++ ".class"]? = some bytes ∧
        ∀ classFile, ClassFile.decode bytes ≠ .ok classFile := by
  have hplain : '.' ∉ (repeatedName 40000).toList := by
    rw [repeatedName, String.toList_ofList]
    exact fun h => absurd (List.eq_of_mem_replicate h) (by decide)
  obtain ⟨analysis, generated, hanalyze, hgenerate, hpath⟩ := exists_generated_classTakingA hplain
  refine ⟨analysis, generated, _, hanalyze, hgenerate, leavesRoom_classTakingA, hpath, ?_⟩
  have hlength : (Utf8.encode (takingTwo (repeatedName 40000)).text).length % 2 ^ 16 =
      14469 + 2 := by
    rw [length_encode_takingTwo_repeatedName]
    decide
  have hbyte := getElem?_encode_takingTwo_repeatedName (show 14469 < 40000 by decide)
  rw [← hlength] at hbyte
  exact fun classFile => decode_classTaking_ne_ok rfl hbyte (by decide)

end JarTailor
