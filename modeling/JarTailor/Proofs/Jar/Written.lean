import JarTailor.Proofs.Analysis.Kept
import JarTailor.Proofs.Edit.Renamed
import JarTailor.Proofs.Edit.Writable
import JarTailor.Proofs.Jar.Prepared
import Mathlib

/-!
# Where the kept classes are written

Every kept class is written once, at the path of its new name, and what is written there declares
that name. Two classes for one path make the generation fail.
-/

namespace JarTailor

namespace Member

/-- The second member has the descriptor of the first and at most so many attributes more. -/
def GrowsBy (count : Nat) (before after : Member) : Prop :=
  after.descriptor = before.descriptor ∧
    after.attributes.length ≤ before.attributes.length + count

variable {before middle after : Member} {start last : Pool} {count : Nat}

theorem growsBy_of_rewrites (h : Redirect.Rewrites start before after) :
    GrowsBy 0 before after := by
  rcases h with rfl | ⟨pool, position, entry, body, code, -, -, -, -, -, rfl⟩
  · exact ⟨rfl, le_rfl⟩
  · exact ⟨rfl, (List.length_modify ..).le⟩

theorem growsBy_of_rebodies (h : Replace.Rebodies start last before after) :
    GrowsBy 1 before after := by
  refine ⟨h.descriptor, ?_⟩
  rcases h with rfl | ⟨grown, descriptor, name, body, -, -, -, -, -, rfl⟩
  · exact Nat.le_succ _
  · exact length_attributes_withCode

theorem GrowsBy.trans {more : Nat} (h : GrowsBy count before middle)
    (h' : GrowsBy more middle after) : GrowsBy (count + more) before after := by
  obtain ⟨hdescriptor, hlength⟩ := h
  obtain ⟨hdescriptor', hlength'⟩ := h'
  exact ⟨hdescriptor'.trans hdescriptor, by omega⟩

theorem growsBy_of_sameButFlags (h : Promotions.SameButFlags before after) :
    GrowsBy 0 before after := by
  obtain ⟨flags, rfl⟩ := h
  exact ⟨rfl, le_rfl⟩

end Member

/-- What a kept class refers to is known. -/
theorem Analysis.exists_refers_of_mem_kept {config : Config} {scan : Scan} {analysis : Analysis}
    (h : (analyze config scan).result = .ok analysis) {name : String} {entry : ClassEntry}
    (hkept : (name, entry) ∈ analysis.kept) {original : ClassFile}
    (hdecode : ClassFile.decode entry.bytes = .ok original) :
    ∃ references uses, scan.Refers name references ∧
      References.Known original references uses := by
  obtain ⟨found, hfound, hbytes, -⟩ := exists_found_of_mem_kept h hkept
  obtain ⟨table, htable, -⟩ := analyze_eq_ok h
  have hmem : name ∈ scan.classes := mem_iff_exists_getElem?.2 ⟨found, hfound⟩
  obtain ⟨references, held, hheld, hofBytes⟩ := exists_refers_of_mem htable hmem
  obtain rfl : found = held := Option.some.inj (hfound.symm.trans hheld)
  obtain ⟨classFile, hclass, hofClass⟩ := Except.bind_eq_ok_iff.1 hofBytes
  rw [hbytes] at hdecode
  obtain rfl : original = classFile :=
    Except.ok.inj (hdecode.symm.trans (Except.within_eq_ok_iff.1 hclass))
  obtain ⟨uses, hknown⟩ := References.known_of_ofClass hofClass
  exact ⟨references, uses, ⟨found, hfound, hofBytes⟩, hknown⟩

/-- Every method has its descriptor in the pool. -/
def ClassFile.HasDescriptors (classFile : ClassFile) : Prop :=
  ∀ member ∈ classFile.methods, ∃ text, classFile.pool.text member.descriptor = .ok text

namespace Tailor

section Prepared

variable {tailor : Tailor} {name : String} {flags : ClassFlags}
variable {original before after : ClassFile}

/-- The passes before the last, one by one, in a class of which nothing is known. -/
theorem Prepares.steps (h : tailor.Prepares name flags before after)
    (hsize : before.pool.size ≤ Pool.capacity) :
    ∃ redirected replaced,
      Redirect.Redirected tailor.config.redirects (fun _ => True) before redirected ∧
        (replaced = redirected ∨
          ∃ owner, Replace.Replaced owner (fun _ => True) redirected replaced) ∧
          Promotions.Promoted replaced after := by
  obtain ⟨redirected, count, replaced, promoted, hredirect, hreplace, hpromote⟩ := h
  have hredirected : Redirect.Redirected tailor.config.redirects (fun _ => True)
      before redirected :=
    ClassFile.redirected_of_edit (Except.map_eq_ok_iff.2 ⟨_, hredirect, rfl⟩) hsize
  refine ⟨redirected, replaced.classFile, hredirected, ?_, Promotions.promoted_of_apply hpromote⟩
  unfold replaceBodies at hreplace
  split at hreplace
  · cases hreplace
    exact Or.inl rfl
  · simp only [Traced.result_bind] at hreplace
    obtain ⟨⟨found, used⟩, happly, hdone⟩ := Except.bind_eq_ok_iff.1 hreplace
    cases hdone
    have hedit : (ClassEdit.replace tailor.config.replacements
        (tailor.config.delegatesNatives name)).apply redirected = .ok found :=
      Except.map_eq_ok_iff.2 ⟨_, happly, rfl⟩
    exact Or.inr (ClassFile.replaced_of_edit hedit (hredirected.gains.size_le hsize))

theorem Prepares.sound (h : tailor.Prepares name flags before after)
    (hsound : ClassFile.Sound original before) : ClassFile.Sound original after := by
  obtain ⟨redirected, replaced, hredirected, hreplaced, hpromoted⟩ := h.steps hsound.size_le
  have hmiddle := hsound.of_gains hredirected.gains hredirected.methods.length_eq.symm
    hredirected.others
  rcases hreplaced with rfl | ⟨owner, hreplaced⟩
  · exact hmiddle.of_promoted hpromoted
  · have hlast := hmiddle.of_gains hreplaced.gains hreplaced.methods.length_eq.symm
      hreplaced.others
    exact hlast.of_promoted hpromoted

theorem Prepares.methods (h : tailor.Prepares name flags before after)
    (hsize : before.pool.size ≤ Pool.capacity) :
    List.Forall₂ (Member.GrowsBy 1) before.methods after.methods := by
  obtain ⟨redirected, replaced, hredirected, hreplaced, hpromoted⟩ := h.steps hsize
  have hmiddle : List.Forall₂ (Member.GrowsBy 1) redirected.methods replaced.methods := by
    rcases hreplaced with rfl | ⟨owner, hreplaced⟩
    · exact List.forall₂_same.2 fun _ _ => ⟨rfl, Nat.le_succ _⟩
    · exact hreplaced.methods.imp fun _ _ => Member.growsBy_of_rebodies
  have hlast : List.Forall₂ (Member.GrowsBy 1) redirected.methods after.methods :=
    related_trans hmiddle hpromoted.methods fun _ _ _ hgrows hflags =>
      hgrows.trans (Member.growsBy_of_sameButFlags hflags)
  exact related_trans hredirected.methods hlast fun _ _ _ hrewrites hgrows =>
    (Member.growsBy_of_rewrites hrewrites).trans hgrows

theorem Prepares.extends (h : tailor.Prepares name flags before after)
    (hsize : before.pool.size ≤ Pool.capacity) :
    before.pool.Extends after.pool ∧ after.thisClass = before.thisClass := by
  obtain ⟨redirected, replaced, hredirected, hreplaced, hpromoted⟩ := h.steps hsize
  have hlast : redirected.pool.Extends replaced.pool ∧
      replaced.thisClass = redirected.thisClass := by
    rcases hreplaced with rfl | ⟨owner, hreplaced⟩
    · exact ⟨fun _ _ h => h, rfl⟩
    · exact ⟨hreplaced.gains.extends, by rw [hreplaced.others]⟩
  rw [hpromoted.others]
  exact ⟨hredirected.gains.extends.trans hlast.1, hlast.2.trans (by rw [hredirected.others])⟩

theorem Prepares.keepsName (h : tailor.Prepares name flags before after)
    (hsize : before.pool.size ≤ Pool.capacity) {own : String} (hname : before.name = .ok own) :
    after.name = .ok own := by
  obtain ⟨hextends, hthis⟩ := h.extends hsize
  rw [ClassFile.name, hthis]
  exact hextends.className hname

/-- The descriptors that a class has in its own pool are as short as any text that was read. -/
theorem Prepares.descriptorsBelow (h : tailor.Prepares name flags before after) {bytes : Bytes}
    (hdecode : ClassFile.decode bytes = .ok before) (hdescriptors : before.HasDescriptors) :
    after.DescriptorsBelow (2 ^ 16) := by
  have hsize := (ClassFile.sound_of_decode hdecode).size_le
  intro member hmember text htext
  obtain ⟨old, hold, hdescriptor, -⟩ := exists_related_left (h.methods hsize) hmember
  obtain ⟨found, hfound⟩ := hdescriptors old hold
  rw [hdescriptor, (h.extends hsize).1.text hfound] at htext
  obtain rfl := Except.ok.inj htext
  exact length_lt_of_decode hdecode hfound

/-- New bodies fit if the descriptors that they are made for do. -/
theorem Prepares.bodiesFit (h : tailor.Prepares name flags before after)
    (hsize : before.pool.size ≤ Pool.capacity) (hbodies : before.BodiesFit)
    (hdescriptors : after.DescriptorsBelow (2 ^ 29)) : after.BodiesFit := by
  obtain ⟨redirected, replaced, hredirected, hreplaced, hpromoted⟩ := h.steps hsize
  have hmiddle := hbodies.of_redirected hredirected
  rcases hreplaced with rfl | ⟨owner, hreplaced⟩
  · exact hmiddle.of_promoted hpromoted
  · refine (hmiddle.of_replaced hreplaced fun member hmember text htext => ?_).of_promoted hpromoted
    obtain ⟨promoted, hmem, flags, rfl⟩ := exists_related_right hpromoted.methods hmember
    refine hdescriptors _ hmem text ?_
    rw [hpromoted.others]
    exact htext

end Prepared

section Fit

variable {tailor : Tailor} {config : Config} {name : String} {entry : ClassEntry}
variable {output : OutputClass} {files written : FileMap} {outputs : List OutputClass}
variable {entries : List (String × ClassEntry)}

theorem ofConfig_eq_ok (h : ofConfig config = .ok tailor) :
    tailor.config = config ∧ tailor.names = Renaming.ofPairs config.renameTable := by
  obtain ⟨promotions, -, hdone⟩ := Except.bind_eq_ok_iff.1 h
  cases hdone
  exact ⟨rfl, rfl⟩

theorem fit_eq_ok (h : (tailor.fit name entry).result = .ok output) :
    ∃ original tailored, ClassFile.decode entry.bytes = .ok original ∧
      (tailor.passes name entry.flags original).result = .ok tailored ∧
      (tailored.changed = false ∧ output.name = name ∧ output.bytes = entry.bytes ∨
        tailored.classFile.name = .ok output.name ∧
          output.bytes = tailored.classFile.encode) := by
  rw [fit] at h
  simp only [Traced.result_bind, Traced.result_monadLift] at h
  obtain ⟨original, hdecode, h⟩ := Except.bind_eq_ok_iff.1 h
  obtain ⟨tailored, hpasses, h⟩ := Except.bind_eq_ok_iff.1 h
  refine ⟨original, tailored, hdecode, hpasses, ?_⟩
  cases hchanged : tailored.changed with
  | false =>
      rw [hchanged] at h
      cases h
      exact Or.inl ⟨rfl, rfl, rfl⟩
  | true =>
      simp only [hchanged, Bool.not_true, Bool.false_eq_true, if_false, Traced.result_bind,
        Traced.result_monadLift] at h
      obtain ⟨renamed, hrenamed, h⟩ := Except.bind_eq_ok_iff.1 h
      refine Or.inr ?_
      split at h <;> cases h <;> exact ⟨hrenamed, rfl⟩

end Fit

end Tailor

/-- The path that a class is written to. -/
def OutputClass.path (output : OutputClass) : String :=
  output.name ++ ".class"

/-- Files with the classes of a list added, each at a path of its own. -/
structure FileMap.Adds (outputs : List OutputClass) (before after : FileMap) : Prop where
  distinct : (outputs.map OutputClass.path).Nodup
  fresh : ∀ output ∈ outputs, output.path ∉ before
  lookup : ∀ path bytes, after[path]? = some bytes ↔
    before[path]? = some bytes ∨ ∃ output ∈ outputs, output.path = path ∧ output.bytes = bytes
  size : after.size = before.size + outputs.length

theorem FileMap.adds_cons {output : OutputClass} {outputs : List OutputClass}
    {before after : FileMap} (hfresh : output.path ∉ before)
    (h : Adds outputs (before.insert output.path output.bytes) after) :
    Adds (output :: outputs) before after := by
  have hlater : ∀ other ∈ outputs, output.path ≠ other.path ∧ other.path ∉ before := by
    intro other hother
    have hinsert := h.fresh other hother
    rw [Std.ExtTreeMap.mem_insert, not_or, Std.compare_eq_iff_eq] at hinsert
    exact hinsert
  refine ⟨?_, ?_, fun path bytes => ?_, ?_⟩
  · rw [List.map_cons, List.nodup_cons]
    refine ⟨fun hmem => ?_, h.distinct⟩
    obtain ⟨other, hother, hsame⟩ := List.mem_map.1 hmem
    exact (hlater other hother).1 hsame.symm
  · rintro other (_ | ⟨_, hother⟩)
    · exact hfresh
    · exact (hlater other hother).2
  · rw [h.lookup, Std.ExtTreeMap.getElem?_insert, List.exists_mem_cons_iff]
    by_cases hsame : output.path = path
    · subst hsame
      have hnone : before[output.path]? = none := Std.ExtTreeMap.getElem?_eq_none hfresh
      simp [hnone]
    · simp [hsame]
  · have hnew : before.contains output.path = false := by
      rwa [← Bool.not_eq_true, Std.ExtTreeMap.contains_iff_mem]
    rw [h.size, Std.ExtTreeMap.size_insert, hnew, List.length_cons]
    simp only [Bool.false_eq_true, if_false]
    omega

theorem FileMap.Adds.mem_iff {outputs : List OutputClass} {before after : FileMap}
    (h : Adds outputs before after) {path : String} :
    path ∈ after ↔ path ∈ before ∨ path ∈ outputs.map OutputClass.path := by
  simp only [mem_iff_exists_getElem?, h.lookup, exists_or, List.mem_map]
  refine or_congr_right ⟨?_, ?_⟩
  · rintro ⟨bytes, output, houtput, hpath, -⟩
    exact ⟨output, houtput, hpath⟩
  · rintro ⟨output, houtput, hpath⟩
    exact ⟨output.bytes, output, houtput, hpath, rfl⟩

namespace Tailor

section Fit

variable {tailor : Tailor} {config : Config} {files written : FileMap}
variable {outputs : List OutputClass} {entries : List (String × ClassEntry)}

/-- All classes are written, and nothing else. -/
theorem adds_of_fitAll (h : (tailor.fitAll entries files).result = .ok (written, outputs)) :
    List.Forall₂ (fun entry output => (tailor.fit entry.1 entry.2).result = .ok output)
      entries outputs ∧ FileMap.Adds outputs files written := by
  induction entries generalizing files outputs with
  | nil =>
      cases h
      exact ⟨.nil, List.nodup_nil, by simp, by simp, rfl⟩
  | cons first entries ih =>
      rw [fitAll] at h
      simp only [Traced.result_bind, Traced.result_within] at h
      obtain ⟨output, houtput, h⟩ := Except.bind_eq_ok_iff.1 h
      split at h
      · cases h
      next hfresh =>
        simp only [Traced.result_bind] at h
        obtain ⟨⟨rest, others⟩, hrest, hdone⟩ := Except.bind_eq_ok_iff.1 h
        cases hdone
        obtain ⟨hfits, hadds⟩ := ih hrest
        refine ⟨.cons (Except.within_eq_ok_iff.1 houtput) hfits, FileMap.adds_cons ?_ hadds⟩
        rwa [Std.ExtTreeMap.contains_iff_mem] at hfresh

theorem fitAll_eq_ok (h : (tailor.fitAll entries files).result = .ok (written, outputs)) :
    (∀ path ∈ files, path ∈ written) ∧ ∀ name entry, (name, entry) ∈ entries →
      ∃ output, (tailor.fit name entry).result = .ok output ∧
        output.name ++ ".class" ∈ written := by
  obtain ⟨hfits, hadds⟩ := adds_of_fitAll h
  refine ⟨fun path hpath => hadds.mem_iff.2 (Or.inl hpath), fun name entry hentry => ?_⟩
  obtain ⟨output, houtput, hfit⟩ := exists_related_right hfits hentry
  exact ⟨output, hfit, hadds.mem_iff.2 (Or.inr (List.mem_map_of_mem houtput))⟩

/-- A class is written as its bytes and flags say, whatever else is known about it. -/
theorem fit_congr {name : String} {entry other : ClassEntry} (hbytes : other.bytes = entry.bytes)
    (hrenamed : other.flags.renamed = entry.flags.renamed)
    (hstubbed : other.flags.stubbed = entry.flags.stubbed) :
    tailor.fit name other = tailor.fit name entry := by
  simp only [fit, passes, replaceBodies, hbytes, hrenamed, hstubbed]

theorem generate_eq_ok {analysis : Analysis} {generated : Generated}
    (h : (generate config analysis).result = .ok generated) :
    ∃ tailor outputs, ofConfig config = .ok tailor ∧
      (tailor.fitAll analysis.kept ∅).result = .ok (generated.classes, outputs) := by
  simp only [generate, Traced.result_bind, Traced.result_monadLift] at h
  obtain ⟨tailor, htailor, h⟩ := Except.bind_eq_ok_iff.1 h
  obtain ⟨⟨classes, outputs⟩, hfit, h⟩ := Except.bind_eq_ok_iff.1 h
  refine ⟨tailor, outputs, htailor, ?_⟩
  obtain ⟨_, -, h⟩ := Except.bind_eq_ok_iff.1 h
  obtain ⟨_, -, h⟩ := Except.bind_eq_ok_iff.1 h
  cases h
  exact hfit

/-- Nothing of a generation fails once the classes are written. -/
theorem exists_generate {analysis : Analysis} (htailor : ofConfig config = .ok tailor)
    (hfit : (tailor.fitAll analysis.kept ∅).result = .ok (written, outputs)) :
    ∃ generated, (generate config analysis).result = .ok generated ∧
      generated.classes = written := by
  simp only [generate, Traced.result_bind, Traced.result_monadLift]
  exact ⟨⟨written, _, _, _⟩, Except.bind_eq_ok_iff.2 ⟨tailor, htailor,
    Except.bind_eq_ok_iff.2 ⟨(written, outputs), hfit,
      Except.bind_eq_ok_iff.2 ⟨_, Traced.result_forIn fun _ => rfl, rfl⟩⟩⟩, rfl⟩

theorem getElem?_classes_iff {analysis : Analysis} {generated : Generated}
    (htailor : ofConfig config = .ok tailor)
    (h : (generate config analysis).result = .ok generated) {path : String} {bytes : Bytes} :
    generated.classes[path]? = some bytes ↔ ∃ name entry output,
      (name, entry) ∈ analysis.kept ∧ (tailor.fit name entry).result = .ok output ∧
        output.path = path ∧ output.bytes = bytes := by
  obtain ⟨tailor', outputs, htailor', hfit⟩ := generate_eq_ok h
  obtain rfl : tailor = tailor' := Except.ok.inj (htailor.symm.trans htailor')
  obtain ⟨hfits, hadds⟩ := adds_of_fitAll hfit
  simp only [hadds.lookup, Std.ExtTreeMap.getElem?_empty, reduceCtorEq, false_or]
  constructor
  · rintro ⟨output, houtput, hpath, hbytes⟩
    obtain ⟨⟨name, entry⟩, hentry, hfit⟩ := exists_related_left hfits houtput
    exact ⟨name, entry, output, hentry, hfit, hpath, hbytes⟩
  · rintro ⟨name, entry, output, hentry, hfit, hpath, hbytes⟩
    obtain ⟨output', houtput', hfit'⟩ := exists_related_right hfits hentry
    obtain rfl : output = output' := Except.ok.inj (hfit.symm.trans hfit')
    exact ⟨output, houtput', hpath, hbytes⟩

end Fit

section Output

variable {tailor : Tailor} {name : String} {entry : ClassEntry} {output : OutputClass}
variable {original prepared last : ClassFile} {changed : Bool}

/-- What the passes make of a class can be written: its texts and the attributes of its methods can
be counted with two bytes, and the lengths of new bodies with four. These are short anyway where the
descriptors that they are made for are texts of the class as it was read. -/
def Countable (tailor : Tailor) (name : String) (entry : ClassEntry) : Prop :=
  ∀ original prepared last changed, ClassFile.decode entry.bytes = .ok original →
    tailor.Prepares name entry.flags original prepared →
      tailor.names.apply prepared = .ok (last, changed) →
        last.pool.TextsBelow (2 ^ 16) ∧
          (∀ method ∈ last.methods, method.attributes.length < 2 ^ 16) ∧
            (original.HasDescriptors ∨ prepared.DescriptorsBelow (2 ^ 29))

theorem declares_of_prepares (hdecode : ClassFile.decode entry.bytes = .ok original)
    (hprepares : tailor.Prepares name entry.flags original prepared)
    (happly : tailor.names.apply prepared = .ok (last, changed))
    (hname : original.name = .ok name) (harray : name.toList.head? ≠ some '[') :
    last.name = .ok (tailor.names.rename name) :=
  Renaming.name_of_apply_of_head?_ne happly
    (hprepares.keepsName (ClassFile.sound_of_decode hdecode).size_le hname) harray

/-- What was rewritten is read back, if its lengths can be written. -/
theorem decode_encode_of_lengths (hdecode : ClassFile.decode entry.bytes = .ok original)
    (hprepares : tailor.Prepares name entry.flags original prepared)
    (happly : tailor.names.apply prepared = .ok (last, changed))
    (htexts : last.pool.TextsBelow (2 ^ 16))
    (hcounts : ∀ method ∈ last.methods, method.attributes.length < 2 ^ 16)
    (hdescriptors : original.HasDescriptors ∨ prepared.DescriptorsBelow (2 ^ 29)) :
    ClassFile.decode last.encode = .ok last := by
  have hsound := ClassFile.sound_of_decode hdecode
  have hshort : prepared.DescriptorsBelow (2 ^ 29) :=
    hdescriptors.elim (fun h => (hprepares.descriptorsBelow hdecode h).mono (by decide)) id
  have hbodies := hprepares.bodiesFit hsound.size_le (ClassFile.bodiesFit_of_decode hdecode)
    hshort
  exact ((hprepares.sound hsound).of_renaming happly).decode_encode (hbodies.of_renaming happly)
    htexts hcounts

/-- The output has the new name of a class, and from its bytes a class of this name is read. -/
def Carries (tailor : Tailor) (kept : String × ClassEntry) (output : OutputClass) : Prop :=
  output.name = tailor.names.rename kept.1 ∧
    (tailor.Countable kept.1 kept.2 → ∃ classFile,
      ClassFile.decode output.bytes = .ok classFile ∧ classFile.name = .ok output.name)

theorem carries_of_fit (h : (tailor.fit name entry).result = .ok output)
    (hdeclares : ∀ original, ClassFile.decode entry.bytes = .ok original →
      original.name = .ok name) (harray : name.toList.head? ≠ some '[') :
    tailor.Carries (name, entry) output := by
  obtain ⟨original, tailored, hdecode, hpasses, hwritten⟩ := fit_eq_ok h
  obtain ⟨prepared, renamed, hprepares, happly, hunchanged⟩ := passes_eq_ok hpasses
  have hlast := declares_of_prepares hdecode hprepares happly (hdeclares original hdecode) harray
  unfold Carries
  rcases hwritten with ⟨hchanged, hname, hbytes⟩ | ⟨hname, hbytes⟩
  · rw [hunchanged hchanged] at happly
    have hprepared : prepared.name = .ok name :=
      hprepares.keepsName (ClassFile.sound_of_decode hdecode).size_le (hdeclares original hdecode)
    rw [Renaming.eq_of_apply_false happly, hprepared] at hlast
    rw [hname, hbytes]
    exact ⟨Except.ok.inj hlast, fun _ => ⟨original, hdecode, hdeclares original hdecode⟩⟩
  · refine ⟨Except.ok.inj (hname.symm.trans hlast), fun hcountable => ?_⟩
    rw [hbytes]
    obtain ⟨htexts, hcounts, hdescriptors⟩ :=
      hcountable original prepared _ renamed hdecode hprepares happly
    exact ⟨_, decode_encode_of_lengths hdecode hprepares happly htexts hcounts hdescriptors, hname⟩

end Output

end Tailor

/-- The path that a class is to be written to. -/
def Config.outputPath (config : Config) (name : String) : String :=
  (Renaming.ofPairs config.renameTable).rename name ++ ".class"

/-- Every kept class declares the name that it is held under, and none is named like an array. -/
def Analysis.Declared (analysis : Analysis) : Prop :=
  ∀ name entry, (name, entry) ∈ analysis.kept → name.toList.head? ≠ some '[' ∧
    ∀ original, ClassFile.decode entry.bytes = .ok original → original.name = .ok name

/-- The output has each kept class at the path of its new name, and no other class. -/
structure Generated.Places (config : Config) (analysis : Analysis) (generated : Generated) :
    Prop where
  paths : ∀ path, path ∈ generated.classes ↔ path ∈ config.outputPath '' analysis.keptNames
  distinct : Set.InjOn config.outputPath analysis.keptNames
  size : generated.classes.size = analysis.keptCount
  declared : ∀ tailor, Tailor.ofConfig config = .ok tailor → ∀ name entry,
    (name, entry) ∈ analysis.kept → tailor.Countable name entry →
      ∃ bytes classFile, generated.classes[config.outputPath name]? = some bytes ∧
        ClassFile.decode bytes = .ok classFile ∧
          classFile.name = .ok ((Renaming.ofPairs config.renameTable).rename name)

theorem Tailor.carries_of_fits {tailor : Tailor} {analysis : Analysis}
    {outputs : List OutputClass} (hdeclared : analysis.Declared)
    (hfits : List.Forall₂ (fun entry output => (tailor.fit entry.1 entry.2).result = .ok output)
      analysis.kept outputs) : List.Forall₂ tailor.Carries analysis.kept outputs := by
  refine ((List.forall₂_and_left _ _).2 ⟨fun entry hentry => hentry, hfits⟩).imp ?_
  rintro ⟨name, entry⟩ output ⟨hentry, houtput⟩
  obtain ⟨harray, hdeclares⟩ := hdeclared name entry hentry
  exact carries_of_fit houtput hdeclares harray

theorem Analysis.image_keptNames (analysis : Analysis) (place : String → String) :
    place '' analysis.keptNames = { path | path ∈ analysis.kept.map (place ·.1) } := by
  ext path
  simp only [Set.mem_image, Set.mem_ofPred_eq, List.mem_map]
  constructor
  · rintro ⟨name, hname, rfl⟩
    obtain ⟨entry, hentry⟩ := Analysis.exists_mem_kept_iff.2 hname
    exact ⟨(name, entry), hentry, rfl⟩
  · rintro ⟨⟨name, entry⟩, hentry, rfl⟩
    exact ⟨name, Analysis.exists_mem_kept_iff.1 ⟨entry, hentry⟩, rfl⟩

theorem Generated.places_of_generate {config : Config} {analysis : Analysis}
    (hdeclared : analysis.Declared) {generated : Generated}
    (h : (generate config analysis).result = .ok generated) :
    generated.Places config analysis := by
  obtain ⟨tailor, outputs, htailor, hfit⟩ := Tailor.generate_eq_ok h
  obtain ⟨hfits, hadds⟩ := Tailor.adds_of_fitAll hfit
  have hcarries := Tailor.carries_of_fits hdeclared hfits
  have hplace : ∀ {kept output}, tailor.Carries kept output →
      output.path = config.outputPath kept.1 := by
    intro kept output hcarry
    rw [OutputClass.path, hcarry.1, (Tailor.ofConfig_eq_ok htailor).2, Config.outputPath]
  have hpaths : outputs.map OutputClass.path = analysis.kept.map (config.outputPath ·.1) :=
    (map_eq_map_of_related hcarries fun _ _ hcarry => (hplace hcarry).symm).symm
  have hdistinct := hadds.distinct
  rw [hpaths] at hdistinct
  refine ⟨fun path => ?_, ?_, ?_, ?_⟩
  · rw [hadds.mem_iff, hpaths, Analysis.image_keptNames]
    simp only [Std.ExtTreeMap.not_mem_empty, false_or, Set.mem_ofPred_eq]
  · intro first hfirst second hsecond hsame
    obtain ⟨firstEntry, hfirst⟩ := Analysis.exists_mem_kept_iff.2 hfirst
    obtain ⟨secondEntry, hsecond⟩ := Analysis.exists_mem_kept_iff.2 hsecond
    exact congrArg Prod.fst (List.inj_on_of_nodup_map hdistinct hfirst hsecond hsame)
  · rw [hadds.size, ← hfits.length_eq]
    exact Nat.zero_add _
  · intro tailor' htailor' name entry hentry hcountable
    obtain rfl : tailor = tailor' := Except.ok.inj (htailor.symm.trans htailor')
    obtain ⟨output, houtput, hcarry⟩ := exists_related_right hcarries hentry
    obtain ⟨classFile, hdecode, hclass⟩ := hcarry.2 hcountable
    refine ⟨output.bytes, classFile, (hadds.lookup _ _).2 (Or.inr ⟨output, houtput, hplace hcarry,
      rfl⟩), hdecode, ?_⟩
    rw [hclass, hcarry.1, (Tailor.ofConfig_eq_ok htailor).2]

/-- Whatever is generated has every kept class where it belongs, and nothing is generated if two of
them belong to one place. -/
theorem Generated.places_or_fails {config : Config} {analysis : Analysis}
    (hdeclared : analysis.Declared) :
    (∀ generated, (generate config analysis).result = .ok generated →
      generated.Places config analysis) ∧
      ∀ first ∈ analysis.keptNames, ∀ second ∈ analysis.keptNames, first ≠ second →
        config.outputPath first = config.outputPath second →
          ∃ failure, (generate config analysis).result = .error failure := by
  refine ⟨fun generated h => places_of_generate hdeclared h, ?_⟩
  intro first hfirst second hsecond hne hsame
  cases hresult : (generate config analysis).result with
  | error failure => exact ⟨failure, rfl⟩
  | ok generated =>
      exact absurd ((places_of_generate hdeclared hresult).distinct hfirst hsecond hsame) hne

/-- A class `A` that extends a class `B`. -/
def classExtendingB : ClassFile :=
  { minor := 0, major := 52
    pool := ⟨#[.unusable, .utf8 (Utf8.encode "A"), .classRef 1, .utf8 (Utf8.encode "B"),
      .classRef 3]⟩
    flags := 0x21, thisClass := 2, superClass := 4
    interfaces := [], fields := [], methods := [], attributes := [] }

def configRenamingA : Config :=
  { includes := ["A"], renames := [⟨"A", "C"⟩] }

def entryOfA : ClassEntry :=
  ⟨classExtendingB.encode, "a.jar", ⟨true, true, false, false, false⟩⟩

/-- An analysis that keeps the class `A` only. -/
def Analysis.keepingA : Analysis :=
  { classes := .ofList [("A", entryOfA)], graph := ∅, missing := .ofList ["B"]
    excludedReferences := ∅, unresolvedRoots := ∅, unmatchedGlobs := [], resources := ∅ }

def tailorRenamingA : Tailor :=
  { config := configRenamingA, promotions := ⟨∅, [], []⟩, names := .ofPairs [("A", "C")] }

theorem decode_entryOfA : ClassFile.decode entryOfA.bytes = .ok classExtendingB :=
  rfl

theorem countable_entryOfA : tailorRenamingA.Countable "A" entryOfA := by
  intro original prepared last changed hdecode hprepares happly
  obtain rfl := Except.ok.inj (decode_entryOfA.symm.trans hdecode)
  obtain ⟨redirected, count, replaced, promoted, hredirect, hreplace, hpromote⟩ := hprepares
  -- no pass but the last has anything to do
  have hredirected : (Redirect.apply [] classExtendingB).result = .ok (classExtendingB, 0) := by
    cbv
  cases hredirected.symm.trans hredirect
  cases hreplace
  have hpromoted : (tailorRenamingA.promotions.apply classExtendingB).result =
      .ok (classExtendingB, false) := by cbv
  cases hpromoted.symm.trans hpromote
  have hrenamed : tailorRenamingA.names.apply classExtendingB = .ok ({ classExtendingB with
      pool := ⟨#[.unusable, .utf8 (Utf8.encode "C"), .classRef 1, .utf8 (Utf8.encode "B"),
        .classRef 3]⟩ }, true) := by cbv
  cases hrenamed.symm.trans happly
  refine ⟨fun bytes hbytes => ?_, fun _ h => absurd h List.not_mem_nil,
    Or.inl fun _ h => absurd h List.not_mem_nil⟩
  have hcases : bytes = Utf8.encode "C" ∨ bytes = Utf8.encode "B" := by simpa using hbytes
  rcases hcases with rfl | rfl <;> decide

theorem Generated.places_or_fails_keepingA :
    ∃ generated bytes classFile,
      (generate configRenamingA .keepingA).result = .ok generated ∧
        generated.Places configRenamingA .keepingA ∧
          generated.classes["C.class"]? = some bytes ∧
            ClassFile.decode bytes = .ok classFile ∧ classFile.name = .ok "C" := by
  have hok : (generate configRenamingA .keepingA).result.toBool = true := by cbv
  obtain ⟨generated, hgenerate⟩ := Except.exists_eq_ok hok
  have hkept : ∀ name entry, (name, entry) ∈ Analysis.keepingA.kept →
      name = "A" ∧ entry = entryOfA := by
    intro name entry hentry
    have hlookup := (Analysis.mem_kept_iff.1 hentry).1
    rw [Analysis.keepingA, getElem?_map_ofList_iff (by simp), List.mem_singleton] at hlookup
    exact Prod.mk.inj hlookup
  have hdeclared : Analysis.keepingA.Declared := by
    intro name entry hentry
    obtain ⟨rfl, rfl⟩ := hkept name entry hentry
    refine ⟨by decide, fun original hdecode => ?_⟩
    obtain rfl := Except.ok.inj (decode_entryOfA.symm.trans hdecode)
    rfl
  have hplaces := (places_or_fails hdeclared).1 generated hgenerate
  have hmem : ("A", entryOfA) ∈ Analysis.keepingA.kept :=
    Analysis.mem_kept_iff.2 ⟨(getElem?_map_ofList_iff (by simp)).2 List.mem_cons_self, rfl⟩
  have htailor : Tailor.ofConfig configRenamingA = .ok tailorRenamingA := by cbv
  obtain ⟨bytes, classFile, hlookup, hdecode, hname⟩ :=
    hplaces.declared _ htailor _ _ hmem countable_entryOfA
  have hrenamed : (Renaming.ofPairs configRenamingA.renameTable).rename "A" = "C" := by cbv
  have hpath : configRenamingA.outputPath "A" = "C.class" := by
    rw [Config.outputPath, hrenamed]
    rfl
  rw [hpath] at hlookup
  rw [hrenamed] at hname
  exact ⟨generated, bytes, classFile, hgenerate, hplaces, hlookup, hdecode, hname⟩

end JarTailor
