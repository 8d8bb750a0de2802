import JarTailor.Jar.Scan
import JarTailor.Proofs.Maps
import JarTailor.Proofs.Success

/-!
# Scans grow

Whatever is added to a scan, the classes it holds stay as they are: of a class that several inputs
hold the first counts.
-/

namespace JarTailor

/-- Sorted files are read as they come. -/
theorem Archive.files_of_sorted {archive : Archive}
    (hfiles : ∀ entry ∈ archive, isDirectory entry.1 = false)
    (hsorted : archive.Pairwise fun a b => decide (a.1 ≤ b.1) = true) :
    archive.files = archive := by
  have hall : (archive.filter fun entry => !isDirectory entry.1) = archive := by
    refine List.filter_eq_self.2 fun entry hentry => ?_
    rw [hfiles entry hentry]
    rfl
  rw [files, hall, List.mergeSort_of_pairwise hsorted]

/-- The files of an input in the order in which they are read, none if it cannot be opened. -/
def Input.files (input : Input) : Archive :=
  (input.content.toOption.map Archive.files).getD []

theorem Input.files_of_content {input : Input} {archive : Archive}
    (h : input.content = .ok archive) : input.files = archive.files := by
  rw [files, h]
  rfl

namespace Scan

/-- The second scan holds the classes of the first, with the same bytes from the same inputs. -/
def Within (before after : Scan) : Prop :=
  ∀ (name : String) (found : FoundClass), before.classes[name]? = some found →
    after.classes[name]? = some found

section Steps

variable {before middle after : Scan} {source : String}

theorem Within.refl (scan : Scan) : scan.Within scan :=
  fun _ _ h => h

theorem Within.trans (h : before.Within middle) (h' : middle.Within after) :
    before.Within after :=
  fun name found hfound => h' name found (h name found hfound)

theorem within_of_classes_eq (h : after.classes = before.classes) : before.Within after :=
  fun _ _ hfound => h ▸ hfound

theorem Within.mem (h : before.Within after) {name : String} (hname : name ∈ before.classes) :
    name ∈ after.classes := by
  rw [mem_iff_exists_getElem?] at hname ⊢
  exact hname.imp fun found hfound => h name found hfound

theorem within_insert {name : String} {found : FoundClass} (hnew : name ∉ before.classes)
    (h : after.classes = before.classes.insert name found) : before.Within after := by
  intro other held hheld
  have hne : compare name other ≠ .eq := by
    intro heq
    obtain rfl := Std.compare_eq_iff_eq.1 heq
    exact hnew (mem_iff_exists_getElem?.2 ⟨held, hheld⟩)
  rwa [h, Std.ExtTreeMap.getElem?_insert, if_neg hne]

theorem within_of_addEntry {path : String} {bytes : Bytes} {name : Option String}
    (h : (addEntry source before path bytes).result = .ok (after, name)) :
    before.Within after := by
  unfold addEntry at h
  split at h
  · next own hown =>
      split at h
      · cases h
        exact within_of_classes_eq rfl
      · next hnew =>
          cases h
          refine within_insert (fun hmem => hnew ?_) rfl
          exact Std.ExtTreeMap.contains_iff_mem.2 hmem
  · cases h
    exact within_of_classes_eq rfl
  · cases h
    exact .refl before

theorem within_of_addEntries {entries : Archive} {names : List String}
    (h : (addEntries source before entries).result = .ok (after, names)) :
    before.Within after := by
  induction entries generalizing before names with
  | nil =>
      cases h
      exact .refl after
  | cons entry entries ih =>
      obtain ⟨path, bytes⟩ := entry
      simp only [addEntries, Traced.result_bind] at h
      obtain ⟨⟨middle, name⟩, hentry, h⟩ := Except.bind_eq_ok_iff.1 h
      obtain ⟨⟨last, others⟩, hentries, h⟩ := Except.bind_eq_ok_iff.1 h
      cases h
      exact (within_of_addEntry hentry).trans (ih hentries)

theorem addInput_of_archive {path : String} {archive : Archive} (h : isSupported path = true) :
    before.addInput ⟨path, .ok archive⟩ = before.addArchive path archive := by
  rw [addInput, h]
  rfl

/-- An input is read whole and then listed. -/
theorem addInput_eq_ok {input : Input} (h : (addInput before input).result = .ok after) :
    ∃ archive scan names, input.content = .ok archive ∧
      (addEntries input.path before archive.files).result = .ok (scan, names) ∧
        after = { scan with listings := scan.listings ++ [⟨input.path, names⟩] } := by
  unfold addInput at h
  split at h
  · cases h
  · simp only [addArchive, Traced.result_bind, Traced.result_monadLift] at h
    obtain ⟨archive, harchive, h⟩ := Except.bind_eq_ok_iff.1 h
    obtain ⟨⟨scan, names⟩, hentries, h⟩ := Except.bind_eq_ok_iff.1 h
    obtain ⟨_, -, h⟩ := Except.bind_eq_ok_iff.1 h
    cases h
    exact ⟨archive, scan, names, harchive, hentries, rfl⟩

theorem within_of_addInput {input : Input} (h : (addInput before input).result = .ok after) :
    before.Within after := by
  obtain ⟨archive, scan, names, -, hentries, rfl⟩ := addInput_eq_ok h
  exact (within_of_addEntries hentries).trans (within_of_classes_eq rfl)

theorem within_of_addInputs {inputs : List Input}
    (h : (inputs.foldlM addInput before).result = .ok after) : before.Within after :=
  Traced.foldlM_preserves (fun _ _ _ hbefore hinput => hbefore.trans (within_of_addInput hinput))
    (.refl before) h

end Steps

section Views

variable {γ : Type} {view : Scan → Option γ} {given : String → String × Bytes → Option γ}
variable {before after : Scan} {source : String}

/-- What the view shows of a scan is not changed by a further entry, and if there was nothing to
see, it is what the entry gives. -/
structure KeepsFirst (view : Scan → Option γ) (given : String → String × Bytes → Option γ) :
    Prop where
  listings : ∀ (scan : Scan) (listings : List Listing), view { scan with listings } = view scan
  entry : ∀ {source path : String} {bytes : Bytes} {before after : Scan} {name : Option String},
    (addEntry source before path bytes).result = .ok (after, name) →
      view after = (view before).or (given source (path, bytes))

theorem KeepsFirst.of_addEntries (hview : KeepsFirst view given) {entries : Archive}
    {names : List String} (h : (addEntries source before entries).result = .ok (after, names)) :
    view after = (view before).or (entries.findSome? (given source)) := by
  induction entries generalizing before names with
  | nil =>
      cases h
      exact (Option.or_none ..).symm
  | cons entry entries ih =>
      obtain ⟨path, bytes⟩ := entry
      simp only [addEntries, Traced.result_bind] at h
      obtain ⟨⟨middle, name⟩, hentry, h⟩ := Except.bind_eq_ok_iff.1 h
      obtain ⟨⟨last, others⟩, hentries, h⟩ := Except.bind_eq_ok_iff.1 h
      cases h
      rw [ih hentries, hview.entry hentry, Option.or_assoc, List.findSome?_cons]
      cases given source (path, bytes) <;> rfl

/-- After some inputs a view shows what it showed before, or the first that they give. -/
theorem KeepsFirst.of_addInputs (hview : KeepsFirst view given) {inputs : List Input}
    (h : (inputs.foldlM addInput before).result = .ok after) :
    view after = (view before).or
      (inputs.findSome? fun input => input.files.findSome? (given input.path)) := by
  induction inputs generalizing before with
  | nil =>
      cases h
      exact (Option.or_none ..).symm
  | cons input inputs ih =>
      rw [List.foldlM_cons, Traced.result_bind] at h
      obtain ⟨middle, hinput, h⟩ := Except.bind_eq_ok_iff.1 h
      obtain ⟨archive, scan, names, harchive, hentries, rfl⟩ := addInput_eq_ok hinput
      rw [ih h, hview.listings, hview.of_addEntries hentries, Option.or_assoc,
        List.findSome?_cons, Input.files_of_content harchive]
      cases archive.files.findSome? (given input.path) <;> rfl

end Views

/-- What some inputs give stays when more inputs follow them. -/
theorem within_of_scanInputs {inputs more : List Input} {before after : Scan}
    (h : (scanInputs inputs).result = .ok before)
    (h' : (scanInputs (inputs ++ more)).result = .ok after) : before.Within after := by
  rw [scanInputs, List.foldlM_append, Traced.result_bind] at h'
  obtain ⟨middle, hmiddle, hmore⟩ := Except.bind_eq_ok_iff.1 h'
  obtain rfl : before = middle := Except.ok.inj (h.symm.trans hmiddle)
  exact within_of_addInputs hmore

end Scan

/-- What is found in an archive that holds a class `A` only. -/
def scanOf (bytes : Bytes) : Scan :=
  { classes := .ofList [("A", FoundClass.mk bytes "a.jar")]
    listings := [⟨"a.jar", ["A"]⟩]
    classCount := 1 }

theorem scanInputs_of_class (bytes : Bytes) :
    (scanInputs [⟨"a.jar", .ok [("A.class", bytes)]⟩]).result = .ok (scanOf bytes) := by
  have hfiles : ∀ entry ∈ [("A.class", bytes)], Archive.isDirectory entry.1 = false := by
    intro entry hentry
    rw [List.mem_singleton.1 hentry]
    show Archive.isDirectory "A.class" = false
    decide
  rw [scanInputs, List.foldlM_cons, Scan.addInput_of_archive (by decide), Scan.addArchive,
    Archive.files_of_sorted hfiles (List.pairwise_singleton _ _)]
  rfl

end JarTailor
