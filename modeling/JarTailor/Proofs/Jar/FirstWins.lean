import JarTailor.Proofs.Jar.Packed
import JarTailor.Proofs.Jar.Reported
import Mathlib

/-!
# The first input wins

A scan holds every class and every resource that some input holds, as the first of these inputs has
it. What is listed for an input does not depend on the others. So inputs that share no entry may
come in any order.
-/

namespace JarTailor

/-- The entry at a path is the class of that name: it is none of those for later releases only, and
no module descriptor. -/
structure IsClassEntry (path name : String) : Prop where
  path_eq : path = name ++ ".class"
  not_meta : ¬"META-INF/".toList <+: path.toList
  not_module : name ≠ "module-info" ∧ ¬"/module-info".toList <:+ name.toList

theorem Scan.entryUse_eq_classFile_iff {path name : String} :
    entryUse path = .classFile name ↔ IsClassEntry path name := by
  unfold entryUse
  cases hstrip : Text.stripEnd? ".class" path with
  | none =>
      refine iff_of_false nofun fun h => ?_
      rw [Text.stripEnd?_eq_some_iff.2 h.path_eq] at hstrip
      cases hstrip
  | some own =>
      have hpath := Text.stripEnd?_eq_some_iff.1 hstrip
      have hown : IsClassEntry path name → own = name := fun h =>
        Option.some.inj (hstrip.symm.trans (Text.stripEnd?_eq_some_iff.2 h.path_eq))
      simp only [Bool.or_eq_true, Text.startsWith_iff, Text.endsWith_iff, beq_iff_eq]
      split
      · next hskipped =>
          refine iff_of_false nofun fun h => ?_
          obtain rfl := hown h
          rcases hskipped with (hmeta | hmodule) | hmodule
          · exact h.not_meta hmeta
          · exact h.not_module.1 hmodule
          · exact h.not_module.2 hmodule
      · next htaken =>
          rw [not_or, not_or] at htaken
          obtain ⟨⟨hmeta, hmodule⟩, hinner⟩ := htaken
          rw [EntryUse.classFile.injEq]
          refine ⟨?_, hown⟩
          rintro rfl
          exact ⟨hpath, hmeta, hmodule, hinner⟩

/-! ## What inputs hold -/

/-- An entry of the input that is no directory. -/
def Input.Holds (input : Input) (path : String) (bytes : Bytes) : Prop :=
  ∃ archive, input.content = .ok archive ∧ (path, bytes) ∈ archive ∧
    Archive.isDirectory path = false

/-- No two entries of the input have the same name. -/
def Input.WellNamed (input : Input) : Prop :=
  ∀ archive, input.content = .ok archive → (archive.map Prod.fst).Nodup

/-- The input holds the entry, and none before it holds one of that name. -/
def FirstHolds (inputs : List Input) (path : String) (input : Input) (bytes : Bytes) : Prop :=
  ∃ front back, inputs = front ++ input :: back ∧ input.Holds path bytes ∧
    ∀ earlier ∈ front, ∀ other, ¬earlier.Holds path other

/-- The inputs have no entry of the same name. -/
def Input.Apart (first second : Input) : Prop :=
  ∀ path bytes other, first.Holds path bytes → ¬second.Holds path other

theorem lookup_eq_some_iff_mem {β : Type} {entries : List (String × β)}
    (hdistinct : (entries.map Prod.fst).Nodup) {key : String} {value : β} :
    entries.lookup key = some value ↔ (key, value) ∈ entries := by
  induction entries with
  | nil => simp
  | cons entry entries ih =>
      obtain ⟨own, held⟩ := entry
      rw [List.map_cons, List.nodup_cons] at hdistinct
      rw [List.lookup_cons, List.mem_cons, Prod.mk.injEq]
      by_cases hown : key = own
      · subst hown
        have hnone : (key, value) ∉ entries := fun hmem =>
          hdistinct.1 (List.mem_map.2 ⟨_, hmem, rfl⟩)
        simp [hnone, eq_comm]
      · rw [beq_eq_false_iff_ne.2 hown, ih hdistinct.2]
        simp [hown]

section Files

variable {input : Input} {path : String} {bytes : Bytes}

theorem Input.mem_files_iff : (path, bytes) ∈ input.files ↔ input.Holds path bytes := by
  cases hcontent : input.content with
  | error failure =>
      refine iff_of_false ?_ fun ⟨archive, harchive, _⟩ => ?_
      · rw [files, hcontent]
        exact List.not_mem_nil
      · rw [hcontent] at harchive
        cases harchive
  | ok archive =>
      rw [files_of_content hcontent, Archive.files, List.mem_mergeSort, List.mem_filter,
        Bool.not_eq_true']
      constructor
      · rintro ⟨hmem, hfile⟩
        exact ⟨archive, hcontent, hmem, hfile⟩
      · rintro ⟨other, hother, hmem, hfile⟩
        obtain rfl : archive = other := Except.ok.inj (hcontent.symm.trans hother)
        exact ⟨hmem, hfile⟩

theorem Input.nodup_files (h : input.WellNamed) : (input.files.map Prod.fst).Nodup := by
  cases hcontent : input.content with
  | error failure =>
      rw [files, hcontent]
      exact List.nodup_nil
  | ok archive =>
      rw [files_of_content hcontent, Archive.files]
      have hkept := (List.filter_sublist (l := archive) (p := fun entry =>
        !Archive.isDirectory entry.1)).map Prod.fst
      rw [((List.mergeSort_perm _ _).map Prod.fst).nodup_iff]
      exact (h archive hcontent).sublist hkept

/-- Files are read in the order of their names. -/
theorem Input.pairwise_files (h : input.WellNamed) :
    (input.files.map Prod.fst).Pairwise (· < ·) := by
  have hsorted : (input.files.map Prod.fst).Pairwise (· ≤ ·) := by
    cases hcontent : input.content with
    | error failure =>
        rw [files, hcontent]
        exact List.Pairwise.nil
    | ok archive =>
        rw [files_of_content hcontent, Archive.files, List.pairwise_map]
        refine (List.pairwise_mergeSort ?_ ?_ _).imp of_decide_eq_true
        · intro a b c hab hbc
          exact decide_eq_true (le_trans (of_decide_eq_true hab) (of_decide_eq_true hbc))
        · intro a b
          rw [Bool.or_eq_true, decide_eq_true_iff, decide_eq_true_iff]
          exact le_total a.1 b.1
  exact (hsorted.and (nodup_files h)).imp fun hboth => lt_of_le_of_ne hboth.1 hboth.2

end Files

/-- What is made of the first entry of a name that some inputs have. -/
theorem findSome?_eq_some_iff_firstHolds {inputs : List Input}
    (h : ∀ input ∈ inputs, input.WellNamed) {γ : Type} (given : Input → Bytes → γ)
    {path : String} {value : γ} :
    (inputs.findSome? fun input => input.files.findSome? fun entry =>
        if path == entry.1 then some (given input entry.2) else none) = some value ↔
      ∃ input bytes, FirstHolds inputs path input bytes ∧ value = given input bytes := by
  have hlookup : ∀ input : Input, (input.files.findSome? fun entry =>
      if path == entry.1 then some (given input entry.2) else none) =
        (input.files.lookup path).map (given input) := by
    intro input
    rw [List.lookup_eq_findSome?, List.map_findSome?]
    congr 1
    funext entry
    simp only [Function.comp_apply, apply_ite (Option.map (given input)), Option.map_some,
      Option.map_none]
  have hholds : ∀ input ∈ inputs, ∀ bytes,
      input.files.lookup path = some bytes ↔ input.Holds path bytes := fun input hinput bytes =>
    (lookup_eq_some_iff_mem (Input.nodup_files (h input hinput))).trans Input.mem_files_iff
  simp only [hlookup, List.findSome?_eq_some_iff, Option.map_eq_some_iff, Option.map_eq_none_iff]
  constructor
  · rintro ⟨front, input, back, rfl, ⟨bytes, hbytes, rfl⟩, hfront⟩
    refine ⟨input, bytes, ⟨front, back, rfl, (hholds input ?_ bytes).1 hbytes, ?_⟩, rfl⟩
    · exact List.mem_append_right _ List.mem_cons_self
    · intro earlier hearlier other hother
      have hlast := (hholds earlier (List.mem_append_left _ hearlier) other).2 hother
      rw [hfront earlier hearlier] at hlast
      cases hlast
  · rintro ⟨input, bytes, ⟨front, back, rfl, hbytes, hfront⟩, rfl⟩
    refine ⟨front, input, back, rfl, ⟨bytes, (hholds input ?_ bytes).2 hbytes, rfl⟩, ?_⟩
    · exact List.mem_append_right _ List.mem_cons_self
    · intro earlier hearlier
      refine Option.eq_none_iff_forall_ne_some.2 fun other hother =>
        hfront earlier hearlier other ?_
      exact (hholds earlier (List.mem_append_left _ hearlier) other).1 hother

namespace Scan

/-! ## What inputs list -/

def className? (path : String) : Option String :=
  match entryUse path with
  | .classFile name => some name
  | _ => none

theorem className?_eq_some_iff {path name : String} :
    className? path = some name ↔ IsClassEntry path name := by
  rw [← entryUse_eq_classFile_iff, className?]
  cases entryUse path <;> simp

/-- The classes of an input, in the order of its entries. -/
def listingOf (input : Input) : Listing :=
  ⟨input.path, input.files.filterMap fun entry => className? entry.1⟩

theorem mem_listingOf_iff {input : Input} {name : String} :
    name ∈ (listingOf input).classes ↔
      ∃ path bytes, IsClassEntry path name ∧ input.Holds path bytes := by
  simp only [listingOf, List.mem_filterMap, Prod.exists, className?_eq_some_iff,
    Input.mem_files_iff, and_comm]

theorem pairwise_listingOf {input : Input} (h : input.WellNamed) :
    ((listingOf input).classes.map (· ++ ".class")).Pairwise (· < ·) := by
  rw [List.pairwise_map, listingOf, List.pairwise_filterMap]
  refine (List.pairwise_map.1 (Input.pairwise_files h)).imp ?_
  intro first second hlt name hname other hother
  rw [(className?_eq_some_iff.1 hname).path_eq, (className?_eq_some_iff.1 hother).path_eq] at hlt
  exact hlt

section Steps

variable {source : String} {before after : Scan}

theorem listings_of_addEntry {path : String} {bytes : Bytes} {name : Option String}
    (h : (addEntry source before path bytes).result = .ok (after, name)) :
    name = className? path ∧ after.listings = before.listings ∧
      after.classCount = before.classCount + name.toList.length := by
  unfold addEntry at h
  unfold className?
  split at h
  · next own hown =>
      rw [hown]
      split at h <;> cases h <;> exact ⟨rfl, rfl, rfl⟩
  · next hresource =>
      rw [hresource]
      cases h
      exact ⟨rfl, rfl, rfl⟩
  · next hskipped =>
      rw [hskipped]
      cases h
      exact ⟨rfl, rfl, rfl⟩

theorem listings_of_addEntries {entries : Archive} {names : List String}
    (h : (addEntries source before entries).result = .ok (after, names)) :
    names = entries.filterMap (fun entry => className? entry.1) ∧
      after.listings = before.listings ∧
        after.classCount = before.classCount + names.length := by
  induction entries generalizing before names with
  | nil =>
      cases h
      exact ⟨rfl, rfl, rfl⟩
  | cons entry entries ih =>
      obtain ⟨path, bytes⟩ := entry
      simp only [addEntries, Traced.result_bind] at h
      obtain ⟨⟨middle, name⟩, hentry, h⟩ := Except.bind_eq_ok_iff.1 h
      obtain ⟨⟨last, others⟩, hentries, h⟩ := Except.bind_eq_ok_iff.1 h
      cases h
      obtain ⟨hname, hlistings, hcount⟩ := listings_of_addEntry hentry
      obtain ⟨hothers, hlistings', hcount'⟩ := ih hentries
      refine ⟨?_, hlistings'.trans hlistings, ?_⟩
      · rw [hothers, hname, List.filterMap_cons]
        cases className? path <;> rfl
      · rw [hcount', hcount, List.length_append, Nat.add_assoc]

/-- Every input is listed after those before it, and counted with all its classes. -/
theorem listings_of_addInputs {inputs : List Input}
    (h : (inputs.foldlM addInput before).result = .ok after) :
    after.listings = before.listings ++ inputs.map listingOf ∧
      after.classCount = before.classCount + total (·.classes.length) (inputs.map listingOf) := by
  induction inputs generalizing before with
  | nil =>
      cases h
      exact ⟨(List.append_nil _).symm, rfl⟩
  | cons input inputs ih =>
      rw [List.foldlM_cons, Traced.result_bind] at h
      obtain ⟨middle, hinput, h⟩ := Except.bind_eq_ok_iff.1 h
      obtain ⟨archive, scan, names, harchive, hentries, rfl⟩ := addInput_eq_ok hinput
      obtain ⟨hnames, hlistings, hcount⟩ := listings_of_addEntries hentries
      have hlisting : listingOf input = ⟨input.path, names⟩ := by
        rw [listingOf, Input.files_of_content harchive, hnames]
      obtain ⟨hafter, hsum⟩ := ih h
      rw [hafter, hsum, List.map_cons, hlisting]
      refine ⟨?_, ?_⟩
      · show (scan.listings ++ _) ++ _ = _
        rw [hlistings, List.append_assoc, List.singleton_append]
      · show scan.classCount + _ = _
        rw [hcount, total_cons, Nat.add_assoc]

end Steps

theorem listings_of_scanInputs {inputs : List Input} {scan : Scan}
    (h : (scanInputs inputs).result = .ok scan) :
    scan.listings = inputs.map listingOf ∧
      scan.classCount = total (·.classes.length) scan.listings := by
  obtain ⟨hlistings, hcount⟩ := listings_of_addInputs h
  rw [hcount, hlistings, List.nil_append]
  exact ⟨rfl, Nat.zero_add _⟩

/-! ## What scans hold -/

/-- Of a class that several entries hold the first stays. -/
theorem keepsFirst_classes {name : String} (hname : IsClassEntry (name ++ ".class") name) :
    KeepsFirst (fun scan => scan.classes[name]?) fun source entry =>
      if name ++ ".class" == entry.1 then some ⟨entry.2, source⟩ else none where
  listings _ _ := rfl
  entry {source own bytes before after given} h := by
    by_cases hown : name ++ ".class" = own
    · subst hown
      rw [addEntry, entryUse_eq_classFile_iff.2 hname] at h
      rw [if_pos (beq_self_eq_true _)]
      dsimp only at h
      split at h
      · next hmem =>
          cases h
          obtain ⟨found, hfound⟩ :=
            mem_iff_exists_getElem?.1 (Std.ExtTreeMap.contains_iff_mem.1 hmem)
          show before.classes[name]? = before.classes[name]?.or _
          rw [hfound, Option.some_or]
      · next hnew =>
          cases h
          have hnone : before.classes[name]? = none := by
            rw [Std.ExtTreeMap.contains_iff_mem] at hnew
            exact Std.ExtTreeMap.getElem?_eq_none hnew
          show (before.classes.insert name _)[name]? = _
          rw [Std.ExtTreeMap.getElem?_insert_self, hnone, Option.none_or]
    · rw [if_neg (fun heq => hown (eq_of_beq heq)), Option.or_none]
      unfold addEntry at h
      split at h
      · next other hother =>
          have hne : compare other name ≠ .eq := by
            intro heq
            obtain rfl := Std.compare_eq_iff_eq.1 heq
            exact hown (entryUse_eq_classFile_iff.1 hother).path_eq.symm
          split at h
          · cases h
            rfl
          · cases h
            show (before.classes.insert other _)[name]? = _
            rw [Std.ExtTreeMap.getElem?_insert, if_neg hne]
      · cases h
        rfl
      · cases h
        rfl

theorem classes_of_scanInputs {inputs : List Input} {scan : Scan}
    (hnamed : ∀ input ∈ inputs, input.WellNamed) (h : (scanInputs inputs).result = .ok scan)
    {name : String} {found : FoundClass} :
    scan.classes[name]? = some found ↔ ∃ path input, IsClassEntry path name ∧
      FirstHolds inputs path input found.bytes ∧ found.source = input.path := by
  have hfirst : IsClassEntry (name ++ ".class") name → (scan.classes[name]? = some found ↔
      ∃ input bytes, FirstHolds inputs (name ++ ".class") input bytes ∧
        found = ⟨bytes, input.path⟩) := by
    intro hname
    rw [(keepsFirst_classes hname).of_addInputs h, Std.ExtTreeMap.getElem?_empty, Option.none_or]
    exact findSome?_eq_some_iff_firstHolds hnamed fun input bytes =>
      FoundClass.mk bytes input.path
  constructor
  · intro hfound
    obtain ⟨listing, hlisting, -, hmem⟩ := (listed_of_scanInputs h).origin name found hfound
    rw [(listings_of_scanInputs h).1] at hlisting
    obtain ⟨holder, -, rfl⟩ := List.mem_map.1 hlisting
    obtain ⟨path, -, hpath, -⟩ := mem_listingOf_iff.1 hmem
    obtain rfl := hpath.path_eq
    obtain ⟨input, bytes, hholds, rfl⟩ := (hfirst hpath).1 hfound
    exact ⟨_, input, hpath, hholds, rfl⟩
  · rintro ⟨path, input, hpath, hholds, hsource⟩
    obtain rfl := hpath.path_eq
    refine (hfirst hpath).2 ⟨input, found.bytes, hholds, ?_⟩
    rw [← hsource]

theorem resources_of_scanInputs {inputs : List Input} {scan : Scan}
    (hnamed : ∀ input ∈ inputs, input.WellNamed) (h : (scanInputs inputs).result = .ok scan)
    {path : String} {bytes : Bytes} :
    scan.resources[path]? = some bytes ↔
      ¬".class".toList <:+ path.toList ∧ ∃ input, FirstHolds inputs path input bytes := by
  rw [getElem?_resources_of_scanInputs h, ← Text.endsWith_iff, Bool.not_eq_true]
  refine and_congr_right fun _ => ?_
  rw [firstContent?_eq_findSome?, findSome?_eq_some_iff_firstHolds hnamed fun _ bytes => bytes]
  simp only [exists_eq_right']

/-! ## Inputs in another order -/

theorem exists_addEntries (source : String) (scan : Scan) (entries : Archive) :
    ∃ after names, (addEntries source scan entries).result = .ok (after, names) := by
  induction entries generalizing scan with
  | nil => exact ⟨scan, [], rfl⟩
  | cons entry entries ih =>
      obtain ⟨path, bytes⟩ := entry
      have hentry : ∃ middle name,
          (addEntry source scan path bytes).result = .ok (middle, name) := by
        unfold addEntry
        split
        · split <;> exact ⟨_, _, rfl⟩
        · exact ⟨_, _, rfl⟩
        · exact ⟨_, _, rfl⟩
      obtain ⟨middle, name, hentry⟩ := hentry
      obtain ⟨after, names, hafter⟩ := ih middle
      refine ⟨after, name.toList ++ names, ?_⟩
      simp only [addEntries, Traced.result_bind]
      exact Except.bind_eq_ok_iff.2
        ⟨_, hentry, Except.bind_eq_ok_iff.2 ⟨_, hafter, rfl⟩⟩

theorem exists_addInput_iff {input : Input} {scan : Scan} :
    (∃ after, (addInput scan input).result = .ok after) ↔
      isSupported input.path = true ∧ ∃ archive, input.content = .ok archive := by
  constructor
  · rintro ⟨after, hafter⟩
    obtain ⟨archive, -, -, harchive, -⟩ := addInput_eq_ok hafter
    refine ⟨by_contra fun hunsupported => ?_, archive, harchive⟩
    rw [addInput, if_pos (by rw [Bool.eq_false_iff.2 hunsupported]; rfl)] at hafter
    cases hafter
  · rintro ⟨hsupported, archive, harchive⟩
    obtain ⟨path, content⟩ := input
    obtain rfl : content = .ok archive := harchive
    obtain ⟨after, names, hentries⟩ := exists_addEntries path scan archive.files
    refine ⟨{ after with listings := after.listings ++ [⟨path, names⟩] }, ?_⟩
    rw [addInput_of_archive hsupported, addArchive]
    simp only [Traced.result_bind]
    exact Except.bind_eq_ok_iff.2
      ⟨_, hentries, Except.bind_eq_ok_iff.2 ⟨_, rfl, rfl⟩⟩

/-- Inputs can be scanned if each of them is supported and can be opened. -/
theorem exists_scanInputs_iff {inputs : List Input} :
    (∃ scan, (scanInputs inputs).result = .ok scan) ↔ ∀ input ∈ inputs,
      isSupported input.path = true ∧ ∃ archive, input.content = .ok archive := by
  have hfrom : ∀ before : Scan, (∃ scan, (inputs.foldlM addInput before).result = .ok scan) ↔
      ∀ input ∈ inputs, isSupported input.path = true ∧ ∃ archive, input.content = .ok archive := by
    induction inputs with
    | nil => exact fun before => iff_of_true ⟨before, rfl⟩ fun _ h => absurd h List.not_mem_nil
    | cons input inputs ih =>
        intro before
        rw [List.forall_mem_cons, ← @exists_addInput_iff input before]
        simp only [List.foldlM_cons, Traced.result_bind, Except.bind_eq_ok_iff]
        constructor
        · rintro ⟨scan, middle, hinput, hinputs⟩
          exact ⟨⟨middle, hinput⟩, (ih middle).1 ⟨scan, hinputs⟩⟩
        · rintro ⟨⟨middle, hinput⟩, hothers⟩
          obtain ⟨scan, hinputs⟩ := (ih middle).2 hothers
          exact ⟨scan, middle, hinput, hinputs⟩
  exact hfrom {}

end Scan

theorem Input.Apart.symm {first second : Input} (h : first.Apart second) : second.Apart first :=
  fun path bytes other hsecond hfirst => h path other bytes hfirst hsecond

/-- Where no entry is shared, an input that holds one is the first that does. -/
theorem firstHolds_iff_of_apart {inputs : List Input} (h : inputs.Pairwise Input.Apart)
    {path : String} {input : Input} {bytes : Bytes} :
    FirstHolds inputs path input bytes ↔ input ∈ inputs ∧ input.Holds path bytes := by
  constructor
  · rintro ⟨front, back, rfl, hholds, -⟩
    exact ⟨List.mem_append_right _ List.mem_cons_self, hholds⟩
  · rintro ⟨hmem, hholds⟩
    obtain ⟨front, back, rfl⟩ := List.append_of_mem hmem
    refine ⟨front, back, rfl, hholds, fun earlier hearlier other hother => ?_⟩
    exact (List.pairwise_append.1 h).2.2 earlier hearlier input List.mem_cons_self path other bytes
      hother hholds

/-- What a scan of some inputs holds, lists and counts. -/
structure Scan.TakesFirst (inputs : List Input) (scan : Scan) : Prop where
  classes : ∀ name found, scan.classes[name]? = some found ↔ ∃ path input,
    IsClassEntry path name ∧ FirstHolds inputs path input found.bytes ∧ found.source = input.path
  resources : ∀ path bytes, scan.resources[path]? = some bytes ↔
    ¬".class".toList <:+ path.toList ∧ ∃ input, FirstHolds inputs path input bytes
  /-- An input is listed with all its classes, in the order of their entries. -/
  listings : List.Forall₂ (fun input listing => listing.path = input.path ∧
    (∀ name, name ∈ listing.classes ↔
      ∃ path bytes, IsClassEntry path name ∧ input.Holds path bytes) ∧
    (listing.classes.map (· ++ ".class")).Pairwise (· < ·)) inputs scan.listings
  count : scan.classCount = total (·.classes.length) scan.listings

theorem Scan.takesFirst {inputs : List Input} {scan : Scan}
    (hnamed : ∀ input ∈ inputs, input.WellNamed) (h : (scanInputs inputs).result = .ok scan) :
    scan.TakesFirst inputs where
  classes _ _ := classes_of_scanInputs hnamed h
  resources _ _ := resources_of_scanInputs hnamed h
  listings := by
    rw [(listings_of_scanInputs h).1, List.forall₂_map_right_iff, List.forall₂_same]
    exact fun input hinput =>
      ⟨rfl, fun _ => mem_listingOf_iff, pairwise_listingOf (hnamed input hinput)⟩
  count := (listings_of_scanInputs h).2

/-- Of every class and resource the first input that has it counts, and nothing else is lost. Inputs
that share no entry may come in any order. -/
theorem Scan.takesFirst_of_scanInputs {inputs : List Input} {scan : Scan}
    (hnamed : ∀ input ∈ inputs, input.WellNamed) (h : (scanInputs inputs).result = .ok scan) :
    scan.TakesFirst inputs ∧ (inputs.Pairwise Input.Apart → ∀ others, inputs.Perm others →
      ∃ other, (scanInputs others).result = .ok other ∧
        other.classes = scan.classes ∧ other.resources = scan.resources) := by
  refine ⟨takesFirst hnamed h, fun hapart others hperm => ?_⟩
  obtain ⟨other, hother⟩ := exists_scanInputs_iff.2 fun input hinput =>
    exists_scanInputs_iff.1 ⟨scan, h⟩ input (hperm.mem_iff.2 hinput)
  have hnamed' : ∀ input ∈ others, input.WellNamed := fun input hinput =>
    hnamed input (hperm.mem_iff.2 hinput)
  have hholds : ∀ path input bytes,
      FirstHolds others path input bytes ↔ FirstHolds inputs path input bytes := by
    intro path input bytes
    rw [firstHolds_iff_of_apart hapart,
      firstHolds_iff_of_apart (hperm.pairwise hapart Input.Apart.symm), hperm.mem_iff]
  have hbefore := takesFirst hnamed h
  have hafter := takesFirst hnamed' hother
  refine ⟨other, hother, Std.ExtTreeMap.ext_getElem? fun name => Option.ext fun found => ?_,
    Std.ExtTreeMap.ext_getElem? fun path => Option.ext fun bytes => ?_⟩
  · rw [hafter.classes, hbefore.classes]
    simp only [hholds]
  · rw [hafter.resources, hbefore.resources]
    simp only [hholds]

theorem apart_inputOfB : inputOfB.Apart inputWithSignature := by
  rintro path bytes other ⟨_, harchive, hmem, -⟩ ⟨_, harchive', hmem', -⟩
  cases harchive
  cases harchive'
  have hpath := List.mem_map_of_mem (f := Prod.fst) hmem
  have hpath' := List.mem_map_of_mem (f := Prod.fst) hmem'
  simp only [List.map_cons, List.map_nil, List.mem_cons, List.not_mem_nil, or_false] at hpath hpath'
  rcases hpath with rfl | rfl <;> exact absurd hpath' (by decide)

/-- The class `A` of the second input is hidden by that of the first. -/
theorem Scan.takesFirst_of_scanInputs_inputOfB :
    scanOfAB.TakesFirst ([inputOfA] ++ [inputOfB]) ∧
      ∃ scan other, (scanInputs [inputOfB, inputWithSignature]).result = .ok scan ∧
        (scanInputs [inputWithSignature, inputOfB]).result = .ok other ∧
          other.classes = scan.classes ∧ other.resources = scan.resources := by
  have hnamed : inputOfA.WellNamed ∧ inputOfB.WellNamed ∧ inputWithSignature.WellNamed := by
    refine ⟨?_, ?_, ?_⟩ <;> rintro _ harchive <;> cases harchive <;> decide
  obtain ⟨hfirst, hsecond, hthird⟩ := hnamed
  obtain ⟨scan, hscan⟩ := (@exists_scanInputs_iff [inputOfB, inputWithSignature]).2 <| by
    refine List.forall_mem_cons.2 ⟨⟨by decide, _, rfl⟩, ?_⟩
    exact List.forall_mem_singleton.2 ⟨by decide, _, rfl⟩
  have hpair := takesFirst_of_scanInputs
    (List.forall_mem_cons.2 ⟨hsecond, List.forall_mem_singleton.2 hthird⟩) hscan
  obtain ⟨other, hother, hclasses, hresources⟩ := hpair.2
    (List.pairwise_pair.2 apart_inputOfB) _ (List.Perm.swap _ _ _)
  have hshadowed := takesFirst_of_scanInputs
    (List.forall_mem_cons.2 ⟨hfirst, List.forall_mem_singleton.2 hsecond⟩) scanInputs_inputOfB
  exact ⟨hshadowed.1, scan, other, hscan, hother, hclasses, hresources⟩

end JarTailor
