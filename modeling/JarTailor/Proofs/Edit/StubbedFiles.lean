import JarTailor.Proofs.ClassFile.Codec
import JarTailor.Proofs.Edit.Stub
import JarTailor.Proofs.Maps
import JarTailor.Proofs.Text.ByteOrder

/-!
# The files that have stubs

The files whose paths begin with a text are found without a look at all of them: from the first path
that is not before the text, up to the first one that does not begin with it.
-/

namespace JarTailor.Stub

variable {files stubs : FileMap} {root : String}

section Range

variable {entries : List (String × Bytes)}

/-- Behind the first path that does not begin with `root` no path does. -/
theorem takeWhile_eq_filter (hordered : entries.Pairwise fun a b => a.1 < b.1)
    (hfrom : ∀ entry ∈ entries, ¬entry.1 < root) :
    entries.takeWhile (Text.startsWith root ·.1) = entries.filter (Text.startsWith root ·.1) := by
  induction entries with
  | nil => rfl
  | cons entry entries ih =>
      obtain ⟨hbefore, hordered⟩ := List.pairwise_cons.1 hordered
      obtain ⟨hentry, hfrom⟩ := List.forall_mem_cons.1 hfrom
      by_cases hstarts : Text.startsWith root entry.1 = true
      · rw [List.takeWhile_cons, if_pos hstarts, List.filter_cons, if_pos hstarts,
          ih hordered hfrom]
      · have hnone : entries.filter (Text.startsWith root ·.1) = [] := by
          refine List.filter_eq_nil_iff.2 fun other hother hlater => hstarts ?_
          exact Text.startsWith_of_lt hentry (hbefore other hother) hlater
        rw [List.takeWhile_cons, if_neg hstarts, List.filter_cons, if_neg hstarts, hnone]

theorem range_eq_filter (hordered : entries.Pairwise fun a b => a.1 < b.1) :
    (entries.dropWhile (·.1 < root)).takeWhile (Text.startsWith root ·.1) =
      entries.filter (Text.startsWith root ·.1) := by
  induction entries with
  | nil => rfl
  | cons entry entries ih =>
      by_cases hentry : entry.1 < root
      · have hother : ¬Text.startsWith root entry.1 = true := fun hstarts =>
          Text.not_lt_of_startsWith hstarts hentry
        rw [List.dropWhile_cons, if_pos (decide_eq_true hentry), List.filter_cons, if_neg hother,
          ih hordered.of_cons]
      · rw [List.dropWhile_cons, if_neg (mt of_decide_eq_true hentry)]
        refine takeWhile_eq_filter hordered (List.forall_mem_cons.2 ⟨hentry, ?_⟩)
        intro other hother hbefore
        have hlt := List.rel_of_pairwise_cons hordered hother
        exact hentry (String.lt_trans hlt hbefore)

end Range

theorem under_eq_filter (files : FileMap) (root : String) :
    under root files = files.toList.filter (Text.startsWith root ·.1) :=
  range_eq_filter (pairwise_toList files)

theorem mem_under_iff {path : String} {bytes : Bytes} :
    (path, bytes) ∈ under root files ↔
      files[path]? = some bytes ∧ Utf8.encode root <+: Utf8.encode path := by
  rw [under_eq_filter, List.mem_filter, Std.ExtTreeMap.mem_toList_iff_getElem?_eq_some,
    Text.startsWith_iff_encode]

theorem nodup_under (files : FileMap) (root : String) :
    ((under root files).map Prod.fst).Nodup := by
  rw [under_eq_filter, List.Nodup, List.pairwise_map]
  refine ((pairwise_toList files).filter _).imp ?_
  rintro first second hlt heq
  exact String.lt_irrefl _ (heq ▸ hlt)

/-- The stubs of the files whose paths begin with the bytes of `root`, each at the path of its
file, and no others. -/
structure StubsUnder (files : FileMap) (root : String) (stubs : FileMap) : Prop where
  mem_iff : ∀ path, path ∈ stubs ↔ path ∈ files ∧ Utf8.encode root <+: Utf8.encode path
  stubs : ∀ (path : String) (stub : Bytes), stubs[path]? = some stub →
    ∃ bytes, files[path]? = some bytes ∧ (ofBytes bytes).result = .ok stub

theorem ofFiles_eq_ok_iff_related :
    (ofFiles files root).result = .ok stubs ↔ ∃ pairs : List (String × Bytes),
      List.Forall₂ (fun file pair => (ofBytes file.2).result = .ok pair.2 ∧ file.1 = pair.1)
        (under root files) pairs ∧ .ofList pairs = stubs := by
  have hpair (file pair : String × Bytes) :
      (Except.within (.stubbing file.1) (ofBytes file.2).result >>= fun stub =>
          (.ok (file.1, stub) : Except Failure (String × Bytes))) = .ok pair ↔
        (ofBytes file.2).result = .ok pair.2 ∧ file.1 = pair.1 := by
    obtain ⟨path, stub⟩ := pair
    simp only [Except.bind_eq_ok_iff, Except.within_eq_ok_iff, Except.ok.injEq, Prod.mk.injEq]
    constructor
    · rintro ⟨_, hstub, hpath, rfl⟩
      exact ⟨hstub, hpath⟩
    · rintro ⟨hstub, hpath⟩
      exact ⟨stub, hstub, hpath, rfl⟩
  simp only [ofFiles, Traced.result_bind, Traced.result_mapM, result_log, Traced.result_within,
    Traced.result_pure, Except.bind_eq_ok_iff, Except.mapM_eq_ok_iff, hpair, Except.ok.injEq,
    exists_const, true_and]

theorem getElem?_of_ofFiles (h : (ofFiles files root).result = .ok stubs) {path : String}
    {stub : Bytes} : stubs[path]? = some stub ↔
      ∃ bytes, (path, bytes) ∈ under root files ∧ (ofBytes bytes).result = .ok stub := by
  obtain ⟨pairs, hpairs, rfl⟩ := ofFiles_eq_ok_iff_related.1 h
  have hpaths : (under root files).map Prod.fst = pairs.map Prod.fst :=
    map_eq_map_of_related hpairs fun _ _ hrelated => hrelated.2
  have hdistinct := nodup_under files root
  rw [hpaths] at hdistinct
  rw [getElem?_map_ofList_iff hdistinct]
  constructor
  · intro hpair
    obtain ⟨⟨_, bytes⟩, hfile, hstub, rfl⟩ := exists_related_left hpairs hpair
    exact ⟨bytes, hfile, hstub⟩
  · rintro ⟨bytes, hfile, hstub⟩
    obtain ⟨⟨_, other⟩, hpair, hother, rfl⟩ := exists_related_right hpairs hfile
    rwa [Except.ok.inj (hstub.symm.trans hother)]

theorem exists_stub_of_ofFiles (h : (ofFiles files root).result = .ok stubs) {path : String}
    {bytes : Bytes} (hfile : (path, bytes) ∈ under root files) :
    ∃ stub, (ofBytes bytes).result = .ok stub := by
  obtain ⟨pairs, hpairs, -⟩ := ofFiles_eq_ok_iff_related.1 h
  obtain ⟨pair, -, hstub, -⟩ := exists_related_right hpairs hfile
  exact ⟨pair.2, hstub⟩

theorem stubsUnder_of_ofFiles (h : (ofFiles files root).result = .ok stubs) :
    StubsUnder files root stubs where
  mem_iff path := by
    simp only [mem_iff_exists_getElem?, getElem?_of_ofFiles h]
    constructor
    · rintro ⟨stub, bytes, hfile, -⟩
      obtain ⟨hbytes, hbegins⟩ := mem_under_iff.1 hfile
      exact ⟨⟨bytes, hbytes⟩, hbegins⟩
    · rintro ⟨⟨bytes, hbytes⟩, hbegins⟩
      have hfile := mem_under_iff.2 ⟨hbytes, hbegins⟩
      obtain ⟨stub, hstub⟩ := exists_stub_of_ofFiles h hfile
      exact ⟨stub, bytes, hfile, hstub⟩
  stubs path stub hstub := by
    obtain ⟨bytes, hfile, hstub⟩ := (getElem?_of_ofFiles h).1 hstub
    exact ⟨bytes, (mem_under_iff.1 hfile).1, hstub⟩

theorem StubsUnder.exists_stub (h : StubsUnder files root stubs) {path : String} {bytes : Bytes}
    (hfile : (path, bytes) ∈ under root files) :
    ∃ stub, stubs[path]? = some stub ∧ (ofBytes bytes).result = .ok stub := by
  obtain ⟨hbytes, hbegins⟩ := mem_under_iff.1 hfile
  have hpath := (h.mem_iff path).2 ⟨mem_iff_exists_getElem?.2 ⟨bytes, hbytes⟩, hbegins⟩
  obtain ⟨stub, hstub⟩ := mem_iff_exists_getElem?.1 hpath
  obtain ⟨found, hfound, hmade⟩ := h.stubs path stub hstub
  obtain rfl := Option.some.inj (hbytes.symm.trans hfound)
  exact ⟨stub, hstub, hmade⟩

theorem StubsUnder.getElem?_iff (h : StubsUnder files root stubs) {path : String} {stub : Bytes} :
    stubs[path]? = some stub ↔
      ∃ bytes, (path, bytes) ∈ under root files ∧ (ofBytes bytes).result = .ok stub := by
  constructor
  · intro hstub
    obtain ⟨-, hbegins⟩ := (h.mem_iff path).1 (mem_iff_exists_getElem?.2 ⟨stub, hstub⟩)
    obtain ⟨bytes, hbytes, hmade⟩ := h.stubs path stub hstub
    exact ⟨bytes, mem_under_iff.2 ⟨hbytes, hbegins⟩, hmade⟩
  · rintro ⟨bytes, hfile, hmade⟩
    obtain ⟨other, hother, hmade'⟩ := h.exists_stub hfile
    rwa [Except.ok.inj (hmade.symm.trans hmade')]

theorem ofFiles_of_stubsUnder (h : StubsUnder files root stubs) :
    (ofFiles files root).result = .ok stubs := by
  cases hresult : (ofFiles files root).result with
  | error failure =>
      obtain ⟨path, bytes, cause, hfile, hcause, -⟩ := refuses_of_ofFiles hresult
      obtain ⟨stub, -, hmade⟩ := h.exists_stub hfile
      exact nomatch hcause.symm.trans hmade
  | ok found =>
      refine congrArg _ (Std.ExtTreeMap.ext_getElem? fun {path} => Option.ext fun stub => ?_)
      rw [getElem?_of_ofFiles hresult, h.getElem?_iff]

/-- In the order of the bytes of their paths, the files from `root` on up to the first whose path
does not begin with it are all whose paths do. Their stubs are what is made of a map of files. -/
theorem ofFiles_eq_ok_iff_stubsUnder :
    files.toList.Pairwise (fun file other => Utf8.encode file.1 < Utf8.encode other.1) ∧
      under root files =
        files.toList.filter (fun file => (Utf8.encode root).isPrefixOf (Utf8.encode file.1)) ∧
      ∀ stubs, (ofFiles files root).result = .ok stubs ↔ StubsUnder files root stubs := by
  refine ⟨(pairwise_toList files).imp Utf8.encode_lt_iff.2, ?_,
    fun stubs => ⟨stubsUnder_of_ofFiles, ofFiles_of_stubsUnder⟩⟩
  rw [under_eq_filter]
  refine List.filter_congr fun file _ => ?_
  rw [Bool.eq_iff_iff, Text.startsWith_iff_encode, List.isPrefixOf_iff_prefix]

end JarTailor.Stub
