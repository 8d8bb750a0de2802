import JarTailor.Program.Session
import JarTailor.Proofs.Edit.Stub
import JarTailor.Proofs.Jar.Scanned
import Mathlib

/-!
# What a build writes

A build writes its archive after all that can fail, the stubs apart: these are made when the archive
has been written already.
-/

namespace JarTailor

namespace Traced

variable {ε α β : Type}

theorem monadLift_pure (value : α) : monadLift (pure value : Except Failure α) =
    (pure value : Traced ε α) :=
  rfl

theorem monadLift_bind (x : Except Failure α) (f : α → Except Failure β) :
    (monadLift (x >>= f) : Traced ε β) = monadLift x >>= fun value => monadLift (f value) := by
  cases x <;> rfl

end Traced

namespace Session

section Writes

variable {α β : Type}

/-- A session seen from the disk: how it ends, and the archives that it writes. -/
def writes (session : Session α) : Traced (String × Archive) α :=
  ⟨session.result, writtenArchives session.trace⟩

theorem writes_bind (session : Session α) (next : α → Session β) :
    writes (session >>= next) = writes session >>= fun value => writes (next value) := by
  refine Traced.ext ?_ ?_
  · rw [Traced.result_bind]
    exact Traced.result_bind session next
  · have hresult : (writes session).result = session.result := rfl
    show writtenArchives (session >>= next).trace = _
    cases h : session.result with
    | error failure =>
        rw [Traced.trace_bind_error h, Traced.trace_bind_error (hresult.trans h)]
        rfl
    | ok value =>
        rw [Traced.trace_bind_ok h, Traced.trace_bind_ok (hresult.trans h), writtenArchives,
          List.filterMap_append]
        rfl

theorem writes_monadLift (logged : Logged α) :
    writes (monadLift logged) = monadLift logged.result := by
  refine Traced.ext rfl ?_
  show writtenArchives (logged.trace.map .logged) = []
  rw [writtenArchives, List.filterMap_map]
  exact List.filterMap_eq_nil_iff.2 fun _ _ => rfl

theorem writes_forM {items : List β} {f : β → Session Unit}
    (h : ∀ item, writes (f item) = pure ()) : writes (items.forM f) = pure () := by
  induction items with
  | nil => rfl
  | cons item items ih =>
      have hcons : (item :: items).forM f = f item >>= fun _ => items.forM f := rfl
      rw [hcons, writes_bind, h, ih]
      rfl

theorem writes_write {disk : Disk} {path : String} {files : FileMap}
    (h : disk.admits path = true) :
    writes (write disk path files) = Traced.emit (path, .ofFiles files) := by
  rw [write, h]
  rfl

end Writes

/-- What a build finds out before it decides whether to write. -/
def gather (disk : Disk) (config : Config) (inputs : List String) :
    Except Failure (Analysis × Generated) := do
  let scan ← (scan disk inputs).result
  let analysis ← (analyze config scan).result
  let generated ← (generate config analysis).result
  return (analysis, generated)

def findings (analysis : Analysis) (generated : Generated) : Findings :=
  ⟨problems analysis generated, analysis.missing.toList.map binaryName⟩

/-- The rest of a build. -/
def finish (disk : Disk) (config : Config) (output : String) (stubs : Bool) (analysis : Analysis)
    (generated : Generated) : Session Findings := do
  if !(problems analysis generated).isEmpty then return findings analysis generated
  write disk output generated.files
  if stubs then
    write disk (Path.stubPath output) (← Stub.ofFiles generated.classes config.stubRootPath)
  Traced.emit (.finished analysis.keptCount)
  return findings analysis generated

/-- The ways in which a build ends, and the archives that it has written then. -/
inductive Ends (disk : Disk) (config : Config) (output : String) (inputs : List String) :
    Bool → Except Failure Findings → List (String × Archive) → Prop
  | failed {stubs failure} (hgather : gather disk config inputs = .error failure) :
      Ends disk config output inputs stubs (.error failure) []
  | refused {stubs analysis generated}
      (hgather : gather disk config inputs = .ok (analysis, generated))
      (hproblems : problems analysis generated ≠ []) :
      Ends disk config output inputs stubs (.ok (findings analysis generated)) []
  | unstubbed {analysis generated failure}
      (hgather : gather disk config inputs = .ok (analysis, generated))
      (hproblems : problems analysis generated = [])
      (hstubs : (Stub.ofFiles generated.classes config.stubRootPath).result = .error failure) :
      Ends disk config output inputs true (.error failure) [(output, .ofFiles generated.files)]
  | written {analysis generated}
      (hgather : gather disk config inputs = .ok (analysis, generated))
      (hproblems : problems analysis generated = []) :
      Ends disk config output inputs false (.ok (findings analysis generated))
        [(output, .ofFiles generated.files)]
  | stubbed {analysis generated files}
      (hgather : gather disk config inputs = .ok (analysis, generated))
      (hproblems : problems analysis generated = [])
      (hstubs : (Stub.ofFiles generated.classes config.stubRootPath).result = .ok files) :
      Ends disk config output inputs true (.ok (findings analysis generated))
        [(output, .ofFiles generated.files), (Path.stubPath output, .ofFiles files)]

section Ends

variable {disk : Disk} {config : Config} {output : String} {inputs : List String} {stubs : Bool}
variable {result : Except Failure Findings} {written : List (String × Archive)}
variable {analysis : Analysis} {generated : Generated}

theorem Ends.of_problems (h : Ends disk config output inputs stubs result written)
    (hgather : gather disk config inputs = .ok (analysis, generated))
    (hproblems : problems analysis generated ≠ []) :
    result = .ok (findings analysis generated) ∧ written = [] := by
  cases h with
  | failed hfailed => cases hfailed.symm.trans hgather
  | refused hfound =>
      cases hfound.symm.trans hgather
      exact ⟨rfl, rfl⟩
  | unstubbed hfound hnone =>
      cases hfound.symm.trans hgather
      exact absurd hnone hproblems
  | written hfound hnone =>
      cases hfound.symm.trans hgather
      exact absurd hnone hproblems
  | stubbed hfound hnone =>
      cases hfound.symm.trans hgather
      exact absurd hnone hproblems

theorem Ends.of_stubs_failed (h : Ends disk config output inputs true result written)
    (hgather : gather disk config inputs = .ok (analysis, generated))
    (hnone : problems analysis generated = []) {failure : Failure}
    (hstubs : (Stub.ofFiles generated.classes config.stubRootPath).result = .error failure) :
    result = .error failure ∧ written = [(output, .ofFiles generated.files)] := by
  cases h with
  | failed hfailed => cases hfailed.symm.trans hgather
  | refused hfound hproblems =>
      cases hfound.symm.trans hgather
      exact absurd hnone hproblems
  | unstubbed hfound _ hfailed =>
      cases hfound.symm.trans hgather
      cases hfailed.symm.trans hstubs
      exact ⟨rfl, rfl⟩
  | stubbed hfound _ hmade =>
      cases hfound.symm.trans hgather
      cases hmade.symm.trans hstubs

end Ends

section Create

variable {disk : Disk} {config : Config} {output : String} {inputs : List String} {stubs : Bool}

theorem writes_create : writes (create disk config output inputs stubs) =
    monadLift (gather disk config inputs) >>= fun found =>
      writes (finish disk config output stubs found.1 found.2) := by
  have hlog : ∀ logged : Logged Unit, logged.result = .ok () →
      writes (monadLift logged) = pure () := by
    intro logged h
    rw [writes_monadLift, h]
    rfl
  have hglobs : ∀ globs : List String, writes (globs.forM fun glob => (monadLift
      (log .warn .session s!"include pattern {glob} matched no class") : Session Unit)) =
        pure () := fun globs => writes_forM fun glob => hlog _ rfl
  -- of what comes before the findings only the results are seen from the disk
  unfold create gather
  simp only [writes_bind, hglobs, hlog _ (result_log _ _ _), pure_bind, writes_monadLift,
    Traced.monadLift_bind, Traced.monadLift_pure, bind_assoc]
  rfl

theorem ends_of_finish {analysis : Analysis} {generated : Generated}
    (hgather : gather disk config inputs = .ok (analysis, generated))
    (houtput : disk.admits output = true)
    (hstub : stubs = true → disk.admits (Path.stubPath output) = true) :
    Ends disk config output inputs stubs
      (writes (finish disk config output stubs analysis generated)).result
      (writes (finish disk config output stubs analysis generated)).trace := by
  by_cases hproblems : problems analysis generated = []
  · rw [finish, hproblems]
    simp only [List.isEmpty_nil, Bool.not_true, Bool.false_eq_true, if_false, writes_bind,
      writes_write houtput]
    cases stubs with
    | false => exact .written hgather hproblems
    | true =>
        have hwrite : ∀ files, writes (write disk (Path.stubPath output) files) =
            Traced.emit (Path.stubPath output, .ofFiles files) := fun _ => writes_write (hstub rfl)
        simp only [if_true, writes_bind, writes_monadLift, hwrite]
        cases hstubs : (Stub.ofFiles generated.classes config.stubRootPath).result with
        | error failure => exact .unstubbed hgather hproblems hstubs
        | ok files => exact .stubbed hgather hproblems hstubs
  · rw [finish, List.isEmpty_eq_false_iff.2 hproblems]
    exact .refused hgather hproblems

theorem ends_of_create (houtput : disk.admits output = true)
    (hstub : stubs = true → disk.admits (Path.stubPath output) = true) :
    Ends disk config output inputs stubs (create disk config output inputs stubs).result
      (writtenArchives (create disk config output inputs stubs).trace) := by
  show Ends disk config output inputs stubs (writes (create disk config output inputs stubs)).result
    (writes (create disk config output inputs stubs)).trace
  rw [writes_create]
  cases hgather : gather disk config inputs with
  | error failure => exact .failed hgather
  | ok found => exact ends_of_finish hgather houtput hstub

/-- A build that reports a problem has written nothing. One that fails has written nothing, or its
archive, in which it then found a class that has no stub. Any other writes what it was asked for. -/
theorem writtenArchives_of_create (houtput : disk.admits output = true)
    (hstub : stubs = true → disk.admits (Path.stubPath output) = true) :
    (∀ found, (create disk config output inputs stubs).result = .ok found →
      found.problems ≠ [] →
        writtenArchives (create disk config output inputs stubs).trace = []) ∧
    (∀ failure, (create disk config output inputs stubs).result = .error failure →
      writtenArchives (create disk config output inputs stubs).trace = [] ∨
        stubs = true ∧ ∃ analysis generated,
          gather disk config inputs = .ok (analysis, generated) ∧
          problems analysis generated = [] ∧
          Stub.Refuses generated.classes config.stubRootPath failure ∧
          writtenArchives (create disk config output inputs stubs).trace =
            [(output, .ofFiles generated.files)]) ∧
    ∀ found, (create disk config output inputs stubs).result = .ok found →
      found.problems = [] → ∃ analysis generated more,
        gather disk config inputs = .ok (analysis, generated) ∧
        writtenArchives (create disk config output inputs stubs).trace =
          (output, .ofFiles generated.files) :: more ∧
        more.map Prod.fst = if stubs then [Path.stubPath output] else [] := by
  have hends : Ends disk config output inputs stubs _ _ := ends_of_create houtput hstub
  revert hends
  generalize (create disk config output inputs stubs).result = result
  generalize writtenArchives (create disk config output inputs stubs).trace = written
  intro hends
  refine ⟨?_, ?_, ?_⟩
  · rintro found rfl hproblems
    cases hends with
    | refused => rfl
    | written _ hnone => exact absurd hnone hproblems
    | stubbed _ hnone => exact absurd hnone hproblems
  · rintro failure rfl
    cases hends with
    | failed => exact Or.inl rfl
    | unstubbed hgather hnone hstubs =>
        exact Or.inr ⟨rfl, _, _, hgather, hnone, Stub.refuses_of_ofFiles hstubs, rfl⟩
  · rintro found rfl hnone
    cases hends with
    | refused _ hproblems => exact absurd hnone hproblems
    | written hgather => exact ⟨_, _, _, hgather, rfl, rfl⟩
    | stubbed hgather =>
        refine ⟨_, _, _, hgather, rfl, ?_⟩
        rw [List.map_singleton, if_pos rfl]

end Create

end Session

/-- A disk with an archive that holds a class `A` only. -/
def diskHolding (bytes : Bytes) : Disk :=
  { find := fun path => if path = "a.jar" then some (.archive [("A.class", bytes)]) else none
    admits := fun _ => true }

/-- A class `A` with a method that has the descriptor of a field. -/
def classTypedAsField : ClassFile :=
  { minor := 0, major := 52
    pool := ⟨#[.unusable, .utf8 (Utf8.encode "A"), .classRef 1, .utf8 (Utf8.encode "m"),
      .utf8 (Utf8.encode "I")]⟩
    flags := 0x21, thisClass := 2, superClass := 0, interfaces := [], fields := []
    methods := [⟨0x109, 3, 4, []⟩], attributes := [] }

def configStubbingA : Config :=
  { includes := ["A"], stubRoot := some "A" }

namespace Session

theorem gather_diskHolding (bytes : Bytes) (config : Config) :
    gather (diskHolding bytes) config ["a.jar"] = do
      let analysis ← (analyze config (scanOf bytes)).result
      let generated ← (generate config analysis).result
      return (analysis, generated) := by
  have hscan : (scan (diskHolding bytes) ["a.jar"]).result = .ok (scanOf bytes) :=
    scanInputs_of_class bytes
  rw [gather, hscan]
  rfl

theorem writtenArchives_of_create_missingRoot :
    ∃ found, (create (diskHolding classTypedAsField.encode) { derivedFrom := ["B"] } "out.jar"
      ["a.jar"] true).result = .ok found ∧ found.problems ≠ [] ∧
        writtenArchives (create (diskHolding classTypedAsField.encode) { derivedFrom := ["B"] }
          "out.jar" ["a.jar"] true).trace = [] := by
  have hgather : (gather (diskHolding classTypedAsField.encode) { derivedFrom := ["B"] }
      ["a.jar"]).map (fun found => (problems found.1 found.2).isEmpty) = .ok false := by
    rw [gather_diskHolding]
    cbv
  obtain ⟨⟨analysis, generated⟩, hgather, hproblems⟩ := Except.map_eq_ok_iff.1 hgather
  have hproblems := List.isEmpty_eq_false_iff.1 hproblems
  obtain ⟨hresult, -⟩ := (ends_of_create rfl fun _ => rfl).of_problems hgather hproblems
  exact ⟨_, hresult, hproblems,
    (writtenArchives_of_create rfl fun _ => rfl).1 _ hresult hproblems⟩

/-- The stub of the class fails when the archive has been written, on a disk that takes any file. -/
theorem writtenArchives_of_create_unstubbed :
    (∀ path, (diskHolding classTypedAsField.encode).admits path = true) ∧ ∃ archive,
      (create (diskHolding classTypedAsField.encode) configStubbingA "out.jar" ["a.jar"]
        true).result = .error ⟨[.stubbing "A.class"], .descriptor "I" (.expected '(' 'I')⟩ ∧
      writtenArchives (create (diskHolding classTypedAsField.encode) configStubbingA "out.jar"
        ["a.jar"] true).trace = [("out.jar", archive)] := by
  have hgather : (gather (diskHolding classTypedAsField.encode) configStubbingA ["a.jar"]).map
      (fun found => ((problems found.1 found.2).isEmpty, found.2.classes.toList)) =
        .ok (true, [("A.class", classTypedAsField.encode)]) := by
    rw [gather_diskHolding]
    cbv
  obtain ⟨⟨analysis, generated⟩, hgather, hfound⟩ := Except.map_eq_ok_iff.1 hgather
  obtain ⟨hnone, hclasses⟩ := Prod.mk.inj hfound
  have hstubs : (Stub.ofFiles generated.classes configStubbingA.stubRootPath).result =
      .error ⟨[.stubbing "A.class"], .descriptor "I" (.expected '(' 'I')⟩ := by
    rw [Stub.ofFiles, Stub.under, hclasses]
    cbv
  obtain ⟨hresult, hwritten⟩ := (ends_of_create rfl fun _ => rfl).of_stubs_failed hgather
    (List.isEmpty_iff.1 hnone) hstubs
  exact ⟨fun _ => rfl, _, hresult, hwritten⟩

end Session

end JarTailor
