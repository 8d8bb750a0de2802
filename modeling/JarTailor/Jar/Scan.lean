import JarTailor.Jar.Archive
import JarTailor.Log
import JarTailor.Path

/-!
# Scanning

The inputs are read in turn. Of a class or resource that several of them hold, the first counts;
every input lists all the classes it holds.
-/

namespace JarTailor

/-- An input by its path, and what opening it gives. -/
structure Input where
  path : String
  content : Except Failure Archive

/-- A class as an input holds it. -/
structure FoundClass where
  bytes : Bytes
  source : String
deriving Repr, DecidableEq, Inhabited

structure Listing where
  path : String
  classes : List String
deriving Repr, DecidableEq, Inhabited

structure Scan where
  classes : Std.ExtTreeMap String FoundClass := ∅
  resources : FileMap := ∅
  /-- What each input holds, in the order of the inputs. -/
  listings : List Listing := []
  /-- How many classes the inputs hold, repeats included. -/
  classCount : Nat := 0

namespace Scan

inductive EntryUse where
  | classFile (name : String)
  | resource
  /-- A module descriptor, or a class that stands in for another in some releases. Neither would
  be renamed, so they are left out. -/
  | skipped
deriving Repr, DecidableEq, Inhabited

def entryUse (path : String) : EntryUse :=
  match Text.stripEnd? ".class" path with
  | none => .resource
  | some name =>
      if Text.startsWith "META-INF/" path || name == "module-info" ||
          Text.endsWith "/module-info" name then .skipped
      else .classFile name

/-- Adds one entry of the input at `source`; tells which class it holds, if any. -/
def addEntry (source : String) (scan : Scan) (path : String) (bytes : Bytes) :
    Logged (Scan × Option String) := do
  match entryUse path with
  | .classFile name =>
      if scan.classes.contains name then
        log .debug .scan s!"{name} from {source} is shadowed by an earlier input"
        return ({ scan with classCount := scan.classCount + 1 }, some name)
      log .trace .scan s!"found {name} in {source}"
      return ({ scan with
        classes := scan.classes.insert name ⟨bytes, source⟩
        classCount := scan.classCount + 1 }, some name)
  | .resource =>
      return ({ scan with resources := scan.resources.insertIfNew path bytes }, none)
  | .skipped =>
      log .debug .scan s!"skipping {path} in {source}"
      return (scan, none)

/-- Adds entries in order; lists the classes they hold. -/
def addEntries (source : String) (scan : Scan) : Archive → Logged (Scan × List String)
  | [] => return (scan, [])
  | (path, bytes) :: entries => do
      let (scan, name) ← addEntry source scan path bytes
      let (scan, names) ← addEntries source scan entries
      return (scan, name.toList ++ names)

def addArchive (scan : Scan) (source : String) (archive : Archive) : Logged Scan := do
  let (scan, names) ← addEntries source scan archive.files
  log .debug .scan s!"scanned {source}: {names.length} classes"
  return { scan with listings := scan.listings ++ [⟨source, names⟩] }

def isSupported (path : String) : Bool :=
  match Path.extension? path with
  | some extension => extension == "jar" || extension == "zip"
  | none => false

def addInput (scan : Scan) (input : Input) : Logged Scan := do
  if !isSupported input.path then fail (.unsupportedInput input.path)
  scan.addArchive input.path (← input.content)

end Scan

def scanInputs (inputs : List Input) : Logged Scan :=
  inputs.foldlM Scan.addInput {}

end JarTailor
