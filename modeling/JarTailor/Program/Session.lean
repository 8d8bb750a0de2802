import JarTailor.Config.BuiltIn
import JarTailor.Config.Toml
import JarTailor.Config.Validate
import JarTailor.Edit.Stub
import JarTailor.Jar.Dependencies
import JarTailor.Jar.Generated
import JarTailor.Program.CommandLine
import JarTailor.Program.Disk

/-!
# Sessions

A session runs a command on a disk. What it does to the world is its trace: the lines it logs, the
text it prints and the archives it writes, each at the moment it happens.
-/

namespace JarTailor

inductive Event where
  | logged (line : LogLine)
  | printed (text : String)
  | wrote (path : String) (archive : Archive)
  /-- The end of a build that kept so many classes. -/
  | finished (kept : Nat)
deriving Repr, DecidableEq, Inhabited

/-- The log line of an event, given how long the build took in milliseconds. -/
def Event.line? (elapsed : String) : Event → Option LogLine
  | .logged line => some line
  | .finished kept => some ⟨.info, .session, s!"kept {kept} classes in {elapsed} ms"⟩
  | .printed _ | .wrote _ _ => none

def writtenArchives (events : List Event) : List (String × Archive) :=
  events.filterMap fun
    | .wrote path archive => some (path, archive)
    | _ => none

def printedText (events : List Event) : String :=
  String.join <| events.filterMap fun
    | .printed text => some text
    | _ => none

abbrev Session := Traced Event

instance : MonadLift Logged Session := ⟨Traced.mapTrace .logged⟩

/-- How a session ends that was not cut short. -/
inductive Verdict where
  | success
  | failure
deriving Repr, DecidableEq, Inhabited

namespace Session

/-- The configuration at a path, or the built-in one. -/
def loadConfig (disk : Disk) (path : Option String) : Logged Config := do
  let config ← match path with
    | none => pure Config.builtIn
    | some path => do
        let text ← disk.readText path
        liftM (Except.within (.configurationFile path) (Config.ofToml text))
  config.validate
  return config

def checkInputs (disk : Disk) : List String → Except Failure Unit
  | [] => return ()
  | path :: paths => do
      if (disk.find path).isNone then fail (.inputNotFound path)
      checkInputs disk paths

def scan (disk : Disk) (paths : List String) : Logged Scan :=
  scanInputs (paths.map fun path => ⟨path, disk.openArchive path⟩)

def report (disk : Disk) (missingOnly json : Bool) (inputs : List String) : Session Unit := do
  checkInputs disk inputs
  let found ← dependencyReport (← scan disk inputs) missingOnly
  Traced.emit <| .printed <|
    if json then (Dependencies.toJson found).document else Dependencies.toText found

def write (disk : Disk) (path : String) (files : FileMap) : Session Unit := do
  if !disk.admits path then Except.within (.writing path) (fail (.external .file))
  Traced.emit (.wrote path (.ofFiles files))
  log .info .archive s!"wrote {path} ({files.size} entries)"

/-- Why nothing may be written. -/
def problems (analysis : Analysis) (generated : Generated) : List String :=
  (analysis.unresolvedRoots.toList.map fun root =>
    s!"derived-from class {binaryName root} is not in any input JAR") ++
  generated.notRenamed.toList.map fun source =>
    s!"class {binaryName source} was never renamed: it is not among the kept classes"

structure Findings where
  problems : List String
  /-- Missing classes by binary name. -/
  missing : List String
deriving Repr, DecidableEq, Inhabited

def logFindings (findings : Findings) : Logged Unit := do
  findings.problems.forM (log .error .session)
  if !findings.missing.isEmpty then
    log .warn .session <|
      s!"{findings.missing.length} referenced classes were not found in any input JAR:"
    findings.missing.forM fun name => log .info .session s!"    {name}"

/-- Builds an archive, and the archive of its stubs if wanted. Nothing is written if there are
problems. -/
def create (disk : Disk) (config : Config) (output : String) (inputs : List String)
    (stubs : Bool) : Session Findings := do
  let scan ← scan disk inputs
  log .info .session s!"read {scan.classCount} classes from {inputs.length} input JARs"
  let analysis ← analyze config scan
  analysis.unmatchedGlobs.forM fun pattern =>
    (log .warn .session s!"include pattern {pattern} matched no class" : Session Unit)
  let generated ← generate config analysis
  let findings := ⟨problems analysis generated, analysis.missing.toList.map binaryName⟩
  if !findings.problems.isEmpty then return findings
  write disk output generated.files
  if stubs then
    write disk (Path.stubPath output) (← Stub.ofFiles generated.classes config.stubRootPath)
  Traced.emit (.finished analysis.keptCount)
  return findings

def build (disk : Disk) (config : Config) (output : String) (inputs : List String)
    (stubs : Bool) : Session Verdict := do
  checkInputs disk inputs
  let findings ← create disk config output inputs stubs
  logFindings findings
  return if findings.problems.isEmpty then .success else .failure

def run (disk : Disk) (command : Command) : Session Verdict := do
  let config ← loadConfig disk command.config
  match command.task with
  | .printConfig =>
      Traced.emit (.printed config.toToml)
      return .success
  | .report missingOnly json inputs =>
      report disk missingOnly json inputs
      return .success
  | .build output inputs stubs => build disk config output inputs stubs

/-- The level up to which lines are shown unless a filter says otherwise. -/
def defaultLevel (command : Command) : Level :=
  if command.verbose then .debug else .info

/-- The exit status: zero only if the session went through to its end and found no problem. -/
def exitCode (session : Session Verdict) : Nat :=
  match session.result with
  | .ok .success => 0
  | _ => 1

/-- The line shown last when a session is cut short. -/
def lastLine (failure : Failure) : LogLine :=
  ⟨.error, .session, failure.message⟩

end Session

end JarTailor
