import JarTailor.Program.LogFilter
import JarTailor.Program.Session
import JarTailor.Zip.Container

/-!
# The program

Reads the files that a command line names, runs the session on them, and then does to the world
what the session's trace says.
-/

namespace JarTailor.Program

/-- Whether the system's number for an error means that a path goes through a file as if it were a
directory. The number comes with either sign. -/
def isNotDirectory (code : UInt32) : Bool :=
  code == 20 || code == 0 - 20

/-- What is at a path. What exists but cannot be read counts as a directory. -/
def look (path : String) : IO (Option Node) := do
  try
    let content ← IO.FS.readBinFile path
    return some <|
      match Zip.read? content with
      | some archive => .archive archive
      | none => .plain content.toList
  catch
    | .noFileOrDirectory .. => return none
    | .inappropriateType _ code _ => return if isNotDirectory code then none else some .directory
    | _ => return some .directory

/-- The paths that a command may read. -/
def readPaths (command : Command) : List String :=
  command.config.toList ++
    match command.task with
    | .printConfig => []
    | .report _ _ inputs => inputs
    | .build _ inputs _ => inputs

/-- The disk as a command sees it. Whether it can be written to shows only when it is. -/
def disk (command : Command) : IO Disk := do
  let nodes ← (readPaths command).eraseDups.mapM fun path => return (path, ← look path)
  return ⟨fun path => (nodes.lookup path).join, fun _ => true⟩

def showLine (filter : LogFilter) (line : LogLine) : IO Unit :=
  if filter.allows line then IO.eprintln line.render else return ()

/-- Does what an event says; tells the failure of a file that cannot be written. -/
def perform (filter : LogFilter) (start : Nat) (event : Event) : IO (Option Failure) := do
  match event with
  | .printed text => IO.print text
  | .wrote path archive =>
      try IO.FS.writeBinFile path (Zip.write archive)
      catch _ => return some ((Failure.of (.external .file)).within (.writing path))
  | _ =>
      let elapsed := (← IO.monoMsNow) - start
      (event.line? (toString elapsed)).forM (showLine filter)
  return none

/-- Does what events say, up to the first failure. -/
def performAll (filter : LogFilter) (start : Nat) : List Event → IO (Option Failure)
  | [] => return none
  | event :: events => do
      match ← perform filter start event with
      | some failure => return some failure
      | none => performAll filter start events

def runCommand (command : Command) : IO UInt32 := do
  let wanted := (← IO.getEnv "RUST_LOG").getD ""
  let (filter, bad) := LogFilter.parse (some (Session.defaultLevel command)) wanted
  bad.forM fun part => IO.eprintln part.warning
  let start ← IO.monoMsNow
  let session := Session.run (← disk command) command
  let failure? ← performAll filter start session.trace
  let failed (failure : Failure) : IO UInt32 := do
    showLine filter (Session.lastLine failure)
    return 1
  match failure?, session.result with
  | some failure, _ | none, .error failure => failed failure
  | none, .ok _ => return UInt32.ofNat (Session.exitCode session)

end JarTailor.Program

/-- Runs the command that the arguments describe, or says why there is none. -/
def main (arguments : List String) : IO UInt32 := do
  match JarTailor.CommandLine.parse arguments with
  | .ok command => JarTailor.Program.runCommand command
  | .error stop =>
      match stop with
      | .help => IO.print JarTailor.CommandLine.helpText
      | .version => IO.print JarTailor.CommandLine.versionText
      | .misuse fault => IO.eprintln s!"error: {fault.message}"
      return UInt32.ofNat stop.exitCode
