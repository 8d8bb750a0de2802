import JarTailor.Text.Affix

/-!
# Command lines

Arguments are read from left to right. The values of an option or of the positional paths are
collected until something else begins, and only then checked; a switch is acted on at once, and so
are the requests for help and for the version.
-/

namespace JarTailor

inductive Misuse where
  | missingArgument
  | conflict
  | unknownArgument
  | invalidValue
  | tooManyValues
deriving Repr, DecidableEq, Inhabited

def Misuse.message : Misuse → String
  | .missingArgument => "expected <output.jar> <input.jar>..., or an input for a report"
  | .conflict => "some arguments cannot be used together"
  | .unknownArgument => "unexpected argument"
  | .invalidValue => "a value is missing or empty"
  | .tooManyValues => "unexpected value for an option that takes none"

inductive Task where
  | printConfig
  /-- Reports what the inputs depend on. -/
  | report (missingOnly json : Bool) (inputs : List String)
  | build (output : String) (inputs : List String) (stubs : Bool)
deriving Repr, DecidableEq, Inhabited

structure Command where
  verbose : Bool
  config : Option String
  task : Task
deriving Repr, DecidableEq, Inhabited

inductive Stop where
  | help
  | version
  | misuse (fault : Misuse)
deriving Repr, DecidableEq, Inhabited

def Stop.exitCode : Stop → Nat
  | .misuse _ => 1
  | .help | .version => 0

namespace CommandLine

inductive Switch where
  | verbose
  | createStub
  | listDeps
  | missingDeps
  | json
  | printConfig
deriving Repr, DecidableEq, Inhabited

/-- What a name after two dashes stands for. -/
inductive LongOption where
  | config
  | stop (reason : Stop)
  | switch (switch : Switch)
deriving Repr, DecidableEq, Inhabited

def LongOption.ofName? : String → Option LongOption
  | "config" => some .config
  | "help" => some (.stop .help)
  | "version" => some (.stop .version)
  | "verbose" => some (.switch .verbose)
  | "create-stub" => some (.switch .createStub)
  | "list-deps" => some (.switch .listDeps)
  | "missing-deps" => some (.switch .missingDeps)
  | "json" => some (.switch .json)
  | "print-config" => some (.switch .printConfig)
  | _ => none

/-- Values that are not checked yet. -/
inductive Pending where
  | nothing
  | config (value : Option String)
  /-- Some paths, the latest first. -/
  | paths (values : List String)
deriving Repr, DecidableEq, Inhabited

structure Arguments where
  switches : List Switch := []
  config : Option String := none
  paths : List String := []
  pending : Pending := .nothing
deriving Repr, DecidableEq, Inhabited

namespace Arguments

def has (arguments : Arguments) (switch : Switch) : Bool :=
  arguments.switches.contains switch

/-- Takes a configuration path. There may be only one, and it may not be empty. -/
def setConfig (arguments : Arguments) (value : String) : Except Stop Arguments :=
  if arguments.config.isSome then throw (.misuse .conflict)
  else if value = "" then throw (.misuse .invalidValue)
  else return { arguments with config := some value, pending := .nothing }

def settle (arguments : Arguments) : Except Stop Arguments :=
  match arguments.pending with
  | .nothing => return arguments
  | .config none => throw (.misuse .invalidValue)
  | .config (some value) => arguments.setConfig value
  | .paths values =>
      if values.contains "" then throw (.misuse .invalidValue)
      else return { arguments with
        paths := arguments.paths ++ values.reverse, pending := .nothing }

/-- Turns a switch on, which may be done only once. -/
def turnOn (arguments : Arguments) (switch : Switch) : Except Stop Arguments := do
  let arguments ← arguments.settle
  if arguments.has switch then throw (.misuse .conflict)
  return { arguments with switches := switch :: arguments.switches }

/-- Stops, if everything before is in order. -/
def stopWith (arguments : Arguments) (stop : Stop) : Except Stop Arguments := do
  let _ ← arguments.settle
  throw stop

def addPath (arguments : Arguments) (value : String) : Except Stop Arguments := do
  match arguments.pending with
  | .paths values => return { arguments with pending := .paths (value :: values) }
  | _ => return { ← arguments.settle with pending := .paths [value] }

/-- Takes an argument that names no option: the value that an option waits for, or a path. -/
def addValue (arguments : Arguments) (value : String) : Except Stop Arguments :=
  match arguments.pending with
  | .config none => return { arguments with pending := .config (some value) }
  | _ => arguments.addPath value

/-- Reads `--name` or `--name=value`. -/
def addLong (arguments : Arguments) (option : LongOption) (value : Option String) :
    Except Stop Arguments := do
  match option, value with
  | .config, some value => (← arguments.settle).setConfig value
  | .config, none => return { ← arguments.settle with pending := .config none }
  | _, some _ => throw (.misuse .tooManyValues)
  | .stop reason, none => arguments.stopWith reason
  | .switch switch, none => arguments.turnOn switch

/-- Reads the letters after a single dash. -/
def addShort (arguments : Arguments) : List Char → Except Stop Arguments
  | [] => return arguments
  | 'v' :: letters => do (← arguments.turnOn .verbose).addShort letters
  | 'h' :: _ => arguments.stopWith .help
  | 'V' :: _ => arguments.stopWith .version
  | _ => throw (.misuse .unknownArgument)

/-- Reads one argument before any `--`. -/
def add (arguments : Arguments) (argument : String) : Except Stop Arguments :=
  match argument.toList with
  | '-' :: '-' :: long =>
      match LongOption.ofName? (String.ofList (long.takeWhile (· ≠ '='))) with
      | some option =>
          arguments.addLong option ((long.dropWhile (· ≠ '=')).tail?.map String.ofList)
      | none => throw (.misuse .unknownArgument)
  | '-' :: letter :: letters => arguments.addShort (letter :: letters)
  | _ => arguments.addValue argument

end Arguments

/-- Reads the arguments in order. After `--` all are paths. -/
def readAll (arguments : Arguments) : List String → Except Stop Arguments
  | [] => arguments.settle
  | "--" :: paths => do (← paths.foldlM Arguments.addPath arguments).settle
  | argument :: others => do readAll (← arguments.add argument) others

def contradicts (arguments : Arguments) : Bool :=
  let modes := [Switch.listDeps, Switch.missingDeps, Switch.createStub]
  1 < modes.countP arguments.has

def taskOf (arguments : Arguments) : Except Stop Task :=
  let reports := arguments.has .listDeps || arguments.has .missingDeps
  if contradicts arguments then throw (.misuse .conflict)
  else if arguments.has .printConfig then return .printConfig
  else if arguments.has .json && !reports then throw (.misuse .conflict)
  else if reports then
    if arguments.paths.isEmpty then throw (.misuse .missingArgument)
    else return .report (arguments.has .missingDeps) (arguments.has .json) arguments.paths
  else
    match arguments.paths with
    | output :: input :: inputs =>
        return .build output (input :: inputs) (arguments.has .createStub)
    | _ => throw (.misuse .missingArgument)

def parse (arguments : List String) : Except Stop Command := do
  let arguments ← readAll {} arguments
  return { verbose := arguments.has .verbose, config := arguments.config,
           task := ← taskOf arguments }

def versionText : String := "layoutlib-create 0.1.0\n"

def helpText : String := String.join <| List.map (· ++ "\n") [
  "Builds a layoutlib JAR from Android framework JARs by keeping the classes reachable " ++
    "from configured roots and rewriting them to run outside the device runtime.",
  "",
  "Usage: layoutlib-create [OPTIONS] [JAR]...",
  "",
  "Arguments:",
  "  [JAR]...  `<output.jar> <input.jar>...`, or only input JARs with --list-deps " ++
    "and --missing-deps",
  "",
  "Options:",
  "  -v, --verbose        Log every decision at debug level",
  "      --config <PATH>  TOML file replacing the built-in layoutlib configuration",
  "      --create-stub    Also write `<output>-stubs.<ext>` with API-only copies of the classes",
  "      --list-deps      Report, per input JAR, the classes it uses but does not define",
  "      --missing-deps   Like --list-deps, limited to classes no input defines",
  "      --json           Print the dependency report as JSON",
  "      --print-config   Print the effective configuration as TOML and exit",
  "  -h, --help           Print help",
  "  -V, --version        Print version"]

end CommandLine

end JarTailor
