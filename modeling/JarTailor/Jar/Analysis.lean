import JarTailor.Config.Basic
import JarTailor.Glob
import JarTailor.Graph
import JarTailor.Hierarchy
import JarTailor.Jar.Scan
import JarTailor.References

/-!
# Analysis

The kept classes are the seeds and everything they lead to. A seed derives from a configured root,
matches an include glob, or is to be renamed; a class leads to what it refers to and to the targets
of the redirects that select its calls. Whatever is reached is in one of three places: among the
input classes that no exclude glob matches, and then it is kept, among the excluded names, or
missing.
-/

namespace JarTailor

structure ClassFlags where
  kept : Bool
  renamed : Bool
  stubbed : Bool
  excluded : Bool
  derivedRoot : Bool
deriving Repr, DecidableEq, Inhabited

structure ClassEntry where
  bytes : Bytes
  source : String
  flags : ClassFlags
deriving Repr, DecidableEq, Inhabited

structure Analysis where
  /-- Every scanned class by internal name. -/
  classes : Std.ExtTreeMap String ClassEntry
  /-- The kept classes and what each depends on. -/
  graph : Graph
  /-- Reached names that no input defines. -/
  missing : NameSet
  excludedReferences : NameSet
  unresolvedRoots : NameSet
  unmatchedGlobs : List String
  resources : FileMap

abbrev ReferenceMap := Std.ExtTreeMap String References

namespace Config

def excludesClass (config : Config) (name : String) : Bool :=
  config.excludes.any fun pattern => (Glob.ofClass pattern).isMatch (binaryName name)

def excludesFile (config : Config) (path : String) : Bool :=
  config.excludedFiles.any fun pattern => (Glob.ofPath pattern).isMatch path

/-- Whether a rename rule is about exactly this class. -/
def renames? (config : Config) (name : String) : Bool :=
  config.renameTable.any (·.1 == name)

def replacesBodiesOf (config : Config) (name : String) : Bool :=
  config.delegatesNatives name ||
    config.replacements.any fun rule => internalName rule.pattern.className == name

end Config

namespace Analysis

/-- What the scanned classes refer to. A class that declares another name than its entry has is
only warned about. -/
def referencesOf (scan : Scan) : Logged ReferenceMap := do
  let found ← scan.classes.toList.mapM fun (name, found) => do
    let references ←
      Except.within (.classEntry found.source name) (References.ofBytes found.bytes)
    if references.name ≠ name then
      log .warn .analysis s!"{name}.class in {found.source} declares class {references.name}"
    return (name, references)
  return .ofList found

/-- A root and every class from which superclasses and interfaces lead to it. -/
def derivedFrom (references : ReferenceMap) (root : String) : NameSet :=
  Hierarchy.settle references.toList (.ofList [root])

def derivedFromAny (references : ReferenceMap) (roots : List String) : NameSet :=
  .ofList (roots.flatMap fun root => (derivedFrom references root).toList)

/-- What a class depends on: the classes it refers to, and the targets of the redirects that
select a method it calls. -/
def dependenciesOf (config : Config) (references : References) : NameSet :=
  let selected := config.redirects.filter fun rule =>
    references.methods.any fun callee =>
      rule.selects callee.owner callee.name callee.descriptor
  (references.classes.insertMany (selected.map (·.targetClass))).erase references.name

/-- The classes that may be kept, and what each depends on. -/
def candidates (config : Config) (references : ReferenceMap) : Graph :=
  (references.filter fun name _ => !config.excludesClass name).map fun _ entry =>
    dependenciesOf config entry

/-- Whether a class is kept whatever else is. -/
def isSeed (config : Config) (derived : NameSet) (name : String) : Bool :=
  derived.contains name || config.renames? name ||
    config.includes.any fun pattern => (Glob.ofClass pattern).isMatch (binaryName name)

def seeds (config : Config) (derived : NameSet) (candidates : Graph) : List String :=
  candidates.keys.filter (isSeed config derived)

/-- Signatures of a signed archive, which no longer hold for changed classes. -/
def isSignatureFile (path : String) : Bool :=
  match Text.stripStart? "META-INF/" path with
  | none => false
  | some name =>
      !name.contains '/' &&
        [".SF", ".RSA", ".DSA", ".EC"].any fun ending => Text.endsWith ending name

/-- Whether a resource belongs to its archive alone: every archive has its own manifest and
signatures. -/
def isArchiveBound (path : String) : Bool :=
  path == Archive.manifestPath || isSignatureFile path

def keptResources (config : Config) (resources : FileMap) : FileMap :=
  resources.filter fun path _ => !isArchiveBound path && !config.excludesFile path

/-- The analysis of scanned classes whose references are known. -/
def ofReferences (config : Config) (scan : Scan) (references : ReferenceMap) : Analysis :=
  let roots := config.derivedFrom.map internalName
  let derived := derivedFromAny references roots
  let candidates := candidates config references
  let reached := candidates.reach (seeds config derived candidates)
  let flags (name : String) : ClassFlags :=
    let kept := candidates.contains name && reached.contains name
    { kept
      renamed := kept && config.renames? name
      stubbed := kept && config.replacesBodiesOf name
      excluded := config.excludesClass name
      derivedRoot := candidates.contains name && derived.contains name }
  { classes := scan.classes.map fun name found => ⟨found.bytes, found.source, flags name⟩
    graph := candidates.filter fun name _ => reached.contains name
    missing := reached.filter fun name =>
      !config.excludesClass name && !scan.classes.contains name
    excludedReferences := reached.filter config.excludesClass
    unresolvedRoots := .ofList (roots.filter fun root => !scan.classes.contains root)
    unmatchedGlobs := config.includes.filter fun pattern =>
      !scan.classes.keys.any fun name => (Glob.ofClass pattern).isMatch (binaryName name)
    resources := keptResources config scan.resources }

def isKept (analysis : Analysis) (name : String) : Bool :=
  analysis.graph.contains name

/-- The kept classes in the order of their names. -/
def kept (analysis : Analysis) : List (String × ClassEntry) :=
  analysis.classes.toList.filter (·.2.flags.kept)

def keptCount (analysis : Analysis) : Nat :=
  analysis.kept.length

def logDropped (config : Config) (scan : Scan) : Logged Unit :=
  for path in scan.resources.keys do
    if !isArchiveBound path && config.excludesFile path then
      log .debug .analysis s!"dropping resource {path}"

def logFindings (analysis : Analysis) : Logged Unit := do
  let scanned := analysis.classes.size
  let resources := analysis.resources.size
  log .info .analysis s!"kept {analysis.keptCount} of {scanned} classes, {resources} resources"
  let derived := analysis.classes.values.countP (·.flags.derivedRoot)
  let edges := total (·.size) analysis.graph.values
  log .debug .analysis s!"{derived} classes derive from the roots; {edges} outgoing references"
  if !analysis.missing.isEmpty then
    log .debug .analysis s!"{analysis.missing.size} referenced classes are not in the inputs"
    for name in analysis.missing.toList do
      let referrers := ", ".intercalate (analysis.graph.referrers name)
      log .debug .analysis s!"missing dependency {binaryName name} referenced by {referrers}"
  for name in analysis.excludedReferences.toList do
    log .debug .analysis <|
      s!"excluded class {binaryName name} is still referenced; expecting it at runtime"

end Analysis

def analyze (config : Config) (scan : Scan) : Logged Analysis := do
  let references ← Analysis.referencesOf scan
  let analysis := Analysis.ofReferences config scan references
  Analysis.logDropped config scan
  analysis.logFindings
  return analysis

end JarTailor
