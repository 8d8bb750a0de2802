import JarTailor.Edit.Promotions
import JarTailor.Edit.Redirect
import JarTailor.Edit.Renaming
import JarTailor.Edit.Replace
import JarTailor.Jar.Analysis

/-!
# Generation

Every kept class goes through four passes: calls are redirected, bodies replaced, members promoted
and names changed. A class that no pass changes keeps its bytes as they are.
-/

namespace JarTailor

/-- A configuration with its passes made ready. -/
structure Tailor where
  config : Config
  promotions : Promotions
  names : Renaming

structure Tailored where
  classFile : ClassFile
  changed : Bool
  /-- The replacement rules that selected a method. -/
  used : Replace.RuleSet

/-- A class as it goes into the output. -/
structure OutputClass where
  name : String
  bytes : Bytes
  changed : Bool
  used : Replace.RuleSet

structure Generated where
  classes : FileMap
  resources : FileMap
  notRenamed : NameSet
  unusedRules : List String

namespace Tailor

def ofConfig (config : Config) : Except Failure Tailor := do
  return { config, promotions := ← Promotions.ofConfig config,
           names := Renaming.ofPairs config.renameTable }

/-- Replaces bodies in a class that may have some to replace. Delegating native methods counts as a
change even if there are none. -/
def replaceBodies (tailor : Tailor) (name : String) (flags : ClassFlags)
    (classFile : ClassFile) : Logged Tailored := do
  if !flags.stubbed then return ⟨classFile, false, ∅⟩
  let natives := tailor.config.delegatesNatives name
  let (classFile, used) ← Replace.apply tailor.config.replacements natives classFile
  return ⟨classFile, !used.isEmpty || natives, used⟩

def passes (tailor : Tailor) (name : String) (flags : ClassFlags) (classFile : ClassFile) :
    Logged Tailored := do
  let (classFile, redirected) ← Redirect.apply tailor.config.redirects classFile
  let replaced ← tailor.replaceBodies name flags classFile
  let (classFile, promoted) ← tailor.promotions.apply replaced.classFile
  let (classFile, renamed) ← tailor.names.apply classFile
  return { replaced with
    classFile
    changed := redirected > 0 || replaced.changed || promoted || renamed }

/-- A class as it goes into the output, under its own name if nothing changed it. -/
def fit (tailor : Tailor) (name : String) (entry : ClassEntry) : Logged OutputClass := do
  let result ← tailor.passes name entry.flags (← ClassFile.decode entry.bytes)
  if !result.changed then return ⟨name, entry.bytes, false, result.used⟩
  let newName ← result.classFile.name
  if entry.flags.renamed then log .debug .generation s!"renamed {name} to {newName}"
  return ⟨newName, result.classFile.encode, true, result.used⟩

/-- The classes in order with their new names. -/
def fitAll (tailor : Tailor) : List (String × ClassEntry) → FileMap →
    Logged (FileMap × List OutputClass)
  | [], files => return (files, [])
  | (name, entry) :: others, files => do
      let output ← (tailor.fit name entry).within (.tailoring (binaryName name))
      let path := output.name ++ ".class"
      if files.contains path then fail (.sameOutput (binaryName output.name))
      let (files, outputs) ← tailor.fitAll others (files.insert path output.bytes)
      return (files, output :: outputs)

end Tailor

namespace Generated

/-- Everything that goes into the archive. -/
def files (generated : Generated) : FileMap :=
  generated.classes ∪ generated.resources

/-- The replacement rules at other positions than those used. -/
def unused (config : Config) (used : Replace.RuleSet) : List String :=
  (config.replacements.zipIdx.filter fun (_, position) => !used.contains position).map
    fun (rule, _) => rule.pattern.text

end Generated

def generate (config : Config) (analysis : Analysis) : Logged Generated := do
  let tailor ← Tailor.ofConfig config
  let (classes, outputs) ← tailor.fitAll analysis.kept ∅
  let used := Std.ExtTreeSet.ofList (outputs.flatMap (·.used.toList))
  let unusedRules := Generated.unused config used
  for rule in unusedRules do
    log .warn .generation s!"method replacer {rule} matched no method"
  let changed := outputs.countP (·.changed)
  let resources := analysis.resources
  log .info .generation <|
    s!"generated {classes.size} classes ({changed} rewritten), {resources.size} resources"
  return {
    classes, resources, unusedRules
    notRenamed := .ofList (tailor.names.sources.filter fun source => !analysis.isKept source) }

end JarTailor
