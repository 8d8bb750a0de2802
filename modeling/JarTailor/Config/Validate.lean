import JarTailor.Config.Basic
import JarTailor.Glob
import JarTailor.Log

/-!
# Validation

A configuration is refused when its rules contradict one another or lack a part. A rename of an
excluded class is only warned about.
-/

namespace JarTailor.Config

/-- Checks one rename rule against the sources of the rules before it. -/
def validateRename (config : Config) (earlier : List String) (rule : RenameRule) :
    Logged Unit := do
  if rule.source.isEmpty || rule.target.isEmpty then fail .renameIncomplete
  if rule.source = rule.target then fail (.renameOntoItself rule.source)
  if earlier.contains rule.source then fail (.renamedTwice rule.source)
  for pattern in config.excludes do
    if (Glob.ofClass pattern).isMatch rule.source then
      log .warn .config <|
        s!"renamed class {rule.source} is excluded by {pattern}; it will never be renamed"

def validateRenames (config : Config) : List String → List RenameRule → Logged Unit
  | _, [] => pure ()
  | earlier, rule :: rules => do
      config.validateRename earlier rule
      config.validateRenames (rule.source :: earlier) rules

def validate (config : Config) : Logged Unit := do
  config.validateRenames [] config.renames
  let sources := config.renames.map RenameRule.source
  for rule in config.renames do
    if sources.contains rule.target then fail (.renameChain rule.target)
  for rule in config.replacements do
    if rule.pattern.className.isEmpty || rule.pattern.method.isEmpty then
      fail .replaceIncomplete
  for rule in config.redirects do
    if rule.pattern.className.isEmpty || rule.pattern.method.isEmpty || rule.target.isEmpty then
      fail .redirectIncomplete
  let _ ← config.fieldSpecs
  let _ ← config.methodSpecs

end JarTailor.Config
