import JarTailor.Config.Basic
import JarTailor.Toml.Document
import JarTailor.Toml.Text

/-!
# Configurations as TOML

Every key of a configuration document is known, and every list may be left out. A rule is a table,
or an array of its parts in order.
-/

namespace JarTailor.Config

open Toml

def ofString? : Value → Option String
  | .string text => some text
  | _ => none

/-- The texts under a key, none if the key is missing. -/
def texts (entries : Entries) (key : String) : Option (List String) :=
  match entries.find? key with
  | none => some []
  | some (.array items) => items.mapM ofString?
  | some _ => none

/-- The items of an array, whether written in brackets or under headers. -/
def itemsOf? : Value → Option (List Value)
  | .array items => some items
  | .tables items => some (items.reverse.map (.table .header ·))
  | _ => none

def rules {α : Type} (ofValue? : Value → Option α) (entries : Entries) (key : String) :
    Option (List α) :=
  match entries.find? key with
  | none => some []
  | some value => do (← itemsOf? value).mapM ofValue?

def hasOnly (keys : List String) (entries : Entries) : Bool :=
  entries.all fun entry => keys.contains entry.1

def required (entries : Entries) (key : String) : Option String := do
  ofString? (← entries.find? key)

def optional (entries : Entries) (key : String) : Option (Option String) :=
  match entries.find? key with
  | none => some none
  | some value => some <$> ofString? value

def renameOfValue? : Value → Option RenameRule
  | .table _ entries => do
      guard (hasOnly ["from", "to"] entries)
      return ⟨← required entries "from", ← required entries "to"⟩
  | .array (source :: target :: _) => do
      return ⟨← ofString? source, ← ofString? target⟩
  | _ => none

def isEmptyValue : Value → Bool
  | .array items => items.isEmpty
  | .table _ entries => entries.isEmpty
  | _ => false

/-- An action is a word, or a table that has the word as its only key and nothing under it. -/
def actionOfValue? : Value → Option ReplaceAction
  | .string key => ReplaceAction.ofKey? key
  | .table _ [(key, value)] => if isEmptyValue value then ReplaceAction.ofKey? key else none
  | _ => none

def patternOf (entries : Entries) : Option MethodPattern := do
  return ⟨← required entries "class", ← required entries "method",
    ← optional entries "descriptor"⟩

def patternOfItems (className method descriptor : Value) : Option MethodPattern := do
  return ⟨← ofString? className, ← ofString? method, some (← ofString? descriptor)⟩

def replaceOfValue? : Value → Option ReplaceRule
  | .table _ entries => do
      guard (hasOnly ["class", "method", "descriptor", "action"] entries)
      return ⟨← patternOf entries, ← actionOfValue? (← Entries.find? entries "action")⟩
  | .array (className :: method :: descriptor :: action :: _) => do
      return ⟨← patternOfItems className method descriptor, ← actionOfValue? action⟩
  | _ => none

def redirectOfValue? : Value → Option RedirectRule
  | .table _ entries => do
      guard (hasOnly ["class", "method", "descriptor", "target"] entries)
      return ⟨← patternOf entries, ← required entries "target"⟩
  | .array (className :: method :: descriptor :: target :: _) => do
      return ⟨← patternOfItems className method descriptor, ← ofString? target⟩
  | _ => none

def keys : List String :=
  ["derived_from", "include", "exclude", "exclude_files", "rename", "replace_method",
    "delegate_natives", "redirect_call", "promote_classes", "promote_fields", "promote_methods",
    "stub_prefix"]

def ofEntries? (entries : Entries) : Option Config := do
  guard (hasOnly keys entries)
  return {
    derivedFrom := ← texts entries "derived_from"
    includes := ← texts entries "include"
    excludes := ← texts entries "exclude"
    excludedFiles := ← texts entries "exclude_files"
    renames := ← rules renameOfValue? entries "rename"
    replacements := ← rules replaceOfValue? entries "replace_method"
    delegatedNatives := ← texts entries "delegate_natives"
    redirects := ← rules redirectOfValue? entries "redirect_call"
    promotedClasses := ← texts entries "promote_classes"
    promotedFields := ← texts entries "promote_fields"
    promotedMethods := ← texts entries "promote_methods"
    stubRoot := ← optional entries "stub_prefix" }

def ofToml (text : String) : Except Failure Config :=
  match Toml.parse text >>= ofEntries? with
  | some config => pure config
  | none => throw ((Failure.of (.external .configText)).within .configuration)

def writeTexts (key : String) (texts : List String) : String :=
  writeField key (writeStrings texts)

def writeText (key text : String) : String :=
  writeField key (writeString text)

def writeOptional (key : String) : Option String → String
  | some text => writeText key text
  | none => ""

/-- The place of a list of rules among the plain keys, where it stands only if it is empty. -/
def writeEmpty {α : Type} (key : String) (rules : List α) : String :=
  if rules.isEmpty then writeField key "[]" else ""

def writeRules {α : Type} (key : String) (write : α → String) (rules : List α) : String :=
  String.join (rules.map fun rule => "\n[[" ++ key ++ "]]\n" ++ write rule)

def writeRename (rule : RenameRule) : String :=
  writeText "from" rule.source ++ writeText "to" rule.target

def writePattern (pattern : MethodPattern) : String :=
  writeText "class" pattern.className ++ writeText "method" pattern.method ++
    writeOptional "descriptor" pattern.descriptor

def writeReplace (rule : ReplaceRule) : String :=
  writePattern rule.pattern ++ writeText "action" rule.action.key

def writeRedirect (rule : RedirectRule) : String :=
  writePattern rule.pattern ++ writeText "target" rule.target

/-- Writes a configuration document: plain keys first, then the rules under headers. -/
def toToml (config : Config) : String :=
  writeTexts "derived_from" config.derivedFrom ++
  writeTexts "include" config.includes ++
  writeTexts "exclude" config.excludes ++
  writeTexts "exclude_files" config.excludedFiles ++
  writeEmpty "rename" config.renames ++
  writeEmpty "replace_method" config.replacements ++
  writeTexts "delegate_natives" config.delegatedNatives ++
  writeEmpty "redirect_call" config.redirects ++
  writeTexts "promote_classes" config.promotedClasses ++
  writeTexts "promote_fields" config.promotedFields ++
  writeTexts "promote_methods" config.promotedMethods ++
  writeOptional "stub_prefix" config.stubRoot ++
  writeRules "rename" writeRename config.renames ++
  writeRules "replace_method" writeReplace config.replacements ++
  writeRules "redirect_call" writeRedirect config.redirects

end JarTailor.Config
