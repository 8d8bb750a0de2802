import JarTailor.Config.Toml
import JarTailor.Proofs.Toml.Tables

/-!
# A written configuration is read back

The lines of a configuration make up a document with a table for each rule. The configuration of
this document is the one that was written, whatever its texts.
-/

namespace JarTailor.Config

open Toml Entries Document

/-! ## The document of a configuration -/

def textsEntries (key : String) (texts : List String) : Entries :=
  [(key, .array (texts.map .string))]

def textEntries (key text : String) : Entries :=
  [(key, .string text)]

def optionalEntries (key : String) (text : Option String) : Entries :=
  text.elim [] (textEntries key)

def emptyEntries {α : Type} (key : String) (rules : List α) : Entries :=
  if rules.isEmpty then [(key, .array [])] else []

def renameEntries (rule : RenameRule) : Entries :=
  textEntries "from" rule.source ++ textEntries "to" rule.target

def patternEntries (pattern : MethodPattern) : Entries :=
  textEntries "class" pattern.className ++ textEntries "method" pattern.method ++
    optionalEntries "descriptor" pattern.descriptor

def replaceEntries (rule : ReplaceRule) : Entries :=
  patternEntries rule.pattern ++ textEntries "action" rule.action.key

def redirectEntries (rule : RedirectRule) : Entries :=
  patternEntries rule.pattern ++ textEntries "target" rule.target

/-- What stands before the first header. -/
def plainEntries (config : Config) : Entries :=
  textsEntries "derived_from" config.derivedFrom ++
  textsEntries "include" config.includes ++
  textsEntries "exclude" config.excludes ++
  textsEntries "exclude_files" config.excludedFiles ++
  emptyEntries "rename" config.renames ++
  emptyEntries "replace_method" config.replacements ++
  textsEntries "delegate_natives" config.delegatedNatives ++
  emptyEntries "redirect_call" config.redirects ++
  textsEntries "promote_classes" config.promotedClasses ++
  textsEntries "promote_fields" config.promotedFields ++
  textsEntries "promote_methods" config.promotedMethods ++
  optionalEntries "stub_prefix" config.stubRoot

def document (config : Config) : Entries :=
  plainEntries config ++
  tablesOf "rename" (config.renames.map renameEntries) ++
  tablesOf "replace_method" (config.replacements.map replaceEntries) ++
  tablesOf "redirect_call" (config.redirects.map redirectEntries)

/-! ## The document is what is written -/

section Written

variable {key : String} (hkey : IsWord key)
include hkey

theorem adds_writeTexts (texts : List String) :
    Adds (writeTexts key texts) (textsEntries key texts) :=
  adds_writeField hkey (spells_writeStrings texts)

theorem adds_writeText (text : String) : Adds (writeText key text) (textEntries key text) :=
  adds_writeField hkey (spells_writeString text)

theorem adds_writeOptional (text : Option String) :
    Adds (writeOptional key text) (optionalEntries key text) := by
  cases text with
  | none => exact adds_nil
  | some text => exact adds_writeText hkey text

theorem adds_writeEmpty {α : Type} (rules : List α) :
    Adds (writeEmpty key rules) (emptyEntries key rules) := by
  cases rules with
  | nil => exact adds_writeField hkey (spells_writeStrings [])
  | cons rule rules => exact adds_nil

/-- The tables of rules come after those that there are. -/
theorem reads_writeRules {α : Type} {write : α → String} {entriesOf : α → Entries}
    (hwrite : ∀ rule, Adds (write rule) (entriesOf rule))
    (hkeys : ∀ rule, (Entries.keys (entriesOf rule)).Nodup) {before : Entries} (rules : List α)
    (hfresh : rules ≠ [] → key ∉ Entries.keys before) (tables : List Entries)
    (header : List String) :
    ∃ last, Reads (atLine (before ++ tablesOf key tables) header) (writeRules key write rules)
      (atLine (before ++ tablesOf key (tables ++ rules.map entriesOf)) last) := by
  induction rules generalizing tables header with
  | nil =>
      rw [List.map_nil, List.append_nil]
      exact ⟨header, .refl _⟩
  | cons rule rules ih =>
      have hfresh := hfresh (List.cons_ne_nil rule rules)
      obtain ⟨last, hrules⟩ := ih (fun _ => hfresh) (tables ++ [entriesOf rule]) [key]
      refine ⟨last, ?_⟩
      rw [writeRules, List.map_cons, String.join_cons, List.map_cons, List.append_cons]
      exact (reads_table hkey hfresh tables (hwrite rule) (hkeys rule)).append hrules

theorem reads_rules {α : Type} {write : α → String} {entriesOf : α → Entries}
    (hwrite : ∀ rule, Adds (write rule) (entriesOf rule))
    (hkeys : ∀ rule, (Entries.keys (entriesOf rule)).Nodup) {before : Entries} {rules : List α}
    (hfresh : rules ≠ [] → find? before key = none) (header : List String) :
    ∃ last, Reads (atLine before header) (writeRules key write rules)
      (atLine (before ++ tablesOf key (rules.map entriesOf)) last) := by
  have hnone : before ++ tablesOf key [] = before := List.append_nil before
  have hrules := reads_writeRules hkey hwrite hkeys rules
    (fun hne => find?_eq_none_iff.1 (hfresh hne)) [] header
  rwa [hnone] at hrules

end Written

theorem adds_writeRename (rule : RenameRule) : Adds (writeRename rule) (renameEntries rule) := by
  refine Adds.append ?_ ?_
  · exact adds_writeText (by decide) rule.source
  · exact adds_writeText (by decide) rule.target

theorem adds_writePattern (pattern : MethodPattern) :
    Adds (writePattern pattern) (patternEntries pattern) := by
  refine Adds.append (Adds.append ?_ ?_) ?_
  · exact adds_writeText (by decide) pattern.className
  · exact adds_writeText (by decide) pattern.method
  · exact adds_writeOptional (by decide) pattern.descriptor

theorem adds_writeReplace (rule : ReplaceRule) : Adds (writeReplace rule) (replaceEntries rule) :=
  (adds_writePattern rule.pattern).append (adds_writeText (by decide) rule.action.key)

theorem adds_writeRedirect (rule : RedirectRule) :
    Adds (writeRedirect rule) (redirectEntries rule) :=
  (adds_writePattern rule.pattern).append (adds_writeText (by decide) rule.target)

/-- The lines before the first header. -/
def plainText (config : Config) : String :=
  writeTexts "derived_from" config.derivedFrom ++
  writeTexts "include" config.includes ++
  writeTexts "exclude" config.excludes ++
  writeTexts "exclude_files" config.excludedFiles ++
  writeEmpty "rename" config.renames ++
  writeEmpty "replace_method" config.replacements ++
  writeTexts "delegate_natives" config.delegatedNatives ++
  writeEmpty "redirect_call" config.redirects ++
  writeTexts "promote_classes" config.promotedClasses ++
  writeTexts "promote_fields" config.promotedFields ++
  writeTexts "promote_methods" config.promotedMethods ++
  writeOptional "stub_prefix" config.stubRoot

theorem toToml_eq (config : Config) :
    toToml config = plainText config ++ writeRules "rename" writeRename config.renames ++
      writeRules "replace_method" writeReplace config.replacements ++
      writeRules "redirect_call" writeRedirect config.redirects :=
  rfl

theorem adds_plainText (config : Config) : Adds (plainText config) (plainEntries config) := by
  unfold plainText plainEntries
  repeat' apply Adds.append
  · exact adds_writeTexts (by decide) config.derivedFrom
  · exact adds_writeTexts (by decide) config.includes
  · exact adds_writeTexts (by decide) config.excludes
  · exact adds_writeTexts (by decide) config.excludedFiles
  · exact adds_writeEmpty (by decide) config.renames
  · exact adds_writeEmpty (by decide) config.replacements
  · exact adds_writeTexts (by decide) config.delegatedNatives
  · exact adds_writeEmpty (by decide) config.redirects
  · exact adds_writeTexts (by decide) config.promotedClasses
  · exact adds_writeTexts (by decide) config.promotedFields
  · exact adds_writeTexts (by decide) config.promotedMethods
  · exact adds_writeOptional (by decide) config.stubRoot

/-! ## Keys -/

theorem keys_optionalEntries (key : String) (text : Option String) :
    (Entries.keys (optionalEntries key text)).Sublist [key] := by
  cases text with
  | none => exact List.nil_sublist _
  | some text => exact List.Sublist.refl _

theorem keys_emptyEntries {α : Type} (key : String) (rules : List α) :
    (Entries.keys (emptyEntries key rules)).Sublist [key] := by
  cases rules with
  | nil => exact List.Sublist.refl _
  | cons rule rules => exact List.nil_sublist _

theorem keys_tablesOf (key : String) (tables : List Entries) :
    (Entries.keys (tablesOf key tables)).Sublist [key] := by
  cases tables with
  | nil => exact List.nil_sublist _
  | cons table tables => exact List.Sublist.refl _

theorem keys_plainEntries (config : Config) :
    (Entries.keys (plainEntries config)).Sublist keys := by
  have hkeys : keys = ["derived_from"] ++ ["include"] ++ ["exclude"] ++ ["exclude_files"] ++
      ["rename"] ++ ["replace_method"] ++ ["delegate_natives"] ++ ["redirect_call"] ++
      ["promote_classes"] ++ ["promote_fields"] ++ ["promote_methods"] ++ ["stub_prefix"] := rfl
  rw [hkeys]
  simp only [plainEntries, keys_append]
  repeat' apply List.Sublist.append
  all_goals
    first
    | exact List.Sublist.refl _
    | exact keys_emptyEntries _ _
    | exact keys_optionalEntries _ _

theorem keys_document (config : Config) : Entries.keys (document config) ⊆ keys := by
  have htables {key : String} (hkey : key ∈ keys) (tables : List Entries) :
      Entries.keys (tablesOf key tables) ⊆ keys := by
    intro other hother
    rwa [List.mem_singleton.1 ((keys_tablesOf key tables).subset hother)]
  simp only [document, keys_append, List.append_subset]
  exact ⟨⟨⟨(keys_plainEntries config).subset, htables (by decide) _⟩, htables (by decide) _⟩,
    htables (by decide) _⟩

theorem keys_patternEntries (pattern : MethodPattern) (key text : String) :
    (Entries.keys (patternEntries pattern ++ textEntries key text)).Sublist
      ["class", "method", "descriptor", key] := by
  have hdescriptor := keys_optionalEntries "descriptor" pattern.descriptor
  simp only [patternEntries, keys_append]
  exact ((List.Sublist.refl ["class", "method"]).append hdescriptor).append (.refl [key])

theorem nodup_renameEntries (rule : RenameRule) : (Entries.keys (renameEntries rule)).Nodup := by
  have hkeys : Entries.keys (renameEntries rule) = ["from", "to"] := rfl
  rw [hkeys]
  decide

theorem nodup_replaceEntries (rule : ReplaceRule) : (Entries.keys (replaceEntries rule)).Nodup :=
  (keys_patternEntries _ _ _).nodup (by decide)

theorem nodup_redirectEntries (rule : RedirectRule) :
    (Entries.keys (redirectEntries rule)).Nodup :=
  (keys_patternEntries _ _ _).nodup (by decide)

/-! ## Lookups -/

@[simp] theorem find?_textsEntries (key other : String) (texts : List String) :
    find? (textsEntries key texts) other =
      if key = other then some (.array (texts.map .string)) else none :=
  find?_singleton key other _

@[simp] theorem find?_textEntries (key other text : String) :
    find? (textEntries key text) other = if key = other then some (.string text) else none :=
  find?_singleton key other _

@[simp] theorem find?_optionalEntries (key other : String) (text : Option String) :
    find? (optionalEntries key text) other = if key = other then text.map .string else none := by
  cases text with
  | none => exact (ite_self none).symm
  | some text => exact find?_textEntries key other text

@[simp] theorem find?_emptyEntries {α : Type} (key other : String) (rules : List α) :
    find? (emptyEntries key rules) other =
      if key = other ∧ rules = [] then some (.array []) else none := by
  cases rules with
  | nil => simp [emptyEntries, find?_singleton]
  | cons rule rules => simp [emptyEntries, find?]

/-! ## The text makes up the document -/

theorem reads_toToml (config : Config) :
    ∃ header, Reads start (toToml config) (atLine (document config) header) := by
  have hkeys : (Entries.keys ([] ++ plainEntries config)).Nodup :=
    (keys_plainEntries config).nodup (by decide)
  have hplain : Reads start (plainText config) (atLine (plainEntries config) []) :=
    adds_plainText config [] id leads_root [] hkeys
  have hrename (hne : config.renames ≠ []) : find? (plainEntries config) "rename" = none := by
    simp [plainEntries, hne]
  have hreplace (hne : config.replacements ≠ []) :
      find? (plainEntries config ++ tablesOf "rename" (config.renames.map renameEntries))
        "replace_method" = none := by
    simp [plainEntries, hne]
  have hredirect (hne : config.redirects ≠ []) :
      find? (plainEntries config ++ tablesOf "rename" (config.renames.map renameEntries) ++
        tablesOf "replace_method" (config.replacements.map replaceEntries))
        "redirect_call" = none := by
    simp [plainEntries, hne]
  obtain ⟨_, hrenames⟩ := reads_rules (by decide) adds_writeRename nodup_renameEntries hrename []
  obtain ⟨_, hreplacements⟩ :=
    reads_rules (by decide) adds_writeReplace nodup_replaceEntries hreplace _
  obtain ⟨header, hredirects⟩ :=
    reads_rules (by decide) adds_writeRedirect nodup_redirectEntries hredirect _
  rw [toToml_eq]
  exact ⟨header, ((hplain.append hrenames).append hreplacements).append hredirects⟩

theorem parse_toToml (config : Config) : Toml.parse (toToml config) = some (document config) := by
  obtain ⟨header, hreads⟩ := reads_toToml config
  refine parse_of_reads ?_ hreads
  simp [toToml, writeTexts, writeField, String.toList_append]

/-! ## The document is read as the configuration -/

theorem mapM_map_of_inverse {α β : Type} {write : α → β} {read : β → Option α}
    (h : ∀ value, read (write value) = some value) (values : List α) :
    (values.map write).mapM read = some values := by
  induction values with
  | nil => rfl
  | cons value values ih =>
      rw [List.map_cons, List.mapM_cons, h, ih]
      rfl

section Fields

variable {entries : Entries} {key : String}

theorem texts_eq {found : List String}
    (h : find? entries key = some (.array (found.map .string))) :
    texts entries key = some found := by
  have hread (text : String) : ofString? (.string text) = some text := rfl
  simp only [texts, h]
  exact mapM_map_of_inverse hread found

theorem required_eq {text : String} (h : find? entries key = some (.string text)) :
    required entries key = some text := by
  rw [required, h]
  rfl

theorem optional_eq {text : Option String} (h : find? entries key = text.map .string) :
    optional entries key = some text := by
  rw [optional, h]
  cases text with
  | none => rfl
  | some text => rfl

/-- The value of a list of rules: an empty array, or their tables. -/
def rulesValue {α : Type} (entriesOf : α → Entries) : List α → Value
  | [] => .array []
  | rules => .tables (rules.map entriesOf).reverse

theorem rules_eq {α : Type} {ofValue? : Value → Option α} {entriesOf : α → Entries}
    (hread : ∀ rule, ofValue? (.table .header (entriesOf rule)) = some rule) {found : List α}
    (h : find? entries key = some (rulesValue entriesOf found)) :
    rules ofValue? entries key = some found := by
  have hitems : itemsOf? (rulesValue entriesOf found) =
      some (found.map fun rule => .table .header (entriesOf rule)) := by
    cases found with
    | nil => rfl
    | cons rule rules => simp only [rulesValue, itemsOf?, List.reverse_reverse, List.map_map]; rfl
  simp only [rules, h, hitems]
  exact mapM_map_of_inverse hread found

theorem guard_hasOnly {names : List String} (h : Entries.keys entries ⊆ names) :
    (guard (hasOnly names entries = true) : Option Unit) = some () := by
  refine if_pos ?_
  rw [hasOnly, List.all_eq_true]
  exact fun entry hentry => List.contains_iff_mem.2 (h (List.mem_map_of_mem hentry))

end Fields

theorem renameOfValue?_renameEntries (rule : RenameRule) :
    renameOfValue? (.table .header (renameEntries rule)) = some rule := by
  have hnames : Entries.keys (renameEntries rule) ⊆ ["from", "to"] := List.Subset.refl _
  have hsource : required (renameEntries rule) "from" = some rule.source :=
    required_eq (by simp [renameEntries])
  have htarget : required (renameEntries rule) "to" = some rule.target :=
    required_eq (by simp [renameEntries])
  rw [renameOfValue?, guard_hasOnly hnames]
  simp only [hsource, htarget]
  rfl

theorem patternOf_patternEntries (pattern : MethodPattern) {key : String} (text : String)
    (hkey : key ≠ "descriptor") :
    patternOf (patternEntries pattern ++ textEntries key text) = some pattern := by
  have hclass : required (patternEntries pattern ++ textEntries key text) "class" =
      some pattern.className := required_eq (by simp [patternEntries])
  have hmethod : required (patternEntries pattern ++ textEntries key text) "method" =
      some pattern.method := required_eq (by simp [patternEntries])
  have hdescriptor : optional (patternEntries pattern ++ textEntries key text) "descriptor" =
      some pattern.descriptor := optional_eq (by simp [patternEntries, hkey])
  simp only [patternOf, hclass, hmethod, hdescriptor]
  rfl

theorem replaceOfValue?_replaceEntries (rule : ReplaceRule) :
    replaceOfValue? (.table .header (replaceEntries rule)) = some rule := by
  have hnames : Entries.keys (replaceEntries rule) ⊆ ["class", "method", "descriptor", "action"] :=
    (keys_patternEntries _ _ _).subset
  have hpattern : patternOf (replaceEntries rule) = some rule.pattern :=
    patternOf_patternEntries _ _ (by decide)
  have haction : find? (replaceEntries rule) "action" = some (.string rule.action.key) := by
    simp [replaceEntries, patternEntries]
  have hkey : actionOfValue? (.string rule.action.key) = some rule.action :=
    ReplaceAction.ofKey?_key rule.action
  rw [replaceOfValue?, guard_hasOnly hnames]
  simp only [hpattern, haction, Option.bind_eq_bind, Option.bind_some, hkey]
  rfl

theorem redirectOfValue?_redirectEntries (rule : RedirectRule) :
    redirectOfValue? (.table .header (redirectEntries rule)) = some rule := by
  have hnames : Entries.keys (redirectEntries rule) ⊆ ["class", "method", "descriptor", "target"] :=
    (keys_patternEntries _ _ _).subset
  have hpattern : patternOf (redirectEntries rule) = some rule.pattern :=
    patternOf_patternEntries _ _ (by decide)
  have htarget : required (redirectEntries rule) "target" = some rule.target :=
    required_eq (by simp [redirectEntries, patternEntries])
  rw [redirectOfValue?, guard_hasOnly hnames]
  simp only [hpattern, htarget]
  rfl

theorem ofEntries?_document (config : Config) : ofEntries? (document config) = some config := by
  have htexts {key : String} {found : List String}
      (h : find? (plainEntries config) key = some (.array (found.map .string))) :
      texts (document config) key = some found := texts_eq (by simp [document, h])
  have hrename : rules renameOfValue? (document config) "rename" = some config.renames := by
    refine rules_eq renameOfValue?_renameEntries ?_
    cases h : config.renames <;> simp [document, plainEntries, rulesValue, h]
  have hreplace : rules replaceOfValue? (document config) "replace_method" =
      some config.replacements := by
    refine rules_eq replaceOfValue?_replaceEntries ?_
    cases h : config.replacements <;> simp [document, plainEntries, rulesValue, h]
  have hredirect : rules redirectOfValue? (document config) "redirect_call" =
      some config.redirects := by
    refine rules_eq redirectOfValue?_redirectEntries ?_
    cases h : config.redirects <;> simp [document, plainEntries, rulesValue, h]
  have hroot : optional (document config) "stub_prefix" = some config.stubRoot :=
    optional_eq (by simp [document, plainEntries])
  have hderived : texts (document config) "derived_from" = some config.derivedFrom :=
    htexts (by simp [plainEntries])
  have hinclude : texts (document config) "include" = some config.includes :=
    htexts (by simp [plainEntries])
  have hexclude : texts (document config) "exclude" = some config.excludes :=
    htexts (by simp [plainEntries])
  have hfiles : texts (document config) "exclude_files" = some config.excludedFiles :=
    htexts (by simp [plainEntries])
  have hnatives : texts (document config) "delegate_natives" = some config.delegatedNatives :=
    htexts (by simp [plainEntries])
  have hclasses : texts (document config) "promote_classes" = some config.promotedClasses :=
    htexts (by simp [plainEntries])
  have hfields : texts (document config) "promote_fields" = some config.promotedFields :=
    htexts (by simp [plainEntries])
  have hmethods : texts (document config) "promote_methods" = some config.promotedMethods :=
    htexts (by simp [plainEntries])
  rw [ofEntries?, guard_hasOnly (keys_document config)]
  simp only [hderived, hinclude, hexclude, hfiles, hrename, hreplace, hnatives, hredirect,
    hclasses, hfields, hmethods, hroot]
  rfl

/-- A configuration that is written as TOML is read back as it is. -/
theorem ofToml_toToml (config : Config) : ofToml (toToml config) = .ok config := by
  rw [ofToml, parse_toToml, Option.bind_eq_bind, Option.bind_some, ofEntries?_document]
  rfl

end JarTailor.Config
