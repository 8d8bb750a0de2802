import JarTailor.Log
import JarTailor.Regex.Meaning
import JarTailor.Text.Split

/-!
# Log filters

A filter lets a line through up to a level, which may depend on the line's target. Of the
directives whose name the target begins with, the longest decides. A regular expression may narrow
the lines further.
-/

namespace JarTailor

/-- The least important level that passes; `none` lets nothing through. -/
abbrev LevelLimit := Option Level

def LevelLimit.allows (limit : LevelLimit) (level : Level) : Bool :=
  limit.any fun last => level.rank ≤ last.rank

structure LogDirective where
  target : String
  limit : LevelLimit
deriving Repr, DecidableEq, Inhabited

structure LogFilter where
  /-- The limit for targets that no directive is about. -/
  otherwise : LevelLimit
  directives : List LogDirective := []
  /-- What a line's text has to match somewhere. -/
  pattern : Option Regex := none
deriving Repr, DecidableEq, Inhabited

namespace LogFilter

/-- The limit for a target. Of two directives for one name the later one counts. -/
def limitFor (filter : LogFilter) (target : String) : LevelLimit :=
  let start : LogDirective := ⟨"", filter.otherwise⟩
  (filter.directives.foldl (fun best directive =>
    if Text.startsWith directive.target target && best.target.length ≤ directive.target.length
    then directive else best) start).limit

def allows (filter : LogFilter) (line : LogLine) : Bool :=
  (filter.limitFor line.topic.target).allows line.level &&
    filter.pattern.all (·.isFoundIn line.text)

def limitNamed? (name : String) : Option LevelLimit :=
  match name.map Char.toLower with
  | "off" => some none
  | "error" => some (some .error)
  | "warn" => some (some .warn)
  | "info" => some (some .info)
  | "debug" => some (some .debug)
  | "trace" => some (some .trace)
  | _ => none

/-- A part of a filter's text that says nothing. -/
inductive BadPart where
  | directive (text : String)
  /-- The whole text, if more than one slash leaves open where the pattern is. -/
  | slashes (text : String)
  | pattern (text : String) (refusal : Regex.Refusal)
deriving Repr, DecidableEq, Inhabited

def BadPart.reason : BadPart → String
  | .directive text => s!"invalid logging spec '{text}'"
  | .slashes text => s!"invalid logging spec '{text}' (too many '/'s)"
  | .pattern text refusal => s!"invalid regex filter - {refusal.explain text}"

def BadPart.warning (part : BadPart) : String :=
  s!"warning: {part.reason}, ignoring it"

/-- Reads one part: a level for everything, a name, or a name with a level. A name alone lets
everything of that name through. -/
def addPart (filter : LogFilter) (part : String) : Except BadPart LogFilter :=
  let about (target : String) (limit : LevelLimit) : LogFilter :=
    { filter with directives := filter.directives ++ [⟨target, limit⟩] }
  match Text.split '=' part with
  | [name] =>
      match limitNamed? name with
      | some limit => return { filter with otherwise := limit }
      | none => return about name (some .trace)
  | [name, level] =>
      let level := Text.trim level
      if level = "" then return about name (some .trace)
      else
        match limitNamed? level with
        | some limit => return about name limit
        | none => throw (.directive level)
  | _ => throw (.directive part)

/-- Reads the parts in order. Those that say nothing are left out and told about. -/
def addParts (filter : LogFilter) : List String → LogFilter × List BadPart
  | [] => (filter, [])
  | part :: parts =>
      match Text.trim part with
      | "" => addParts filter parts
      | part =>
          match filter.addPart part with
          | .ok filter => addParts filter parts
          | .error bad =>
              let (filter, others) := addParts filter parts
              (filter, bad :: others)

/-- Reads a filter: parts between commas and, after a slash, a pattern. -/
def parse (otherwise : LevelLimit) (text : String) : LogFilter × List BadPart :=
  let filter : LogFilter := { otherwise }
  match Text.split '/' text with
  | [parts] => filter.addParts (Text.split ',' parts)
  | [parts, pattern] =>
      let (filter, bad) := filter.addParts (Text.split ',' parts)
      match Regex.ofText pattern with
      | .ok regex => ({ filter with pattern := some regex }, bad)
      | .error refusal => (filter, bad ++ [.pattern pattern refusal])
  | _ => (filter, [.slashes text])

end LogFilter

namespace LogLine

/-- A line as it is shown. Further lines of its text are indented. -/
def render (line : LogLine) : String :=
  let label := line.level.label
  let padding := String.ofList (List.replicate (5 - label.length) ' ')
  s!"[{label}{padding}] " ++ "\n    ".intercalate (Text.split '\n' line.text)

end LogLine

end JarTailor
