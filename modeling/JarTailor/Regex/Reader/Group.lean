import JarTailor.Regex.Reader.Basic
import JarTailor.Text.Category

/-!
# Groups

A group may have a name, or flags of its own. What is read of the groups around the place reached
is kept in a list, the innermost first.
-/

namespace JarTailor.Regex.Reader

/-- What is read of a group: the finished branches and the items of the open one, the last one
first, and where the group and the open branch begin. -/
structure Level where
  start : Spot
  branches : List Pattern
  branchStart : Spot
  items : List Pattern
deriving Repr, Inhabited

namespace Level

def startAt (spot : Spot) : Level := ⟨spot, [], spot, []⟩

def push (level : Level) (item : Pattern) : Level :=
  { level with items := item :: level.items }

def branch (level : Level) (stop : Spot) : Pattern :=
  .ofItems ⟨level.branchStart, stop⟩ level.items.reverse

/-- Everything that was read, up to a place. -/
def close (level : Level) (stop : Spot) : Pattern :=
  if level.branches.isEmpty then level.branch stop
  else .alternation ⟨level.start, stop⟩ (level.branch stop :: level.branches).reverse

end Level

structure OpenGroup where
  span : Span
  flags : List FlagItem
  outer : Level
  /-- Whether blanks are passed over outside. -/
  verbose : Bool
deriving Repr, Inhabited

structure Progress where
  level : Level
  groups : List OpenGroup
  /-- The names of groups, with where they stand. -/
  names : List (List Char × Span)
deriving Repr, Inhabited

def Progress.push (progress : Progress) (item : Pattern) : Progress :=
  { progress with level := progress.level.push item }

def flagLetters : List Char :=
  ['i', 'm', 's', 'U', 'u', 'R', 'x']

def flagItem (c : Char) : Reader FlagItem := do
  if c = '-' then return .negation
  if !flagLetters.contains c then reject .flagUnrecognized (← nextSpan)
  return .flag c

/-- Reads flags up to the colon or parenthesis that ends them, after those in `items`, the last one
first. -/
def flagItems (items : List (FlagItem × Span)) : List Char → Reader (List FlagItem)
  | [] => do reject .flagUnexpectedEnd (← here)
  | _ :: bound => do
      match ← next? with
      | none => reject .flagUnexpectedEnd (← here)
      | some c =>
          if c = ':' || c = ')' then
            match items with
            | (.negation, span) :: _ => reject .flagDanglingNegation span
            | _ => return (items.map Prod.fst).reverse
          let item ← flagItem c
          let span ← nextSpan
          if let some earlier := items.lookup item then
            let kind := if c = '-' then FaultKind.flagRepeatedNegation else .flagDuplicate
            reject kind span (some earlier)
          take
          flagItems ((item, span) :: items) bound

def isNameChar (isFirst : Bool) (c : Char) : Bool :=
  c == '_' || if isFirst then Text.isLetter c
    else c == '.' || c == '[' || c == ']' || Text.isLetterOrNumber c

/-- Reads the characters of a name up to the sign that ends it. -/
def nameChars (isFirst : Bool) : List Char → Reader (List Char)
  | [] => do reject .groupNameUnexpectedEnd (← here)
  | _ :: bound => do
      match ← next? with
      | none => reject .groupNameUnexpectedEnd (← here)
      | some '>' => return []
      | some c =>
          if !isNameChar isFirst c then reject .groupNameInvalid (← nextSpan)
          take
          return c :: (← nameChars false bound)

def groupName (names : List (List Char × Span)) : Reader (List Char × Span) := do
  let start ← spot
  let name ← nameChars true ('>' :: (← get).rest)
  let span ← spanFrom start
  take
  if name.isEmpty then reject .groupNameEmpty (.empty start)
  if let some earlier := names.lookup name then reject .groupNameDuplicate span (some earlier)
  return (name, span)

/-- Takes the first of some texts that comes next, if one does. -/
def acceptAny : List String → Reader Bool
  | [] => return false
  | text :: texts => do
      if ← accept text then return true
      acceptAny texts

def enter (progress : Progress) (span : Span) (flags : List FlagItem) : Reader Progress := do
  let cursor ← get
  let group := ⟨span, flags, progress.level, cursor.verbose⟩
  set { cursor with verbose := (flagState 'x' flags).getD cursor.verbose }
  return { progress with groups := group :: progress.groups, level := .startAt cursor.spot }

/-- Reads a parenthesis and what belongs to it: a name, or flags, which may be all there is. -/
def openGroup (progress : Progress) : Reader Progress := do
  let span ← nextSpan
  advance
  if ← acceptAny ["?=", "?!", "?<=", "?<!"] then reject .lookAround (← spanFrom span.start)
  let mark ← here
  if ← acceptAny ["?P<", "?<"] then
    let name ← groupName progress.names
    enter { progress with names := name :: progress.names } span []
  else if ← accept "?" then
    if (← next?).isNone then reject .groupUnclosed span
    let flags ← flagItems [] (':' :: (← get).rest)
    let isAll := (← next?) == some ')'
    take
    if !isAll then enter progress span flags
    else if flags.isEmpty then reject .repetitionMissing mark
    else
      modify fun cursor => { cursor with verbose := (flagState 'x' flags).getD cursor.verbose }
      return progress.push (.flags (← spanFrom span.start) flags)
  else enter progress span []

def closeGroup (progress : Progress) : Reader Progress := do
  match progress.groups with
  | [] => reject .groupUnopened (← nextSpan)
  | group :: groups =>
      let body := progress.level.close (← spot)
      modify fun cursor => { cursor with verbose := group.verbose }
      take
      let item := Pattern.group (← spanFrom group.span.start) group.flags body
      return { progress with groups, level := group.outer.push item }

def nextBranch (progress : Progress) : Reader Progress := do
  let level := progress.level
  let branches := level.branch (← spot) :: level.branches
  take
  return { progress with level := { level with branches, branchStart := ← spot, items := [] } }

end JarTailor.Regex.Reader
