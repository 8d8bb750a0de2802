import JarTailor.Regex.Reader.Class
import JarTailor.Regex.Reader.Repetition

/-!
# Reading patterns

A pattern is read from left to right. Each step takes a character at least, so a pattern has as
many steps as characters at most.
-/

namespace JarTailor.Regex

namespace Reader

/-- Reads one character that stands for itself, or a point or anchor. -/
def single (c : Char) : Reader Pattern := do
  let span ← nextSpan
  take
  match c with
  | '.' => return .dot span
  | '^' => return .assertion span .lineStart
  | '$' => return .assertion span .lineEnd
  | char => return .literal { span, char }

def step (progress : Progress) : Char → Reader Progress
  | '(' => openGroup progress
  | ')' => closeGroup progress
  | '|' => nextBranch progress
  | '[' => return progress.push (← bracketed)
  | '?' => repetition progress 0 (some 1)
  | '*' => repetition progress 0 none
  | '+' => repetition progress 1 none
  | '\x7b' => countedRepetition progress
  | '\\' => return progress.push (← escape)
  | c => return progress.push (← single c)

def steps : List Char → Progress → Reader Progress
  | [], progress => return progress
  | _ :: bound, progress => do
      skipBlanks
      match ← next? with
      | none => return progress
      | some c => steps bound (← step progress c)

def whole (text : List Char) : Reader Pattern := do
  let progress ← steps text ⟨.startAt (← spot), [], []⟩
  skipBlanks
  match progress.groups with
  | [] => return progress.level.close (← spot)
  | group :: _ => reject .groupUnclosed group.span

end Reader

def Pattern.ofText (text : String) : Except Fault Pattern := do
  let cursor : Cursor := ⟨text.toList, .first, false⟩
  let (pattern, _) ← (Reader.whole text.toList).run cursor
  pattern.checkDepth 0
  return pattern

end JarTailor.Regex
