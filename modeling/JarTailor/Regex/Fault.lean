import JarTailor.Text.Split

/-!
# Faults of patterns

A pattern that is no regular expression has a fault at a certain stretch of its text. Its
explanation shows the pattern with that stretch underlined.
-/

namespace JarTailor.Regex

/-- A place in a pattern; lines and columns are counted from one. -/
structure Spot where
  line : Nat
  column : Nat
deriving Repr, DecidableEq, Inhabited

def Spot.first : Spot := ⟨1, 1⟩

def Spot.after (spot : Spot) (c : Char) : Spot :=
  if c = '\n' then ⟨spot.line + 1, 1⟩ else ⟨spot.line, spot.column + 1⟩

structure Span where
  start : Spot
  stop : Spot
deriving Repr, DecidableEq, Inhabited

namespace Span

def empty (spot : Spot) : Span := ⟨spot, spot⟩

def through (first last : Span) : Span := ⟨first.start, last.stop⟩

def isOneLine (span : Span) : Bool := span.start.line == span.stop.line

end Span

inductive FaultKind where
  | classEscapeInvalid
  | classRangeInvalid
  | classRangeLiteral
  | classUnclosed
  | decimalInvalid
  | escapeHexEmpty
  | escapeHexInvalid
  | escapeHexInvalidDigit
  | escapeUnexpectedEnd
  | escapeUnrecognized
  | flagDanglingNegation
  | flagDuplicate
  | flagRepeatedNegation
  | flagUnexpectedEnd
  | flagUnrecognized
  | groupNameDuplicate
  | groupNameEmpty
  | groupNameInvalid
  | groupNameUnexpectedEnd
  | groupUnclosed
  | groupUnopened
  | nestLimitExceeded (limit : Nat)
  | repetitionCountInvalid
  | repetitionCountEmpty
  | repetitionCountUnclosed
  | repetitionMissing
  | wordBoundaryUnclosed
  | wordBoundaryUnrecognized
  | wordBoundaryUnexpectedEnd
  | unicodeClassInvalid
  | backreference
  | lookAround
  | unicodeNotAllowed
  | invalidUtf8
  | propertyNotFound
  | propertyValueNotFound
deriving Repr, DecidableEq, Inhabited

def FaultKind.message : FaultKind → String
  | .classEscapeInvalid => "invalid escape sequence found in character class"
  | .classRangeInvalid => "invalid character class range, the start must be <= the end"
  | .classRangeLiteral => "invalid range boundary, must be a literal"
  | .classUnclosed => "unclosed character class"
  | .decimalInvalid => "decimal literal invalid"
  | .escapeHexEmpty => "hexadecimal literal empty"
  | .escapeHexInvalid => "hexadecimal literal is not a Unicode scalar value"
  | .escapeHexInvalidDigit => "invalid hexadecimal digit"
  | .escapeUnexpectedEnd => "incomplete escape sequence, reached end of pattern prematurely"
  | .escapeUnrecognized => "unrecognized escape sequence"
  | .flagDanglingNegation => "dangling flag negation operator"
  | .flagDuplicate => "duplicate flag"
  | .flagRepeatedNegation => "flag negation operator repeated"
  | .flagUnexpectedEnd => "expected flag but got end of regex"
  | .flagUnrecognized => "unrecognized flag"
  | .groupNameDuplicate => "duplicate capture group name"
  | .groupNameEmpty => "empty capture group name"
  | .groupNameInvalid => "invalid capture group character"
  | .groupNameUnexpectedEnd => "unclosed capture group name"
  | .groupUnclosed => "unclosed group"
  | .groupUnopened => "unopened group"
  | .nestLimitExceeded limit =>
      s!"exceed the maximum number of nested parentheses/brackets ({limit})"
  | .repetitionCountInvalid => "invalid repetition count range, the start must be <= the end"
  | .repetitionCountEmpty => "repetition quantifier expects a valid decimal"
  | .repetitionCountUnclosed => "unclosed counted repetition"
  | .repetitionMissing => "repetition operator missing expression"
  | .wordBoundaryUnclosed =>
      "special word boundary assertion is either unclosed or contains an invalid character"
  | .wordBoundaryUnrecognized =>
      "unrecognized special word boundary assertion, valid choices are: start, end, start-half " ++
        "or end-half"
  | .wordBoundaryUnexpectedEnd =>
      "found either the beginning of a special word boundary or a bounded repetition on a \\b " ++
        "with an opening brace, but no closing brace"
  | .unicodeClassInvalid => "invalid Unicode character class"
  | .backreference => "backreferences are not supported"
  | .lookAround => "look-around, including look-ahead and look-behind, is not supported"
  | .unicodeNotAllowed => "Unicode not allowed here"
  | .invalidUtf8 => "pattern can match invalid UTF-8"
  | .propertyNotFound => "Unicode property not found"
  | .propertyValueNotFound => "Unicode property value not found"

structure Fault where
  kind : FaultKind
  span : Span
  /-- An earlier stretch that the fault refers to. -/
  earlier : Option Span := none
deriving Repr, DecidableEq, Inhabited

namespace Fault

/-- A line without the carriage return at its end. -/
def withoutReturn (line : List Char) : List Char :=
  if line.getLast? = some '\r' then line.dropLast else line

/-- The lines of a pattern without their ends. -/
def patternLines (pattern : List Char) : List (List Char) :=
  let pieces := Text.pieces '\n' pattern
  let rest := pieces.getLast?.toList.filter (!·.isEmpty)
  pieces.dropLast.map withoutReturn ++ rest

/-- Underlines stretches of one line, which come in order, from a column on. -/
def underline (column : Nat) : List Span → List Char
  | [] => []
  | span :: spans =>
      let gap := span.start.column - column
      let width := max 1 (span.stop.column - span.start.column)
      List.replicate gap ' ' ++ List.replicate width '^' ++ underline (column + gap + width) spans

def padded (width : Nat) (text : String) : List Char :=
  List.replicate (width - text.length) ' ' ++ text.toList

/-- A line of a pattern behind its margin, and the line that underlines its faulty stretches. A
margin with line numbers is as wide as the longest of them. -/
def drawLine (width : Nat) (spans : List Span) (number : Nat) (line : List Char) : List Char :=
  let margin := if width = 0 then 4 else width + 2
  let label := if width = 0 then [] else padded width (toString number) ++ [':']
  let here := spans.filter (·.start.line == number)
  let notes :=
    if here.isEmpty then [] else List.replicate margin ' ' ++ underline 1 here ++ ['\n']
  label ++ List.replicate (margin - label.length) ' ' ++ line ++ ['\n'] ++ notes

def spans (fault : Fault) : List Span :=
  match fault.earlier with
  | none => [fault.span]
  | some span =>
      let isBefore :=
        if span.start.line = fault.span.start.line then span.start.column ≤ fault.span.start.column
        else span.start.line < fault.span.start.line
      if isBefore then [span, fault.span] else [fault.span, span]

def draw (fault : Fault) (pattern : List Char) : String :=
  let lines := patternLines pattern
  let count := lines.length + if pattern.getLast? = some '\n' then 1 else 0
  let width := if count ≤ 1 then 0 else (toString count).length
  let shown := fault.spans.filter Span.isOneLine
  String.ofList (lines.mapIdx fun index line => drawLine width shown (index + 1) line).flatten

/-- Says over which lines a stretch goes. -/
def note (span : Span) : String :=
  s!"on line {span.start.line} (column {span.start.column}) " ++
    s!"through line {span.stop.line} (column {span.stop.column - 1})\n"

def explain (fault : Fault) (pattern : String) : String :=
  let content := pattern.toList
  let drawing := fault.draw content
  let notes := (fault.spans.filter (!·.isOneLine)).map note
  let divider := String.ofList (List.replicate 79 '~') ++ "\n"
  "regex parse error:\n" ++
    (if content.contains '\n' then divider ++ drawing ++ divider ++ String.join notes
      else drawing) ++
    s!"error: {fault.kind.message}"

end Fault

end JarTailor.Regex
