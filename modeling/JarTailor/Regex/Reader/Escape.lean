import JarTailor.Regex.Reader.Basic
import JarTailor.Text.Hex

/-!
# Escapes

A backslash takes its meaning from the character of a sign, or gives a meaning to a letter.
-/

namespace JarTailor.Regex.Reader

/-- Reads so many hexadecimal digits, the first of which comes next. -/
def hexDigits : Nat → Reader (List Nat)
  | 0 => return []
  | count + 1 => do
      match ← next? with
      | none => reject .escapeUnexpectedEnd (← here)
      | some c =>
          match Text.hexDigit? c with
          | none => reject .escapeHexInvalidDigit (← nextSpan)
          | some digit =>
              advance
              return digit :: (← hexDigits count)

def bracedHexDigits (brace : Spot) : List Char → Reader (List Nat)
  | [] => do reject .escapeUnexpectedEnd (← spanFrom brace)
  | _ :: bound => do
      match ← next? with
      | none => reject .escapeUnexpectedEnd (← spanFrom brace)
      | some '\x7d' => return []
      | some c =>
          match Text.hexDigit? c with
          | none => reject .escapeHexInvalidDigit (← nextSpan)
          | some digit =>
              advance
              return digit :: (← bracedHexDigits brace bound)

/-- Reads a character by number, from the letter that says how many digits follow on. -/
def numbered (start : Spot) (letter : Char) : Reader Pattern := do
  advance
  match ← next? with
  | none => reject .escapeUnexpectedEnd (← here)
  | some '\x7b' =>
      let brace ← spot
      let first := (← nextSpan).stop
      advance
      let digits ← bracedHexDigits brace ('\x7d' :: (← get).rest)
      let last ← spot
      advance
      if digits.isEmpty then reject .escapeHexEmpty (← spanFrom brace)
      match Text.numbered? digits with
      | none => reject .escapeHexInvalid ⟨first, last⟩
      | some char => return .literal { span := ⟨start, last⟩, char }
  | some _ =>
      let first ← spot
      let digits ← hexDigits (if letter = 'x' then 2 else if letter = 'u' then 4 else 8)
      match Text.numbered? digits with
      | none => reject .escapeHexInvalid (← spanFrom first)
      | some char =>
          return .literal { span := ← spanFrom start, char, isByte := letter == 'x' }

/-- A text cut at the first occurrence of a mark. -/
def cutAt? (mark : List Char) : List Char → Option (List Char × List Char)
  | [] => none
  | c :: rest =>
      if mark.isPrefixOf (c :: rest) then some ([], (c :: rest).drop mark.length)
      else (cutAt? mark rest).map fun (before, after) => (c :: before, after)

/-- The class that the text between braces means, and whether its complement is meant. -/
def propertyOf (text : List Char) : Bool × ClassName :=
  let pair (parts : List Char × List Char) : ClassName :=
    .propertyValue (.ofList parts.1) (.ofList parts.2)
  match cutAt? ['!', '='] text with
  | some parts => (true, pair parts)
  | none =>
      match (cutAt? [':'] text).orElse fun _ => cutAt? ['='] text with
      | some parts => (false, pair parts)
      | none => (false, .property (.ofList text))

/-- Reads a property, from its letter on. -/
def property (start : Spot) (negated : Bool) : Reader Pattern := do
  advance
  match ← next? with
  | none => reject .escapeUnexpectedEnd (← here)
  | some '\x7b' =>
      advance
      let text ← takeAll (· ≠ '\x7d')
      if (← next?).isNone then reject .escapeUnexpectedEnd (← here)
      take
      let (isOther, name) := propertyOf text
      return .named (← spanFrom start) (negated != isOther) name
  | some '\\' => reject .unicodeClassInvalid (← nextSpan)
  | some c =>
      advance
      return .named (← spanFrom start) negated (.property (.singleton c))

def isSpecialChar (c : Char) : Bool :=
  c.isAlpha || c == '-'

/-- Reads what may follow the letter of a word boundary in braces. What cannot be such a name is
left for a repetition to take. -/
def specialBoundary? (start : Spot) : Reader (Option Assertion) := do
  let before ← get
  let brace := before.spot
  advance
  match ← next? with
  | none => reject .wordBoundaryUnexpectedEnd (← spanFrom start)
  | some c =>
      if !isSpecialChar c then
        set before
        return none
      let first ← spot
      let name ← takeAll isSpecialChar
      if (← next?) ≠ some '\x7d' then reject .wordBoundaryUnclosed (← spanFrom brace)
      let last ← spot
      take
      match String.ofList name with
      | "start" => return some .wordStart
      | "end" => return some .wordEnd
      | "start-half" => return some .wordStartHalf
      | "end-half" => return some .wordEndHalf
      | _ => reject .wordBoundaryUnrecognized ⟨first, last⟩

/-- Whether a backslash before a character of ASCII only says that it is meant itself. -/
def isPlainEscape (c : Char) : Bool :=
  c.toNat < 0x80 && !c.isAlphanum && c ≠ '<' && c ≠ '>'

/-- The characters that have letters of their own. -/
def controlEscapes : List (Char × Char) :=
  [('a', '\x07'), ('f', '\x0c'), ('t', '\t'), ('n', '\n'), ('r', '\r'), ('v', '\x0b')]

def assertionEscapes : List (Char × Assertion) :=
  [('A', .textStart), ('z', .textEnd), ('B', .notWordBoundary), ('<', .wordStart),
    ('>', .wordEnd)]

/-- The kinds of characters that have letters of their own; an upper-case letter means all
others. -/
def classEscapes : List (Char × Bool × ClassName) :=
  [('d', false, .digit), ('D', true, .digit), ('s', false, .space), ('S', true, .space),
    ('w', false, .word), ('W', true, .word)]

/-- What a backslash and a single character mean. -/
def shortEscape (span : Span) (c : Char) : Reader Pattern := do
  if isPlainEscape c then return .literal { span, char := c }
  match controlEscapes.lookup c, assertionEscapes.lookup c, classEscapes.lookup c with
  | some char, _, _ => return .literal { span, char }
  | _, some assertion, _ => return .assertion span assertion
  | _, _, some (negated, name) => return .named span negated name
  | _, _, _ => reject .escapeUnrecognized span

/-- Reads an escape, from its backslash on. -/
def escape : Reader Pattern := do
  let start ← spot
  take
  match ← next? with
  | none => reject .escapeUnexpectedEnd (← spanFrom start)
  | some c =>
      if c.isDigit then reject .backreference ⟨start, (← nextSpan).stop⟩
      else if c = 'x' || c = 'u' || c = 'U' then numbered start c
      else if c = 'p' || c = 'P' then property start (c == 'P')
      else
        take
        let span ← spanFrom start
        if c ≠ 'b' then shortEscape span c
        else if (← next?) ≠ some '\x7b' then return .assertion span .wordBoundary
        else
          match ← specialBoundary? start with
          | some assertion => return .assertion (← spanFrom start) assertion
          | none => return .assertion span .wordBoundary

end JarTailor.Regex.Reader
