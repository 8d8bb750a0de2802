import JarTailor.Regex.Basic
import JarTailor.Regex.Property
import JarTailor.Regex.Reader
import JarTailor.Regex.Size

/-!
# What patterns mean

Flags hold from where they stand to the end of the group around them. Texts are made of characters,
so without the flag `u`, when patterns are about bytes, only sets of ASCII characters are allowed.
-/

namespace JarTailor

namespace Regex

structure Flags where
  ignoreCase : Bool := false
  /-- Whether lines count where otherwise the text does. -/
  multiLine : Bool := false
  /-- Whether a point means line ends too. -/
  dotAll : Bool := false
  /-- Whether a carriage return ends a line too. -/
  returns : Bool := false
  unicode : Bool := true
deriving Repr, DecidableEq, Inhabited

namespace Flags

def update (flags : Flags) (items : List FlagItem) : Flags where
  ignoreCase := (flagState 'i' items).getD flags.ignoreCase
  multiLine := (flagState 'm' items).getD flags.multiLine
  dotAll := (flagState 's' items).getD flags.dotAll
  returns := (flagState 'R' items).getD flags.returns
  unicode := (flagState 'u' items).getD flags.unicode

/-- A set with what differs from its members in case only, where case is ignored. -/
def close (flags : Flags) (set : CharSet) : CharSet :=
  if !flags.ignoreCase then set
  else if flags.unicode then .anyCase set
  else .anyAsciiCase set

/-- A set or its complement, which has characters outside of ASCII. -/
def select (flags : Flags) (span : Span) (negated : Bool) (set : CharSet) :
    Except Fault CharSet :=
  if !negated then .ok set
  else if flags.unicode then .ok (.complement set)
  else .error { kind := .invalidUtf8, span }

def word (flags : Flags) : CharSet :=
  if flags.unicode then .word else .asciiWord

end Flags

def asciiSet : String → CharSet
  | "alnum" => .ofRanges [('0', '9'), ('A', 'Z'), ('a', 'z')]
  | "alpha" => .ofRanges [('A', 'Z'), ('a', 'z')]
  | "ascii" => .range '\x00' '\x7f'
  | "blank" => .ofRanges [('\t', '\t'), (' ', ' ')]
  | "cntrl" => .ofRanges [('\x00', '\x1f'), ('\x7f', '\x7f')]
  | "digit" => .asciiDigit
  | "graph" => .range '!' '~'
  | "lower" => .range 'a' 'z'
  | "print" => .range ' ' '~'
  | "punct" => .ofRanges [('!', '/'), (':', '@'), ('[', '\x60'), ('\x7b', '~')]
  | "space" => .asciiSpace
  | "upper" => .range 'A' 'Z'
  | "word" => .asciiWord
  | "xdigit" => .ofRanges [('0', '9'), ('A', 'F'), ('a', 'f')]
  | _ => .nothing

def propertySet (span : Span) : ClassName → Except Fault CharSet
  | .property name =>
      match Property.named? name with
      | some set => .ok set
      | none => .error { kind := .propertyNotFound, span }
  | .propertyValue name value =>
      if !Property.isCategory name then .error { kind := .propertyNotFound, span }
      else
        match Property.valued? value with
        | some set => .ok set
        | none => .error { kind := .propertyValueNotFound, span }
  | _ => .ok .nothing

def namedSet (flags : Flags) (span : Span) (negated : Bool) (name : ClassName) :
    Except Fault CharSet := do
  match name with
  | .digit =>
      flags.select span negated (if flags.unicode then .categories ["Nd"] else .asciiDigit)
  | .space => flags.select span negated (if flags.unicode then .space else .asciiSpace)
  | .word => flags.select span negated flags.word
  | .ascii name => flags.select span negated (flags.close (asciiSet name))
  | name =>
      if !flags.unicode then throw { kind := .unicodeNotAllowed, span }
      flags.select span negated (flags.close (← propertySet span name))

/-- Without Unicode, a number of two digits is about a byte. -/
def checkByte (flags : Flags) (lit : Literal) : Except Fault Unit :=
  if !flags.unicode && lit.isByte && 0x80 ≤ lit.char.toNat then
    .error { kind := .invalidUtf8, span := lit.span }
  else .ok ()

def classChar (flags : Flags) (lit : Literal) : Except Fault Char := do
  checkByte flags lit
  if !flags.unicode && 0x80 ≤ lit.char.toNat then
    throw { kind := .unicodeNotAllowed, span := lit.span }
  return lit.char

def ClassOperator.apply : ClassOperator → CharSet → CharSet → CharSet
  | .intersection, left, right => .inter left right
  | .difference, left, right => .diff left right
  | .symmetricDifference, left, right => .union (.diff left right) (.diff right left)

mutual

/-- The characters that something in brackets means. -/
def ClassTree.meaning (flags : Flags) : ClassTree → Except Fault CharSet
  | .empty _ => .ok .nothing
  | .literal lit => return .single (← classChar flags lit)
  | .range first last => return .range (← classChar flags first) (← classChar flags last)
  | .named span negated name => namedSet flags span negated name
  | .bracketed span negated content => do
      flags.select span negated (flags.close (← meaning flags content))
  | .union _ items => meanings flags items
  | .operation operator left right => do
      let left ← meaning flags left
      let right ← meaning flags right
      return operator.apply (flags.close left) (flags.close right)
termination_by structural tree => tree

def ClassTree.meanings (flags : Flags) : List ClassTree → Except Fault CharSet
  | [] => .ok .nothing
  | item :: items => return .union (← meaning flags item) (← meanings flags items)
termination_by structural trees => trees

end

def dotSet (flags : Flags) : CharSet :=
  if flags.dotAll then .everything
  else if flags.returns then .complement (.union (.single '\n') (.single '\r'))
  else .complement (.single '\n')

def Assertion.meaning (flags : Flags) : Assertion → Look
  | .textStart => .textStart
  | .textEnd => .textEnd
  | .lineStart => if flags.multiLine then .lineStart flags.returns else .textStart
  | .lineEnd => if flags.multiLine then .lineEnd flags.returns else .textEnd
  | .wordBoundary => .wordBoundary flags.word
  | .notWordBoundary => .notWordBoundary flags.word
  | .wordStart => .wordStart flags.word
  | .wordEnd => .wordEnd flags.word
  | .wordStartHalf => .wordStartHalf flags.word
  | .wordEndHalf => .wordEndHalf flags.word

mutual

/-- The expression that a pattern means, and the flags for what follows. -/
def Pattern.meaning (flags : Flags) : Pattern → Except Fault (Regex × Flags)
  | .empty _ => .ok (.empty, flags)
  | .flags _ items => .ok (.empty, flags.update items)
  | .literal lit => do
      checkByte flags lit
      return (.chars (flags.close (.single lit.char)), flags)
  | .dot span =>
      if flags.unicode then .ok (.chars (dotSet flags), flags)
      else .error { kind := .invalidUtf8, span }
  | .assertion _ wanted => .ok (.look (wanted.meaning flags), flags)
  | .named span negated name => return (.chars (← namedSet flags span negated name), flags)
  | .bracketed span negated content => do
      let set ← content.meaning flags
      return (.chars (← flags.select span negated (flags.close set)), flags)
  | .repeated _ body least most => do
      let (body, flags) ← meaning flags body
      return (.repeated body least most, flags)
  | .group _ items body => return ((← meaning (flags.update items) body).1, flags)
  | .alternation _ branches => inTurn .either (.chars .nothing) flags branches
  | .concat _ items => inTurn .concat .empty flags items
termination_by structural pattern => pattern

/-- Joins the meanings of patterns, each of which hands on its flags. -/
def Pattern.inTurn (join : Regex → Regex → Regex) (last : Regex) (flags : Flags) :
    List Pattern → Except Fault (Regex × Flags)
  | [] => .ok (last, flags)
  | item :: items => do
      let (first, flags) ← meaning flags item
      let (others, flags) ← inTurn join last flags items
      return (join first others, flags)
termination_by structural patterns => patterns

end

/-- Why a text is not taken as a regular expression. -/
inductive Refusal where
  | fault (found : Fault)
  | tooLarge
deriving Repr, DecidableEq, Inhabited

def Refusal.explain (text : String) : Refusal → String
  | .fault found => found.explain text
  | .tooLarge => s!"Compiled regex exceeds size limit of {sizeLimit} bytes."

def ofText (text : String) : Except Refusal Regex := do
  let pattern ← (Pattern.ofText text).mapError .fault
  let (regex, _) ← (pattern.meaning {}).mapError .fault
  if sizeLimit < regex.size then throw .tooLarge
  return regex

end Regex

end JarTailor
