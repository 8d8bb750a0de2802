import JarTailor.Regex.Fault

/-!
# Patterns

A pattern is what the text of a regular expression says, before flags and names have been given
their meaning. Its parts know where they stand in the text.
-/

namespace JarTailor.Regex

/-- A flag, or the sign that the flags after it are taken back. -/
inductive FlagItem where
  | negation
  | flag (letter : Char)
deriving Repr, DecidableEq, Inhabited

/-- Whether flags set a flag or take it back; `none` if they do not name it. -/
def flagState (letter : Char) (items : List FlagItem) : Option Bool :=
  if !items.contains (.flag letter) then none
  else some (!(items.takeWhile (· ≠ .flag letter)).contains .negation)

/-- Classes of characters that have a name. -/
inductive ClassName where
  | digit
  | space
  | word
  | ascii (name : String)
  | property (name : String)
  | propertyValue (name value : String)
deriving Repr, DecidableEq, Inhabited

/-- A character as it stands in a pattern; `isByte` when two hexadecimal digits number it. -/
structure Literal where
  span : Span
  char : Char
  isByte : Bool := false
deriving Repr, DecidableEq, Inhabited

inductive ClassOperator where
  | intersection
  | difference
  | symmetricDifference
deriving Repr, DecidableEq, Inhabited

inductive ClassTree where
  | empty (span : Span)
  | literal (lit : Literal)
  | range (first last : Literal)
  | named (span : Span) (negated : Bool) (name : ClassName)
  | bracketed (span : Span) (negated : Bool) (content : ClassTree)
  | union (span : Span) (items : List ClassTree)
  | operation (operator : ClassOperator) (left right : ClassTree)
deriving Repr, Inhabited

def ClassTree.span : ClassTree → Span
  | .empty span | .named span .. | .bracketed span .. | .union span .. => span
  | .literal lit => lit.span
  | .range first last => first.span.through last.span
  | .operation _ left right => left.span.through right.span

inductive Assertion where
  | textStart
  | textEnd
  | lineStart
  | lineEnd
  | wordBoundary
  | notWordBoundary
  | wordStart
  | wordEnd
  | wordStartHalf
  | wordEndHalf
deriving Repr, DecidableEq, Inhabited

inductive Pattern where
  | empty (span : Span)
  /-- Flags for what follows, up to the end of the group. -/
  | flags (span : Span) (items : List FlagItem)
  | literal (lit : Literal)
  | dot (span : Span)
  | assertion (span : Span) (wanted : Assertion)
  | named (span : Span) (negated : Bool) (name : ClassName)
  | bracketed (span : Span) (negated : Bool) (content : ClassTree)
  | repeated (span : Span) (body : Pattern) (least : Nat) (most : Option Nat)
  | group (span : Span) (flags : List FlagItem) (body : Pattern)
  | alternation (span : Span) (branches : List Pattern)
  | concat (span : Span) (items : List Pattern)
deriving Repr, Inhabited

namespace Pattern

def span : Pattern → Span
  | .empty span | .flags span .. | .dot span | .assertion span .. | .named span ..
  | .bracketed span .. | .repeated span .. | .group span .. | .alternation span ..
  | .concat span .. => span
  | .literal lit => lit.span

def ofItems (span : Span) : List Pattern → Pattern
  | [] => .empty span
  | [item] => item
  | items => .concat span items

def isRepeatable : Pattern → Bool
  | .empty _ | .flags .. => false
  | _ => true

/-- A part that may also stand in brackets. -/
def asClass? : Pattern → Option ClassTree
  | .literal lit => some (.literal lit)
  | .named span negated name => some (.named span negated name)
  | _ => none

def asLiteral? : Pattern → Option Literal
  | .literal lit => some lit
  | _ => none

end Pattern

/-! ## How deep patterns are -/

/-- Patterns are not nested deeper than this. -/
def nestLimit : Nat := 250

/-- Goes one level deeper into the part at `span`. -/
def deeper (depth : Nat) (span : Span) : Except Fault Nat :=
  if depth < nestLimit then .ok (depth + 1) else .error { kind := .nestLimitExceeded nestLimit, span }

namespace ClassTree

mutual

/-- Checks the depth of what stands in brackets, given the depth around it. -/
def checkDepth (depth : Nat) : ClassTree → Except Fault Unit
  | .bracketed span _ content => do checkDepth (← deeper depth span) content
  | .union span items => do checkDepths (← deeper depth span) items
  | .operation operator left right => do
      let inner ← deeper depth (ClassTree.operation operator left right).span
      checkDepth inner left
      checkDepth inner right
  | _ => .ok ()
termination_by structural tree => tree

def checkDepths (depth : Nat) : List ClassTree → Except Fault Unit
  | [] => .ok ()
  | item :: items => do
      checkDepth depth item
      checkDepths depth items
termination_by structural trees => trees

end

end ClassTree

namespace Pattern

mutual

/-- Checks the depth of a pattern, given the depth around it. -/
def checkDepth (depth : Nat) : Pattern → Except Fault Unit
  | .bracketed span _ content => do content.checkDepth (← deeper depth span)
  | .repeated span body _ _ => do checkDepth (← deeper depth span) body
  | .group span _ body => do checkDepth (← deeper depth span) body
  | .alternation span branches => do checkDepths (← deeper depth span) branches
  | .concat span items => do checkDepths (← deeper depth span) items
  | _ => .ok ()
termination_by structural pattern => pattern

def checkDepths (depth : Nat) : List Pattern → Except Fault Unit
  | [] => .ok ()
  | item :: items => do
      checkDepth depth item
      checkDepths depth items
termination_by structural patterns => patterns

end

end Pattern

end JarTailor.Regex
