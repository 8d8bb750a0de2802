import JarTailor.Text.Hex

/-!
# TOML tokens

Text is read from left to right by functions that call one another: one between tokens, and one
each inside a comment, a bare text and the four kinds of strings. Blanks and comments leave no
tokens; line ends do.

A bare text may be part of a dotted key as well as a number or a date; where it stands decides.
-/

namespace JarTailor.Toml

inductive Token where
  | newline
  /-- An opening bracket; `doubled` when another one follows at once. -/
  | opening (doubled : Bool)
  /-- A closing bracket; `doubled` when another one follows at once. -/
  | closing (doubled : Bool)
  | openBrace
  | closeBrace
  | equals
  | comma
  | bare (text : String)
  /-- A string; `isLong` when it may span lines. -/
  | string (isLong : Bool) (text : String)
deriving Repr, DecidableEq, Inhabited

namespace Lex

def isWordChar (c : Char) : Bool :=
  c.isAlphanum || c == '_' || c == '-'

def isBareChar (c : Char) : Bool :=
  isWordChar c || c == '.' || c == '+' || c == ':'

/-- Whether a bare text goes on. A single space before a digit belongs to it, since it may stand
between a date and a time. -/
def continuesBare : List Char → Bool
  | ' ' :: c :: _ => c.isDigit
  | c :: _ => isBareChar c
  | [] => false

def startsWith (c : Char) : List Char → Bool
  | d :: _ => d == c
  | [] => false

/-- Control characters other than the tab may stand nowhere as they are. -/
def isControl (c : Char) : Bool :=
  (c.toNat < 0x20 && c ≠ '\t') || c.toNat = 0x7f

def scalar? (digits : List Char) : Option Char := do
  Text.numbered? (← digits.mapM Text.hexDigit?)

def escaped? : Char → Option Char
  | 'b' => some '\x08'
  | 't' => some '\t'
  | 'n' => some '\n'
  | 'f' => some '\x0c'
  | 'r' => some '\r'
  | '"' => some '"'
  | '\\' => some '\\'
  | _ => none

def spell (taken : List Char) : String :=
  String.ofList taken.reverse

def isBlank (c : Char) : Bool :=
  c == ' ' || c == '\t' || c == '\n' || c == '\r'

def startsBlank : List Char → Bool
  | c :: _ => isBlank c
  | [] => false

mutual

def between : List Char → Option (List Token)
  | [] => some []
  | '\r' :: '\n' :: rest => (.newline :: ·) <$> between rest
  | '\n' :: rest => (.newline :: ·) <$> between rest
  | ' ' :: rest => between rest
  | '\t' :: rest => between rest
  | '#' :: rest => comment rest
  | '[' :: rest => (.opening (startsWith '[' rest) :: ·) <$> between rest
  | ']' :: rest => (.closing (startsWith ']' rest) :: ·) <$> between rest
  | '\x7b' :: rest => (.openBrace :: ·) <$> between rest
  | '\x7d' :: rest => (.closeBrace :: ·) <$> between rest
  | '=' :: rest => (.equals :: ·) <$> between rest
  | ',' :: rest => (.comma :: ·) <$> between rest
  | '"' :: '"' :: '"' :: '\r' :: '\n' :: rest => longBasic [] rest
  | '"' :: '"' :: '"' :: '\n' :: rest => longBasic [] rest
  | '"' :: '"' :: '"' :: rest => longBasic [] rest
  | '"' :: rest => basic [] rest
  | '\'' :: '\'' :: '\'' :: '\r' :: '\n' :: rest => longLiteral [] rest
  | '\'' :: '\'' :: '\'' :: '\n' :: rest => longLiteral [] rest
  | '\'' :: '\'' :: '\'' :: rest => longLiteral [] rest
  | '\'' :: rest => literal [] rest
  | c :: rest =>
      if !isBareChar c then none
      else if continuesBare rest then bare [c] rest
      else (.bare (spell [c]) :: ·) <$> between rest
termination_by structural input => input

def comment : List Char → Option (List Token)
  | [] => some []
  | '\r' :: '\n' :: rest => (.newline :: ·) <$> between rest
  | '\n' :: rest => (.newline :: ·) <$> between rest
  | c :: rest => if isControl c then none else comment rest
termination_by structural input => input

/-- Reads on in a bare text, of which another character follows. -/
def bare (taken : List Char) : List Char → Option (List Token)
  | [] => none
  | c :: rest =>
      if continuesBare rest then bare (c :: taken) rest
      else (.bare (spell (c :: taken)) :: ·) <$> between rest
termination_by structural input => input

/-- Reads on in a string between quotes. -/
def basic (taken : List Char) : List Char → Option (List Token)
  | [] => none
  | '"' :: rest => (.string false (spell taken) :: ·) <$> between rest
  | '\\' :: 'u' :: a :: b :: c :: d :: rest =>
      match scalar? [a, b, c, d] with
      | some found => basic (found :: taken) rest
      | none => none
  | '\\' :: 'U' :: a :: b :: c :: d :: e :: f :: g :: h :: rest =>
      match scalar? [a, b, c, d, e, f, g, h] with
      | some found => basic (found :: taken) rest
      | none => none
  | '\\' :: c :: rest =>
      match escaped? c with
      | some found => basic (found :: taken) rest
      | none => none
  | c :: rest => if isControl c then none else basic (c :: taken) rest
termination_by structural input => input

/-- Reads on in a string between apostrophes. -/
def literal (taken : List Char) : List Char → Option (List Token)
  | [] => none
  | '\'' :: rest => (.string false (spell taken) :: ·) <$> between rest
  | c :: rest => if isControl c then none else literal (c :: taken) rest
termination_by structural input => input

/-- Reads on in a string between triple quotes. -/
def longBasic (taken : List Char) : List Char → Option (List Token)
  | [] => none
  | '"' :: '"' :: '"' :: '"' :: '"' :: rest =>
      (.string true (spell ('"' :: '"' :: taken)) :: ·) <$> between rest
  | '"' :: '"' :: '"' :: '"' :: rest =>
      (.string true (spell ('"' :: taken)) :: ·) <$> between rest
  | '"' :: '"' :: '"' :: rest => (.string true (spell taken) :: ·) <$> between rest
  | '\r' :: '\n' :: rest => longBasic ('\n' :: taken) rest
  | '\n' :: rest => longBasic ('\n' :: taken) rest
  | '\\' :: 'u' :: a :: b :: c :: d :: rest =>
      match scalar? [a, b, c, d] with
      | some found => longBasic (found :: taken) rest
      | none => none
  | '\\' :: 'U' :: a :: b :: c :: d :: e :: f :: g :: h :: rest =>
      match scalar? [a, b, c, d, e, f, g, h] with
      | some found => longBasic (found :: taken) rest
      | none => none
  | '\\' :: ' ' :: rest => lineEnd taken rest
  | '\\' :: '\t' :: rest => lineEnd taken rest
  | '\\' :: '\r' :: '\n' :: rest =>
      if startsBlank rest then lineStart taken rest else longBasic taken rest
  | '\\' :: '\n' :: rest =>
      if startsBlank rest then lineStart taken rest else longBasic taken rest
  | '\\' :: c :: rest =>
      match escaped? c with
      | some found => longBasic (found :: taken) rest
      | none => none
  | c :: rest => if isControl c then none else longBasic (c :: taken) rest
termination_by structural input => input

/-- Reads on after a backslash that ends a line, before the end of that line. -/
def lineEnd (taken : List Char) : List Char → Option (List Token)
  | ' ' :: rest => lineEnd taken rest
  | '\t' :: rest => lineEnd taken rest
  | '\r' :: '\n' :: rest =>
      if startsBlank rest then lineStart taken rest else longBasic taken rest
  | '\n' :: rest => if startsBlank rest then lineStart taken rest else longBasic taken rest
  | _ => none
termination_by structural input => input

/-- Reads on after the end of such a line, where another blank or line end follows. -/
def lineStart (taken : List Char) : List Char → Option (List Token)
  | '\r' :: '\n' :: rest =>
      if startsBlank rest then lineStart taken rest else longBasic taken rest
  | '\r' :: _ => none
  | _ :: rest => if startsBlank rest then lineStart taken rest else longBasic taken rest
  | [] => none
termination_by structural input => input

/-- Reads on in a string between triple apostrophes. -/
def longLiteral (taken : List Char) : List Char → Option (List Token)
  | [] => none
  | '\'' :: '\'' :: '\'' :: '\'' :: '\'' :: rest =>
      (.string true (spell ('\'' :: '\'' :: taken)) :: ·) <$> between rest
  | '\'' :: '\'' :: '\'' :: '\'' :: rest =>
      (.string true (spell ('\'' :: taken)) :: ·) <$> between rest
  | '\'' :: '\'' :: '\'' :: rest => (.string true (spell taken) :: ·) <$> between rest
  | '\r' :: '\n' :: rest => longLiteral ('\n' :: taken) rest
  | '\n' :: rest => longLiteral ('\n' :: taken) rest
  | c :: rest => if isControl c then none else longLiteral (c :: taken) rest
termination_by structural input => input

end

end Lex

/-- The tokens of a text. A byte order mark at its start is no part of it. -/
def tokens (text : String) : Option (List Token) :=
  match text.toList with
  | '\ufeff' :: rest => Lex.between rest
  | input => Lex.between input

end JarTailor.Toml
