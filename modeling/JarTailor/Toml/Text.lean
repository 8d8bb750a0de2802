import JarTailor.Toml.Token

/-!
# Written TOML

Strings are written in the plainest of four forms that can hold them.
-/

namespace JarTailor.Toml

def hasTriple (c : Char) : List Char → Bool
  | a :: b :: d :: rest => (a == c && b == c && d == c) || hasTriple c (b :: d :: rest)
  | _ => false

/-- A control character that no form holds as it is. Line ends are not counted here. -/
def isForbidden (c : Char) : Bool :=
  Lex.isControl c && c ≠ '\n'

def upperHexDigit (value : Nat) : Char :=
  (Nat.digitChar value).toUpper

/-- A character as it stands in a basic string of one line. -/
def escapeBasic (c : Char) : List Char :=
  if c = '\x08' then ['\\', 'b']
  else if c = '\t' then ['\\', 't']
  else if c = '\n' then ['\\', 'n']
  else if c = '\x0c' then ['\\', 'f']
  else if c = '\r' then ['\\', 'r']
  else if c = '"' then ['\\', '"']
  else if c = '\\' then ['\\', '\\']
  else if Lex.isControl c then
    ['\\', 'u', '0', '0', upperHexDigit (c.toNat / 16), upperHexDigit (c.toNat % 16)]
  else [c]

/-- The inside of a basic string of several lines, after so many quotes in a row. Every third quote
is escaped. -/
def escapeLong (quotes : Nat) : List Char → List Char
  | [] => []
  | c :: rest =>
      if c = '"' then
        if quotes = 2 then '\\' :: '"' :: escapeLong 0 rest else '"' :: escapeLong (quotes + 1) rest
      else if c = '\n' then '\n' :: escapeLong 0 rest
      else escapeBasic c ++ escapeLong 0 rest

def basicForm (content : List Char) : List Char :=
  '"' :: content.flatMap escapeBasic ++ ['"']

def literalForm (content : List Char) : List Char :=
  '\'' :: content ++ ['\'']

/-- A long form starts a line of its own if it has several. -/
def longForm (quote : Char) (content inside : List Char) : List Char :=
  [quote, quote, quote] ++ (if content.contains '\n' then ['\n'] else []) ++ inside ++
    [quote, quote, quote]

/-- A string in the first form that can hold it. -/
def writeString (text : String) : String :=
  let content := text.toList
  let has := content.contains
  let isClean := !content.any isForbidden
  String.ofList <|
    if isClean && !has '\n' && !has '\\' && !has '"' then basicForm content
    else if isClean && !has '\n' && !has '\'' then literalForm content
    else if isClean && !has '\\' && !hasTriple '"' content then
      longForm '"' content (escapeLong 0 content)
    else if isClean && !hasTriple '\'' content then longForm '\'' content content
    else if has '\n' then longForm '"' content (escapeLong 0 content)
    else basicForm content

/-- An array of strings: empty or of one item on one line, else with an item on each line. -/
def writeStrings : List String → String
  | [] => "[]"
  | [text] => "[" ++ writeString text ++ "]"
  | texts => "[\n" ++ String.join (texts.map fun text => "    " ++ writeString text ++ ",\n") ++ "]"

def writeField (key value : String) : String :=
  key ++ " = " ++ value ++ "\n"

end JarTailor.Toml
