/-!
# Globs

A glob is read into tokens, two stars as one token wherever possible, and matches a name that can
be cut into pieces, one for each token. Matching fills a table: for every token, from the last to
the first, whether the tokens from there on match each end of the name. A glob can be written as a
regular expression, too.
-/

namespace JarTailor

namespace Glob

inductive Token where
  | literal (c : Char)
  /-- A single star: any run within a segment. -/
  | segmentRun
  /-- Two stars: any run within a line. -/
  | anyRun
deriving Repr, DecidableEq, Inhabited

def tokens : List Char → List Token
  | [] => []
  | '*' :: '*' :: rest => .anyRun :: tokens rest
  | '*' :: rest => .segmentRun :: tokens rest
  | c :: rest => .literal c :: tokens rest

/-- Whether a token that stands for a run takes the character into it. -/
def Token.takes (separator : Char) : Token → Char → Bool
  | .literal _, _ => false
  | .segmentRun, c => c ≠ separator
  | .anyRun, c => c ≠ '\n'

/-- Whether a token and what follows it match each end of a name, the whole name first and the
empty end last, given the same for what follows alone. -/
def Token.extend (separator : Char) (token : Token) : List Char → List Bool → List Bool
  | c :: name, here :: ends =>
      let later := extend separator token name ends
      let first := match token with
        | .literal wanted => c == wanted && ends.headD false
        | _ => here || (token.takes separator c && later.headD false)
      first :: later
  | [], [here] =>
      match token with
      | .literal _ => [false]
      | _ => [here]
  | _, _ => []

/-- Which ends of a name the tokens match, the whole name first. -/
def table (separator : Char) (name : List Char) (tokens : List Token) : List Bool :=
  tokens.foldr (fun token ends => token.extend separator name ends)
    (List.replicate name.length false ++ [true])

end Glob

/-- A pattern for names whose segments a separator divides. -/
structure Glob where
  pattern : String
  separator : Char
deriving Repr, DecidableEq, Inhabited

namespace Glob

def ofClass (pattern : String) : Glob := ⟨pattern, '.'⟩

def ofPath (pattern : String) : Glob := ⟨pattern, '/'⟩

def tokensOf (glob : Glob) : List Token :=
  tokens glob.pattern.toList

def isMatch (glob : Glob) (name : String) : Bool :=
  (table glob.separator name.toList glob.tokensOf).headD false

/-! ## Globs as regular expressions -/

/-- The characters that may mean something other than themselves in a regular expression. -/
def metaChars : List Char :=
  ['\\', '.', '+', '*', '?', '(', ')', '|', '[', ']', '\x7b', '\x7d', '^', '$', '#', '&', '-', '~']

/-- A character that means itself. -/
def escaped (c : Char) : List Char :=
  if metaChars.contains c then ['\\', c] else [c]

def expressionOf (separator : Char) : List Char → List Char
  | [] => []
  | '*' :: '*' :: rest => ['.', '*'] ++ expressionOf separator rest
  | '*' :: rest => ['[', '^'] ++ escaped separator ++ [']', '*'] ++ expressionOf separator rest
  | c :: rest => escaped c ++ expressionOf separator rest

/-- The regular expression for whole names that match. -/
def expression (glob : Glob) : String :=
  .ofList ('^' :: (expressionOf glob.separator glob.pattern.toList ++ ['$']))

end Glob

end JarTailor
