import JarTailor.Text.Affix
import JarTailor.Text.CaseFold
import JarTailor.Text.Category

/-!
# Sets of characters

A set is built from ranges and kinds of characters, and `mem` decides what is in it.
-/

namespace JarTailor.Regex

inductive CharSet where
  | nothing
  | range (first last : Char)
  | space
  | word
  | categories (names : List String)
  | union (first second : CharSet)
  | inter (first second : CharSet)
  | diff (first second : CharSet)
  | complement (set : CharSet)
  /-- With everything that differs from a member in case only. -/
  | anyCase (set : CharSet)
  /-- The same, but only letters of ASCII have two cases. -/
  | anyAsciiCase (set : CharSet)
deriving Repr, DecidableEq, Inhabited

namespace CharSet

def asciiVariants (c : Char) : List Char :=
  [c, c.toLower, c.toUpper]

def mem (c : Char) : CharSet → Bool
  | .nothing => false
  | .range first last => first ≤ c && c ≤ last
  | .space => Text.isSpace c
  | .word => Text.isWordChar c
  | .categories names => names.contains (Text.category c)
  | .union first second => first.mem c || second.mem c
  | .inter first second => first.mem c && second.mem c
  | .diff first second => first.mem c && !second.mem c
  | .complement set => !set.mem c
  | .anyCase set => (Text.caseVariants c).any set.mem
  | .anyAsciiCase set => (asciiVariants c).any set.mem

def single (c : Char) : CharSet :=
  .range c c

def everything : CharSet :=
  .complement .nothing

def unionOf (sets : List CharSet) : CharSet :=
  sets.foldr .union .nothing

def ofRanges (ranges : List (Char × Char)) : CharSet :=
  unionOf (ranges.map fun (first, last) => .range first last)

def asciiDigit : CharSet :=
  .range '0' '9'

def asciiSpace : CharSet :=
  ofRanges [('\t', '\r'), (' ', ' ')]

def asciiWord : CharSet :=
  ofRanges [('0', '9'), ('A', 'Z'), ('_', '_'), ('a', 'z')]

end CharSet

end JarTailor.Regex
