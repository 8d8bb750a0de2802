import JarTailor.Regex.CharSet

/-!
# Regular expressions

An expression takes marks on the places of a text to marks on places: those where a piece may end
that it matches and that starts at a marked place. There is a place before each character of the
text and one at its end. Looking for a match anywhere starts with all places marked.
-/

namespace JarTailor

namespace Regex

structure Place where
  before : Option Char
  after : Option Char
deriving Repr, DecidableEq, Inhabited

def placesAfter (before : Option Char) : List Char → List Place
  | [] => [⟨before, none⟩]
  | c :: rest => ⟨before, some c⟩ :: placesAfter (some c) rest

/-- The places of a text, from its start on. -/
def places (text : List Char) : List Place :=
  placesAfter none text

/-- What a place has to be like. Words are made of the characters of a set. -/
inductive Look where
  | textStart
  | textEnd
  /-- `pairs` when a carriage return may end a line too, alone or before a line feed. -/
  | lineStart (pairs : Bool)
  | lineEnd (pairs : Bool)
  | wordBoundary (letters : CharSet)
  | notWordBoundary (letters : CharSet)
  | wordStart (letters : CharSet)
  | wordEnd (letters : CharSet)
  | wordStartHalf (letters : CharSet)
  | wordEndHalf (letters : CharSet)
deriving Repr, DecidableEq, Inhabited

def Look.holds (place : Place) : Look → Bool
  | .textStart => place.before.isNone
  | .textEnd => place.after.isNone
  | .lineStart pairs =>
      place.before.isNone || place.before == some '\n' ||
        (pairs && place.before == some '\r' && place.after ≠ some '\n')
  | .lineEnd pairs =>
      place.after.isNone || (!pairs && place.after == some '\n') ||
        (pairs && (place.after == some '\r' ||
          (place.after == some '\n' && place.before ≠ some '\r')))
  | .wordBoundary letters => place.before.any (letters.mem ·) != place.after.any (letters.mem ·)
  | .notWordBoundary letters => place.before.any (letters.mem ·) == place.after.any (letters.mem ·)
  | .wordStart letters => !place.before.any (letters.mem ·) && place.after.any (letters.mem ·)
  | .wordEnd letters => place.before.any (letters.mem ·) && !place.after.any (letters.mem ·)
  | .wordStartHalf letters => !place.before.any (letters.mem ·)
  | .wordEndHalf letters => !place.after.any (letters.mem ·)

end Regex

inductive Regex where
  | empty
  | chars (set : Regex.CharSet)
  | look (wanted : Regex.Look)
  | concat (first second : Regex)
  | either (first second : Regex)
  /-- From `least` to `most` times, or any number of times from `least` on. -/
  | repeated (body : Regex) (least : Nat) (most : Option Nat)
deriving Repr, DecidableEq, Inhabited

namespace Regex

/-- Marks on the places of a text, in their order. -/
abbrev Marks := List Bool

def Marks.union (first second : Marks) : Marks :=
  List.zipWith (· || ·) first second

/-- The marks after a character of a set; the first place is after none. -/
def stepOver (set : CharSet) : List Place → Marks → Marks
  | ⟨_, some c⟩ :: places, mark :: marks => (mark && set.mem c) :: stepOver set places marks
  | _, _ => []

/-- Applies a step so many times. A step that changes nothing ends it. -/
def iterate (step : Marks → Marks) : Nat → Marks → Marks
  | 0, marks => marks
  | count + 1, marks =>
      let next := step marks
      if next = marks then marks else iterate step count next

/-- Where pieces may end that start at the marked places. A repetition is tried at most as many
times as there are places: in a longer row of pieces one is empty and may be left out or
repeated. -/
def ends (places : List Place) : Regex → Marks → Marks
  | .empty, marks => marks
  | .chars set, marks => false :: stepOver set places marks
  | .look wanted, marks =>
      List.zipWith (fun place mark => mark && wanted.holds place) places marks
  | .concat first second, marks => ends places second (ends places first marks)
  | .either first second, marks => (ends places first marks).union (ends places second marks)
  | .repeated body least most, marks =>
      let more := (most.map (· - least)).getD places.length
      iterate (fun marks => marks.union (ends places body marks)) (min more places.length)
        (iterate (ends places body) (min least places.length) marks)

/-- Whether an expression matches some piece of a text. -/
def isFoundIn (regex : Regex) (text : String) : Bool :=
  let places := places text.toList
  (regex.ends places (places.map fun _ => true)).any id

end Regex

end JarTailor
