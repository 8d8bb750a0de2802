import JarTailor.Regex.Pattern
import JarTailor.Text.Affix

/-!
# Reading characters of patterns

A cursor is what is left of a pattern, and where that is. What reads a pattern moves the cursor on
or finds a fault.
-/

namespace JarTailor.Regex

structure Cursor where
  rest : List Char
  spot : Spot
  /-- Whether blanks and comments are passed over. -/
  verbose : Bool
deriving Repr, DecidableEq, Inhabited

def Cursor.next (cursor : Cursor) : Cursor :=
  match cursor.rest with
  | [] => cursor
  | c :: rest => { cursor with rest, spot := cursor.spot.after c }

def passBlanks (inComment : Bool) (spot : Spot) : List Char → List Char × Spot
  | [] => ([], spot)
  | c :: rest =>
      if inComment then passBlanks (c ≠ '\n') (spot.after c) rest
      else if Text.isSpace c then passBlanks false (spot.after c) rest
      else if c = '#' then passBlanks true (spot.after c) rest
      else (c :: rest, spot)

def Cursor.afterBlanks (cursor : Cursor) : Cursor :=
  if cursor.verbose then
    let (rest, spot) := passBlanks false cursor.spot cursor.rest
    { cursor with rest, spot }
  else cursor

/-- The character after the next one. When blanks are passed over it may be the first of a
comment. -/
def Cursor.second? (cursor : Cursor) : Option Char :=
  let rest := cursor.rest.drop 1
  if !cursor.verbose then rest.head?
  else
    match rest.dropWhile Text.isSpace with
    | '#' :: comment => (comment.dropWhile Text.isSpace).head?
    | rest => rest.head?

abbrev Reader := StateT Cursor (Except Fault)

namespace Reader

def reject {α : Type} (kind : FaultKind) (span : Span) (earlier : Option Span := none) : Reader α :=
  throw { kind, span, earlier }

def next? : Reader (Option Char) :=
  return (← get).rest.head?

def spot : Reader Spot :=
  return (← get).spot

def here : Reader Span :=
  return .empty (← spot)

def spanFrom (start : Spot) : Reader Span :=
  return ⟨start, ← spot⟩

def nextSpan : Reader Span :=
  return ⟨← spot, (← get).next.spot⟩

def take : Reader Unit :=
  modify Cursor.next

def skipBlanks : Reader Unit :=
  modify Cursor.afterBlanks

/-- Takes a character and the blanks after it. -/
def advance : Reader Unit := do
  take
  skipBlanks

def accept (text : String) : Reader Bool := do
  if text.toList.isPrefixOf (← get).rest then
    text.toList.forM fun _ => take
    return true
  return false

/-- Takes characters of a kind, and the blanks after each. -/
def takeSome (isWanted : Char → Bool) : List Char → Reader (List Char)
  | [] => return []
  | _ :: bound => do
      match ← next? with
      | none => return []
      | some c =>
          if isWanted c then
            advance
            return c :: (← takeSome isWanted bound)
          else return []

def takeAll (isWanted : Char → Bool) : Reader (List Char) := do
  takeSome isWanted (← get).rest

end Reader

end JarTailor.Regex
