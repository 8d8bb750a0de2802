import JarTailor.Regex.Reader.Escape

/-!
# Classes in brackets

Classes may be nested and joined by operators, which bind less than the items that stand side by
side. What is open around the place reached is kept in a list, the innermost first.
-/

namespace JarTailor.Regex.Reader

inductive ClassFrame where
  /-- Brackets, with where the items around them began and what they are, the last one first. -/
  | brackets (spot : Spot) (items : List ClassTree) (span : Span) (negated : Bool)
  /-- An operator whose right side is still to come. -/
  | operation (operator : ClassOperator) (left : ClassTree)
deriving Repr, Inhabited

/-- What is read of a class: the items since the last operator or bracket, the last one first. -/
structure ClassProgress where
  frames : List ClassFrame
  spot : Spot
  items : List ClassTree
deriving Repr, Inhabited

namespace ClassProgress

def operand (progress : ClassProgress) : ClassTree :=
  match progress.items with
  | [] => .empty (.empty progress.spot)
  | [item] => item
  | last :: items =>
      let items := (last :: items).reverse
      .union ⟨(items.head?.getD last).span.start, last.span.stop⟩ items

/-- With the operator finished that waits for the items. -/
def reduce (progress : ClassProgress) : List ClassFrame × ClassTree :=
  match progress.frames with
  | .operation operator left :: frames => (frames, .operation operator left progress.operand)
  | frames => (frames, progress.operand)

def push (progress : ClassProgress) (item : ClassTree) : ClassProgress :=
  { progress with items := item :: progress.items }

def unclosed (progress : ClassProgress) : Span :=
  (progress.frames.findSome? fun
    | .brackets _ _ span _ => some span
    | .operation .. => none).getD (.empty progress.spot)

end ClassProgress

/-- Reads hyphens that stand for themselves. -/
def hyphens (start : Spot) : List Char → Reader (List ClassTree)
  | [] => return []
  | _ :: bound => do
      if (← next?) ≠ some '-' then return []
      let span ← nextSpan
      advance
      if (← next?).isNone then reject .classUnclosed (.empty start)
      return (← hyphens start bound) ++ [.literal { span, char := '-' }]

/-- Finds a fault if the pattern is at its end in a class. -/
def stillOpen (start : Spot) : Reader Unit := do
  if (← next?).isNone then reject .classUnclosed (← spanFrom start)

def negation : Reader Bool := do
  let negated := (← next?) == some '^'
  if negated then advance
  return negated

/-- Reads what stands for itself at the start of a class only: hyphens, or a bracket that would
close the class at once. -/
def leadingItems (start : Spot) : Reader (List ClassTree) := do
  let items ← hyphens start (← get).rest
  if items.isEmpty && (← next?) == some ']' then
    let span ← nextSpan
    advance
    stillOpen start
    return [.literal { span, char := ']' }]
  return items

def openClass (progress : ClassProgress) : Reader ClassProgress := do
  let start ← spot
  advance
  stillOpen start
  let negated ← negation
  stillOpen start
  let itemsSpot ← spot
  let items ← leadingItems start
  let frame := ClassFrame.brackets progress.spot progress.items (← spanFrom start) negated
  return ⟨frame :: progress.frames, itemsSpot, items⟩

def asciiNames : List String :=
  ["alnum", "alpha", "ascii", "blank", "cntrl", "digit", "graph", "lower", "print", "punct",
    "space", "upper", "word", "xdigit"]

def asciiClass? : Reader (Option ClassTree) := do
  let before ← get
  if ← accept "[:" then
    let negated ← accept "^"
    let name := String.ofList ((← get).rest.takeWhile (· ≠ ':'))
    if asciiNames.contains name then
      if ← accept (name ++ ":]") then
        return some (.named (← spanFrom before.spot) negated (.ascii name))
  set before
  return none

/-- Reads a character or an escape in brackets. -/
def classAtom : Reader Pattern := do
  match ← next? with
  | some '\\' => escape
  | some char =>
      let span ← nextSpan
      take
      return .literal { span, char }
  | none => return .empty (← here)

def asLiteral (atom : Pattern) : Reader Literal :=
  match atom.asLiteral? with
  | some lit => return lit
  | none => reject .classRangeLiteral atom.span

/-- Reads an item of a class: one character or escape, or a range. -/
def classItem (progress : ClassProgress) : Reader ClassTree := do
  let first ← classAtom
  skipBlanks
  let second? := (← get).second?
  match ← next? with
  | none => reject .classUnclosed progress.unclosed
  | some c =>
      if c ≠ '-' || second? == some ']' || second? == some '-' then
        match first.asClass? with
        | some item => return item
        | none => reject .classEscapeInvalid first.span
      advance
      if (← next?).isNone then reject .classUnclosed progress.unclosed
      let last ← classAtom
      let low ← asLiteral first
      let high ← asLiteral last
      if high.char < low.char then reject .classRangeInvalid (low.span.through high.span)
      return .range low high

def classOperators : List (String × ClassOperator) :=
  [("&&", .intersection), ("--", .difference), ("~~", .symmetricDifference)]

def classOperator? : List (String × ClassOperator) → Reader (Option ClassOperator)
  | [] => return none
  | (text, operator) :: others => do
      if ← accept text then return some operator
      classOperator? others

/-- Reads on in a class up to the bracket that ends it. -/
def classRest : List Char → ClassProgress → Reader Pattern
  | [], progress => reject .classUnclosed progress.unclosed
  | _ :: bound, progress => do
      skipBlanks
      match ← next? with
      | none => reject .classUnclosed progress.unclosed
      | some '[' =>
          match ← asciiClass? with
          | some item => classRest bound (progress.push item)
          | none => classRest bound (← openClass progress)
      | some ']' =>
          let (frames, content) := progress.reduce
          take
          match frames with
          | .brackets spot items span negated :: frames =>
              let span ← spanFrom span.start
              if frames.isEmpty then return .bracketed span negated content
              classRest bound ⟨frames, spot, .bracketed span negated content :: items⟩
          | _ => reject .classUnclosed progress.unclosed
      | some _ =>
          match ← classOperator? classOperators with
          | some operator =>
              let (frames, left) := progress.reduce
              classRest bound ⟨.operation operator left :: frames, ← spot, []⟩
          | none => classRest bound (progress.push (← classItem progress))

/-- Reads a class, from its bracket on. -/
def bracketed : Reader Pattern := do
  let progress ← openClass ⟨[], ← spot, []⟩
  classRest ('[' :: (← get).rest) progress

end JarTailor.Regex.Reader
