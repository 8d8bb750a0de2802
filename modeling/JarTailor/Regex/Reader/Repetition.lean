import JarTailor.Regex.Reader.Group

/-!
# Repetitions
-/

namespace JarTailor.Regex.Reader

/-- The part that a repetition is about, and the progress without it. -/
def repeatable (progress : Progress) : Reader (Pattern × Progress) := do
  match progress.level.items with
  | body :: items =>
      if body.isRepeatable then
        return (body, { progress with level := { progress.level with items } })
      else reject .repetitionMissing (← here)
  | [] => reject .repetitionMissing (← here)

/-- Reads the sign after a repetition that only matters to which match is preferred. -/
def passLaziness : Reader Unit := do
  if (← next?) == some '?' then take

def repetition (progress : Progress) (least : Nat) (most : Option Nat) : Reader Progress := do
  let (body, progress) ← repeatable progress
  take
  passLaziness
  return progress.push (.repeated (← spanFrom body.span.start) body least most)

/-- Reads a number of 32 bits. Where there is none, the fault is told but reading can go on. -/
def count : Reader (Except Fault Nat) := do
  let _ ← takeAll Text.isSpace
  let start ← spot
  let digits ← takeAll Char.isDigit
  let span ← spanFrom start
  let _ ← takeAll Text.isSpace
  if digits.isEmpty then return .error { kind := .repetitionCountEmpty, span }
  let number := digits.foldl (fun number c => number * 10 + (c.toNat - '0'.toNat)) 0
  if number < 0x100000000 then return .ok number
  return .error { kind := .decimalInvalid, span }

def counts (start : Spot) : Reader (Nat × Option Nat) := do
  let unclosed : Reader Unit := do
    if (← next?).isNone then reject .repetitionCountUnclosed (← spanFrom start)
  unclosed
  let least ← count
  unclosed
  if (← next?) ≠ some ',' then
    let least ← liftM least
    return (least, some least)
  advance
  unclosed
  if (← next?) == some '\x7d' then return (← liftM least, none)
  let least ← liftM least
  return (least, some (← liftM (← count)))

def countedRepetition (progress : Progress) : Reader Progress := do
  let (body, progress) ← repeatable progress
  let start ← spot
  advance
  let (least, most) ← counts start
  if (← next?) ≠ some '\x7d' then reject .repetitionCountUnclosed (← spanFrom start)
  advance
  passLaziness
  if most.any (· < least) then reject .repetitionCountInvalid (← spanFrom start)
  return progress.push (.repeated (← spanFrom body.span.start) body least most)

end JarTailor.Regex.Reader
