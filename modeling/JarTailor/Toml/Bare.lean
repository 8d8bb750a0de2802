import JarTailor.Toml.Token

/-!
# Bare TOML values

Numbers, truth values, dates and times are written without quotes. No configuration reads one, so
a value keeps its text, and what is here tells which texts are values.
-/

namespace JarTailor.Toml

namespace Bare

/-! ## Integers -/

/-- Digits, with at most one underscore between two of them. -/
def isGrouped (isDigit : Char → Bool) : List Char → Bool
  | [] => false
  | [c] => isDigit c
  | c :: '_' :: rest => isDigit c && isGrouped isDigit rest
  | c :: rest => isDigit c && isGrouped isDigit rest

def number (base : Nat) (digits : List Char) : Nat :=
  (digits.filterMap Text.hexDigit?).foldl (fun number digit => number * base + digit) 0

/-- A text as sign, if it has one, and rest. -/
def signed : List Char → Option Char × List Char
  | '+' :: rest => (some '+', rest)
  | '-' :: rest => (some '-', rest)
  | text => (none, text)

/-- Decimal digits, none of them a zero in front of others. -/
def isWhole : List Char → Bool
  | ['0'] => true
  | c :: rest => c ≠ '0' && isGrouped Char.isDigit (c :: rest)
  | [] => false

/-- The least number that an integer of 64 bits cannot be. -/
def signBit : Nat := 0x8000000000000000

def isInBase (base : Nat) (digits : List Char) : Bool :=
  isGrouped (fun c => (Text.hexDigit? c).any (· < base)) digits && number base digits < signBit

/-- Integers are those of 64 bits. Only a decimal one may have a sign. -/
def isInteger : List Char → Bool
  | '0' :: 'x' :: digits => isInBase 16 digits
  | '0' :: 'o' :: digits => isInBase 8 digits
  | '0' :: 'b' :: digits => isInBase 2 digits
  | text =>
      let (sign, digits) := signed text
      isWhole digits && number 10 digits < signBit + (if sign = some '-' then 1 else 0)

/-! ## Floating-point numbers -/

/-- A text cut before the first character of a kind. -/
def cutBefore (isMark : Char → Bool) (text : List Char) : List Char × List Char :=
  text.span (!isMark ·)

/-- The exponent that a text spells after its mark. -/
def exponent? : List Char → Option Int
  | [] => some 0
  | _ :: text =>
      let (sign, digits) := signed text
      if !isGrouped Char.isDigit digits then none
      else if sign = some '-' then some (-(number 10 digits : Int))
      else some (number 10 digits)

def fraction? : List Char → Option (List Char)
  | [] => some []
  | _ :: digits => if isGrouped Char.isDigit digits then some (digits.filter Char.isDigit) else none

/-- The least number that is nearer to infinity than to a finite number of 64 bits. -/
def overflow : Nat :=
  Nat.pow 2 1024 - Nat.pow 2 970

/-- Whether the number that some digits spell, times a power of ten, overflows. -/
def overflows (digits : List Char) (power : Int) : Bool :=
  let value := number 10 digits
  if value = 0 then false
  else
    match power with
    | .ofNat power => 308 < power || overflow ≤ value * Nat.pow 10 power
    | .negSucc power => power < digits.length && overflow * Nat.pow 10 (power + 1) ≤ value

/-- A floating-point number has a fraction, an exponent or both, or is a word. A number that is too
large for 64 bits is none, unless it is negative. -/
def isFloat (text : List Char) : Bool :=
  let (sign, body) := signed text
  let (mantissa, power) := cutBefore (fun c => c == 'e' || c == 'E') body
  let (whole, fraction) := cutBefore (· == '.') mantissa
  body == ['i', 'n', 'f'] || body == ['n', 'a', 'n'] ||
    match exponent? power, fraction? fraction with
    | some exponent, some places =>
        isWhole whole && !(power.isEmpty && fraction.isEmpty) &&
          (sign == some '-' || !overflows (whole ++ places) (exponent - places.length))
    | _, _ => false

/-! ## Dates and times -/

def two? (tens units : Char) : Option Nat :=
  if tens.isDigit && units.isDigit then some (number 10 [tens, units]) else none

def isAtMost (most : Nat) (tens units : Char) : Bool :=
  (two? tens units).any (· ≤ most)

def isLeapYear (year : Nat) : Bool :=
  year % 4 == 0 && (year % 100 ≠ 0 || year % 400 == 0)

def daysIn (year month : Nat) : Nat :=
  if month = 2 then if isLeapYear year then 29 else 28
  else if month = 4 || month = 6 || month = 9 || month = 11 then 30
  else 31

def isDate (year month day : Nat) : Bool :=
  1 ≤ month && month ≤ 12 && 1 ≤ day && day ≤ daysIn year month

/-- What follows the date that a text begins with. -/
def afterDate? : List Char → Option (List Char)
  | a :: b :: c :: d :: '-' :: e :: f :: '-' :: g :: h :: rest => do
      let century ← two? a b
      let year ← two? c d
      let month ← two? e f
      let day ← two? g h
      if isDate (century * 100 + year) month day then some rest else none
  | _ => none

/-- What follows the fraction of a second that a text may begin with. -/
def afterFraction? : List Char → Option (List Char)
  | '.' :: c :: rest => if c.isDigit then some (rest.dropWhile Char.isDigit) else none
  | '.' :: [] => none
  | text => some text

/-- What follows the time of day that a text begins with. Leap seconds count. -/
def afterTime? : List Char → Option (List Char)
  | a :: b :: ':' :: c :: d :: ':' :: e :: f :: rest =>
      if isAtMost 23 a b && isAtMost 59 c d && isAtMost 60 e f then afterFraction? rest else none
  | _ => none

/-- The distance from universal time, which may be left out. -/
def isOffset : List Char → Bool
  | [] | ['Z'] | ['z'] => true
  | [sign, a, b, ':', c, d] => (sign == '+' || sign == '-') && isAtMost 23 a b && isAtMost 59 c d
  | _ => false

/-- A date, a time, or a date and a time in this order. -/
def isMoment (text : List Char) : Bool :=
  match afterDate? text with
  | some [] => true
  | some (c :: rest) => (c == 'T' || c == 't' || c == ' ') && (afterTime? rest).any isOffset
  | none => afterTime? text == some []

end Bare

def isBareValue (text : String) : Bool :=
  text == "true" || text == "false" || Bare.isInteger text.toList || Bare.isFloat text.toList ||
    Bare.isMoment text.toList

end JarTailor.Toml
