/-!
# Characters by number

Escapes number characters with hexadecimal digits.
-/

namespace JarTailor.Text

def hexDigit? (c : Char) : Option Nat :=
  if '0' ≤ c && c ≤ '9' then some (c.toNat - '0'.toNat)
  else if 'a' ≤ c && c ≤ 'f' then some (c.toNat - 'a'.toNat + 10)
  else if 'A' ≤ c && c ≤ 'F' then some (c.toNat - 'A'.toNat + 10)
  else none

def numbered? (digits : List Nat) : Option Char :=
  let number := digits.foldl (fun number digit => number * 16 + digit) 0
  if number.isValidChar then some (Char.ofNat number) else none

end JarTailor.Text
