import JarTailor.Regex.Basic

/-!
# Sizes of regular expressions

An expression whose repetitions would be too long when written out is refused. Its size is an
estimate of the bytes that the states of an automaton for it take.
-/

namespace JarTailor.Regex

/-- A set takes the more the more runs of code points it has. -/
def CharSet.size : CharSet → Nat
  | .nothing => 32
  | .range _ last => if last.toNat < 0x80 then 32 else 200
  | .space => 400
  | .word => 50000
  | .categories _ => 10000
  | .union first second | .inter first second | .diff first second => first.size + second.size
  | .complement set => set.size + 900
  | .anyCase set | .anyAsciiCase set => 2 * set.size

/-- Whether an expression matches empty pieces only. Repeating it adds nothing. -/
def isHollow : Regex → Bool
  | .empty | .look _ => true
  | .chars _ => false
  | .concat first second | .either first second => first.isHollow && second.isHollow
  | .repeated body _ most => body.isHollow || most == some 0

/-- How often a repeated expression is written out. All copies but the least may be left out. -/
def copies (body : Regex) (least : Nat) : Option Nat → Nat
  | some most => if body.isHollow then min most 1 else most
  | none => if body.isHollow then 1 else max least 1

def size : Regex → Nat
  | .empty => 0
  | .chars set => set.size
  | .look _ => 32
  | .concat first second => first.size + second.size
  | .either first second => first.size + second.size + 40
  | .repeated body least most =>
      let copies := body.copies least most
      copies * body.size + (copies - least) * 40

/-- Ten mebibytes. -/
def sizeLimit : Nat :=
  10 * 1024 * 1024

end JarTailor.Regex
