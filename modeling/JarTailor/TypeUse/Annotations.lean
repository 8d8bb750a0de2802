import JarTailor.ClassFile.Constant

/-!
# Types inside annotations

Annotations nest: the value of an element may be an annotation or a list of values. The walk
keeps a list of what is still to be read and reports the index of every type it passes, in the
order in which they are written. Nothing after the last value is looked at.
-/

namespace JarTailor.Annotations

inductive Pending where
  /-- Lists of annotations, one for each parameter. -/
  | lists (count : Nat)
  | annotations (count : Nat)
  | typeAnnotations (count : Nat)
  /-- Elements of an annotation, each a name and a value. -/
  | elements (count : Nat)
  | values (count : Nat)
deriving Repr, DecidableEq, Inhabited

/-- The types just read and what has to be read because of them. -/
abbrev Step := List Index × List Pending

open Decode

/-- An annotation: its type, then its elements. -/
def stepAnnotated : Decode Step := do
  let type ← u16
  let count ← u16
  return ([type], [.elements count.toNat])

def stepValue : Decode Step := do
  let tag ← u8
  if tag = 0x65 then
    -- an enum constant: its type and its name
    let type ← u16
    let _ ← u16
    return ([type], [])
  else if tag = 0x63 then
    -- a class literal
    let type ← u16
    return ([type], [])
  else if tag = 0x40 then stepAnnotated
  else if tag = 0x5b then
    let count ← u16
    return ([], [.values count.toNat])
  else
    -- a constant
    let _ ← u16
    return ([], [])

/-- The number of bytes that describe the target of a type annotation, after its kind. -/
def targetLength (kind : UInt8) : Decode Nat :=
  if kind = 0x00 || kind = 0x01 || kind = 0x16 then pure 1
  else if kind = 0x10 || kind = 0x11 || kind = 0x12 || kind = 0x17 ||
      (0x42 ≤ kind && kind ≤ 0x46) then pure 2
  else if 0x13 ≤ kind && kind ≤ 0x15 then pure 0
  else if 0x47 ≤ kind && kind ≤ 0x4b then pure 3
  else if kind = 0x40 || kind = 0x41 then do
    let count ← u16
    return count.toNat * 6
  else fail (.typeTarget kind)

/-- An annotation behind its target and the path to the annotated part of the type. -/
def stepTypeAnnotated : Decode Step := do
  let kind ← u8
  let length ← targetLength kind
  let _ ← take length
  let pathLength ← u8
  let _ ← take (pathLength.toNat * 2)
  stepAnnotated

def step : Pending → Decode Step
  | .lists 0 | .annotations 0 | .typeAnnotations 0 | .elements 0 | .values 0 => return ([], [])
  | .lists (count + 1) => do
      let length ← u16
      return ([], [.annotations length.toNat, .lists count])
  | .annotations (count + 1) => do
      let (types, next) ← stepAnnotated
      return (types, next ++ [.annotations count])
  | .typeAnnotations (count + 1) => do
      let (types, next) ← stepTypeAnnotated
      return (types, next ++ [.typeAnnotations count])
  | .elements (count + 1) => do
      let _ ← u16
      let (types, next) ← stepValue
      return (types, next ++ [.elements count])
  | .values (count + 1) => do
      let (types, next) ← stepValue
      return (types, next ++ [.values count])

theorem length_stepAnnotated {input rest : Bytes} {result : Step}
    (h : stepAnnotated input = .ok (result, rest)) : rest.length < input.length := by
  obtain ⟨type, mid, htype, h⟩ := bind_eq_ok_iff.1 h
  obtain ⟨count, tail, hcount, h⟩ := bind_eq_ok_iff.1 h
  obtain ⟨-, rfl⟩ := pure_eq_ok_iff.1 h
  have := length_u16 htype
  have := length_u16 hcount
  omega

theorem length_stepValue {input rest : Bytes} {result : Step}
    (h : stepValue input = .ok (result, rest)) : rest.length < input.length := by
  obtain ⟨tag, mid, htag, h⟩ := bind_eq_ok_iff.1 h
  have := length_u8 htag
  split at h
  · obtain ⟨type, mid₁, htype, h⟩ := bind_eq_ok_iff.1 h
    obtain ⟨name, mid₂, hname, h⟩ := bind_eq_ok_iff.1 h
    obtain ⟨-, rfl⟩ := pure_eq_ok_iff.1 h
    have := length_u16 htype
    have := length_u16 hname
    omega
  · split at h
    · obtain ⟨type, mid₁, htype, h⟩ := bind_eq_ok_iff.1 h
      obtain ⟨-, rfl⟩ := pure_eq_ok_iff.1 h
      have := length_u16 htype
      omega
    · split at h
      · have := length_stepAnnotated h
        omega
      · split at h
        · obtain ⟨count, mid₁, hcount, h⟩ := bind_eq_ok_iff.1 h
          obtain ⟨-, rfl⟩ := pure_eq_ok_iff.1 h
          have := length_u16 hcount
          omega
        · obtain ⟨value, mid₁, hvalue, h⟩ := bind_eq_ok_iff.1 h
          obtain ⟨-, rfl⟩ := pure_eq_ok_iff.1 h
          have := length_u16 hvalue
          omega

theorem length_targetLength {kind : UInt8} {input rest : Bytes} {length : Nat}
    (h : targetLength kind input = .ok (length, rest)) : rest.length ≤ input.length := by
  unfold targetLength at h
  split at h
  · obtain ⟨-, rfl⟩ := pure_eq_ok_iff.1 h
    exact Nat.le_refl _
  · split at h
    · obtain ⟨-, rfl⟩ := pure_eq_ok_iff.1 h
      exact Nat.le_refl _
    · split at h
      · obtain ⟨-, rfl⟩ := pure_eq_ok_iff.1 h
        exact Nat.le_refl _
      · split at h
        · obtain ⟨-, rfl⟩ := pure_eq_ok_iff.1 h
          exact Nat.le_refl _
        · split at h
          · obtain ⟨count, mid, hcount, h⟩ := bind_eq_ok_iff.1 h
            obtain ⟨-, rfl⟩ := pure_eq_ok_iff.1 h
            have := length_u16 hcount
            omega
          · exact absurd h fail_ne_ok

theorem length_stepTypeAnnotated {input rest : Bytes} {result : Step}
    (h : stepTypeAnnotated input = .ok (result, rest)) : rest.length < input.length := by
  obtain ⟨kind, mid₁, hkind, h⟩ := bind_eq_ok_iff.1 h
  obtain ⟨length, mid₂, hlength, h⟩ := bind_eq_ok_iff.1 h
  obtain ⟨target, mid₃, htarget, h⟩ := bind_eq_ok_iff.1 h
  obtain ⟨pathLength, mid₄, hpathLength, h⟩ := bind_eq_ok_iff.1 h
  obtain ⟨path, mid₅, hpath, h⟩ := bind_eq_ok_iff.1 h
  have := length_u8 hkind
  have := length_targetLength hlength
  have := length_take htarget
  have := length_u8 hpathLength
  have := length_take hpath
  have := length_stepAnnotated h
  omega

/-- Something to be read takes bytes; nothing to be read is dropped. -/
theorem step_progress {pending : Pending} {input rest : Bytes} {types : List Index}
    {next : List Pending} (h : step pending input = .ok ((types, next), rest)) :
    rest.length < input.length ∨ (next = [] ∧ rest = input) := by
  unfold step at h
  split at h
  case h_6 =>
    obtain ⟨length, mid, hlength, h⟩ := bind_eq_ok_iff.1 h
    obtain ⟨-, rfl⟩ := pure_eq_ok_iff.1 h
    have := length_u16 hlength
    exact .inl (by omega)
  case h_7 =>
    obtain ⟨result, mid, hresult, h⟩ := bind_eq_ok_iff.1 h
    obtain ⟨-, rfl⟩ := pure_eq_ok_iff.1 h
    exact .inl (length_stepAnnotated hresult)
  case h_8 =>
    obtain ⟨result, mid, hresult, h⟩ := bind_eq_ok_iff.1 h
    obtain ⟨-, rfl⟩ := pure_eq_ok_iff.1 h
    exact .inl (length_stepTypeAnnotated hresult)
  case h_9 =>
    obtain ⟨name, mid, hname, h⟩ := bind_eq_ok_iff.1 h
    obtain ⟨result, tail, hresult, h⟩ := bind_eq_ok_iff.1 h
    obtain ⟨-, rfl⟩ := pure_eq_ok_iff.1 h
    have := length_u16 hname
    have := length_stepValue hresult
    exact .inl (by omega)
  case h_10 =>
    obtain ⟨result, mid, hresult, h⟩ := bind_eq_ok_iff.1 h
    obtain ⟨-, rfl⟩ := pure_eq_ok_iff.1 h
    exact .inl (length_stepValue hresult)
  all_goals
    obtain ⟨heq, rfl⟩ := pure_eq_ok_iff.1 h
    cases heq
    exact .inr ⟨rfl, rfl⟩

/-- Reads everything pending, in order; `found` holds the types so far, the last one first. -/
def walk (pending : List Pending) (input : Bytes) (found : List Index) :
    Except Failure (List Index × Bytes) :=
  match pending with
  | [] => pure (found.reverse, input)
  | first :: others =>
      match _h : step first input with
      | .error failure => throw failure
      | .ok ((types, next), rest) => walk (next ++ others) rest (types.reverse ++ found)
termination_by (input.length, pending.length)
decreasing_by
  rcases step_progress _h with hlt | ⟨rfl, rfl⟩
  · exact .left _ _ hlt
  · exact .right _ (by simp)

/-- The types of what is pending, read from the front of a byte string. -/
def types (pending : Pending) : Decode (List Index) := fun input =>
  walk [pending] input []

end JarTailor.Annotations
