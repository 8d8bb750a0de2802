import JarTailor.ClassFile.Basic
import JarTailor.TypeUse.Annotations
import JarTailor.TypeUse.Role
import Std.Data.ExtTreeMap.Lemmas

/-!
# Where a class names types

Class entries, descriptors, generic signatures and annotations name types. `roles` finds every
text entry so used and what it is used as; an entry used in several ways has the role that comes
first, and class entries come before everything else.

Attributes may hold attributes. The walk keeps a list of the parts it has yet to look into, and
their total size falls with every step.
-/

namespace JarTailor.TypeUse

/-- A part of a class file that may name types. -/
inductive Part where
  | inAttribute (entry : Attribute)
  /-- So many record components, at the front of some bytes. -/
  | components (count : Nat) (bytes : Bytes)
deriving Repr, DecidableEq, Inhabited

def Part.size : Part → Nat
  | .inAttribute entry => entry.info.length + 1
  | .components _ bytes => bytes.length + 1

abbrev Found := List TypeUse × List Part

/-- The types that an annotation attribute names. -/
def annotated (name : String) (pending : Annotations.Pending) (input : Bytes) :
    Except Failure Found := do
  let (types, _) ← Except.within (.malformed name) (Annotations.types pending input)
  return (types.map (⟨·, .descriptor⟩), [])

/-- The types of the local variables listed in a debugging table. -/
def localVariables (role : TypeRole) (info : Bytes) : Except Failure Found := do
  let (count, rest) ← Decode.u16 info
  let (types, _) ← Decode.times count.toNat localVariable rest
  return (types.map (⟨·, role⟩), [])
where
  localVariable : Decode Index := do
    let _start ← Decode.u16
    let _length ← Decode.u16
    let _name ← Decode.u16
    let type ← Decode.u16
    let _slot ← Decode.u16
    return type

/-- The next of the components of a record: its descriptor, then its attributes. -/
def component (count : Nat) (bytes : Bytes) : Except Failure Found := do
  let (_, rest) ← Decode.u16 bytes
  let (descriptor, rest) ← Decode.u16 rest
  let (attributes, rest) ← Attribute.decodeList rest
  return ([⟨descriptor, .descriptor⟩],
    attributes.map .inAttribute ++ [.components count rest])

/-- What one attribute names, and the parts inside it. -/
def inAttribute (pool : Pool) (entry : Attribute) : Except Failure Found := do
  let name ← pool.text entry.name
  match name with
  | "Signature" => do
      let (index, _) ← Decode.u16 entry.info
      return ([⟨index, .signature⟩], [])
  | "RuntimeVisibleAnnotations" | "RuntimeInvisibleAnnotations" =>
      annotated name (.lists 1) entry.info
  | "RuntimeVisibleParameterAnnotations" | "RuntimeInvisibleParameterAnnotations" => do
      let (count, rest) ← Decode.u8 entry.info
      annotated name (.lists count.toNat) rest
  | "AnnotationDefault" => annotated name (.values 1) entry.info
  | "RuntimeVisibleTypeAnnotations" | "RuntimeInvisibleTypeAnnotations" => do
      let (count, rest) ← Decode.u16 entry.info
      annotated name (.typeAnnotations count.toNat) rest
  | "Code" => do
      let body ← Code.decode entry.info
      return ([], body.attributes.map .inAttribute)
  | "LocalVariableTable" => localVariables .descriptor entry.info
  | "LocalVariableTypeTable" => localVariables .signature entry.info
  | "Record" => do
      let (count, rest) ← Decode.u16 entry.info
      return ([], [.components count.toNat rest])
  | _ => return ([], [])

def step (pool : Pool) : Part → Except Failure Found
  | .inAttribute entry => inAttribute pool entry
  | .components 0 _ => return ([], [])
  | .components (count + 1) bytes => component count bytes

theorem size_map_inAttribute_le (attributes : List Attribute) :
    total Part.size (attributes.map Part.inAttribute) ≤ total Attribute.size attributes := by
  induction attributes with
  | nil => simp
  | cons entry rest ih =>
      simp only [List.map_cons, total_cons, Part.size, Attribute.size] at ih ⊢
      omega

theorem size_annotated {name : String} {pending : Annotations.Pending} {input : Bytes}
    {uses : List TypeUse} {parts : List Part}
    (h : annotated name pending input = .ok (uses, parts)) : parts = [] := by
  obtain ⟨_, -, hresult⟩ := Except.bind_eq_ok_iff.1 h
  cases hresult
  rfl

theorem size_localVariables {role : TypeRole} {info : Bytes} {uses : List TypeUse}
    {parts : List Part} (h : localVariables role info = .ok (uses, parts)) : parts = [] := by
  obtain ⟨_, -, h⟩ := Except.bind_eq_ok_iff.1 h
  obtain ⟨_, -, hresult⟩ := Except.bind_eq_ok_iff.1 h
  cases hresult
  rfl

theorem size_component {count : Nat} {bytes : Bytes} {uses : List TypeUse} {parts : List Part}
    (h : component count bytes = .ok (uses, parts)) :
    total Part.size parts < bytes.length + 1 := by
  obtain ⟨⟨name, mid₁⟩, h₁, h⟩ := Except.bind_eq_ok_iff.1 h
  obtain ⟨⟨descriptor, mid₂⟩, h₂, h⟩ := Except.bind_eq_ok_iff.1 h
  obtain ⟨⟨attributes, rest⟩, h₃, h⟩ := Except.bind_eq_ok_iff.1 h
  cases h
  have := Decode.length_u16 h₁
  have := Decode.length_u16 h₂
  have := Attribute.size_decodeList h₃
  have := size_map_inAttribute_le attributes
  simp only [total_append, total_cons, total_nil, Part.size] at *
  omega

theorem size_inAttribute {pool : Pool} {entry : Attribute} {uses : List TypeUse}
    {parts : List Part} (h : inAttribute pool entry = .ok (uses, parts)) :
    total Part.size parts < entry.info.length + 1 := by
  obtain ⟨name, -, h⟩ := Except.bind_eq_ok_iff.1 h
  split at h
  · obtain ⟨_, -, h⟩ := Except.bind_eq_ok_iff.1 h
    cases h
    simp
  · simp [size_annotated h]
  · simp [size_annotated h]
  · obtain ⟨_, -, h⟩ := Except.bind_eq_ok_iff.1 h
    simp [size_annotated h]
  · obtain ⟨_, -, h⟩ := Except.bind_eq_ok_iff.1 h
    simp [size_annotated h]
  · simp [size_annotated h]
  · obtain ⟨_, -, h⟩ := Except.bind_eq_ok_iff.1 h
    simp [size_annotated h]
  · obtain ⟨_, -, h⟩ := Except.bind_eq_ok_iff.1 h
    simp [size_annotated h]
  · obtain ⟨body, hbody, h⟩ := Except.bind_eq_ok_iff.1 h
    cases h
    have := Code.size_attributes_le hbody
    have := size_map_inAttribute_le body.attributes
    omega
  · simp [size_localVariables h]
  · simp [size_localVariables h]
  · obtain ⟨⟨count, rest⟩, hcount, h⟩ := Except.bind_eq_ok_iff.1 h
    cases h
    have := Decode.length_u16 hcount
    simp [Part.size]
    omega
  · cases h
    simp

theorem step_shrinks {pool : Pool} {part : Part} {uses : List TypeUse} {parts : List Part}
    (h : step pool part = .ok (uses, parts)) : total Part.size parts < part.size := by
  unfold step at h
  split at h
  · exact size_inAttribute h
  · cases h
    simp [Part.size]
  · exact size_component h

/-- Looks into every part, in order; `found` holds the uses so far, the last one first. -/
def walk (pool : Pool) (parts : List Part) (found : List TypeUse) :
    Except Failure (List TypeUse) :=
  match parts with
  | [] => pure found.reverse
  | part :: others =>
      match _h : step pool part with
      | .error failure => throw failure
      | .ok (uses, inner) => walk pool (inner ++ others) (uses.reverse ++ found)
termination_by total Part.size parts
decreasing_by
  have := step_shrinks _h
  simp only [total_append, total_cons]
  omega

def ofAttributes (pool : Pool) (attributes : List Attribute) : Except Failure (List TypeUse) :=
  walk pool (attributes.map .inAttribute) []

/-- The types that the class entries of a pool name. -/
def ofClassEntries (pool : Pool) : List TypeUse :=
  pool.entries.toList.filterMap fun
    | .classRef name => some ⟨name, .className⟩
    | _ => none

/-- The types that other entries of a pool name. -/
def ofDescriptorEntries (pool : Pool) : List TypeUse :=
  pool.entries.toList.filterMap fun
    | .nameAndType _ descriptor | .methodType descriptor => some ⟨descriptor, .descriptor⟩
    | _ => none

/-- The types that a field or method names: its own, then those of its attributes. -/
def ofMember (pool : Pool) (member : Member) : Except Failure (List TypeUse) := do
  return ⟨member.descriptor, .descriptor⟩ :: (← ofAttributes pool member.attributes)

/-- Every use of a text as a type, class entries first. -/
def all (classFile : ClassFile) : Except Failure (List TypeUse) := do
  let pool := classFile.pool
  let ofClass ← ofAttributes pool classFile.attributes
  let ofMembers ← (classFile.fields ++ classFile.methods).mapM (ofMember pool)
  return ofClassEntries pool ++ ofDescriptorEntries pool ++ ofClass ++ ofMembers.flatten

abbrev Roles := Std.ExtTreeMap Index TypeRole

/-- The role of every text entry used as a type: the first one it is found in. -/
def roles (classFile : ClassFile) : Except Failure Roles := do
  return (← all classFile).foldl (fun roles use => roles.insertIfNew use.index use.role) ∅

end JarTailor.TypeUse
