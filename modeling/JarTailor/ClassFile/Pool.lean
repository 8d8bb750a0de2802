import JarTailor.ClassFile.Constant
import JarTailor.Text.Utf8

/-!
# The constant pool

Everything a class file names is an entry of its constant pool. Lookups resolve an index to what
it names; `Edit` computations add entries, and what they added stays also when they fail.
-/

namespace JarTailor

structure MemberRef where
  owner : String
  name : String
  descriptor : String
  isInterface : Bool
deriving Repr, DecidableEq, Inhabited

structure Pool where
  entries : Array Constant
deriving Repr, DecidableEq, Inhabited

namespace Pool

def size (pool : Pool) : Nat := pool.entries.size

/-- The slots a constant fills: itself, and an unusable slot if it is wide. -/
def append (pool : Pool) (constant : Constant) : Pool :=
  if constant.isWide then ⟨(pool.entries.push constant).push .unusable⟩
  else ⟨pool.entries.push constant⟩

theorem size_append (pool : Pool) (constant : Constant) :
    (pool.append constant).size = pool.size + constant.width := by
  unfold append Constant.width size
  split <;> simp

/-- Reads constants until `slots` further slots are filled. -/
def decodeSlots : Nat → Pool → Decode Pool
  | 0, pool => pure pool
  | slots + 1, pool => do
      let constant ← Constant.decode pool.size
      if constant.isWide then
        match slots with
        | 0 => fail .wideOverflow
        | slots + 1 => decodeSlots slots (pool.append constant)
      else decodeSlots slots (pool.append constant)

/-- Reads a pool: its number of slots, the unusable slot 0 included, and the constants. -/
def decode : Decode Pool := do
  let count ← Decode.u16
  match count.toNat with
  | 0 => fail .emptyPool
  | slots + 1 => decodeSlots slots ⟨#[.unusable]⟩

def encode (pool : Pool) : Bytes :=
  be16 (UInt16.ofNat pool.size) ++ pool.entries.toList.flatMap Constant.encode

def get (pool : Pool) (index : Index) : Except Failure Constant :=
  match pool.entries[index.toNat]? with
  | some constant => pure constant
  | none => fail (.poolIndex index)

/-- The pool with another constant at an index it has. -/
def set (pool : Pool) (index : Index) (constant : Constant) : Except Failure Pool :=
  if index.toNat < pool.size then pure ⟨pool.entries.setIfInBounds index.toNat constant⟩
  else fail (.poolIndex index)

def text (pool : Pool) (index : Index) : Except Failure String := do
  match ← pool.get index with
  | .utf8 bytes =>
      match Utf8.decode bytes with
      | .ok text => pure text
      | .error fault => throw ((Failure.of (.encoding fault)).within (.poolText index))
  | _ => fail (.wrongEntry index .text)

def className (pool : Pool) (index : Index) : Except Failure String := do
  match ← pool.get index with
  | .classRef name => pool.text name
  | _ => fail (.wrongEntry index .className)

def nameAndType (pool : Pool) (index : Index) : Except Failure (String × String) := do
  match ← pool.get index with
  | .nameAndType name descriptor => return (← pool.text name, ← pool.text descriptor)
  | _ => fail (.wrongEntry index .nameAndType)

def resolveMember (pool : Pool) (isInterface : Bool) (owner member : Index) :
    Except Failure MemberRef := do
  let owner ← pool.className owner
  let (name, descriptor) ← pool.nameAndType member
  return ⟨owner, name, descriptor, isInterface⟩

def member (pool : Pool) (index : Index) : Except Failure MemberRef := do
  match ← pool.get index with
  | .fieldRef owner member | .methodRef owner member =>
      pool.resolveMember false owner member
  | .interfaceMethodRef owner member => pool.resolveMember true owner member
  | _ => fail (.wrongEntry index .member)

/-- Whether the entry at `index` is the text `wanted`; an entry that is no text is not. -/
def isText (pool : Pool) (index : Index) (wanted : String) : Bool :=
  match pool.text index with
  | .ok text => text == wanted
  | .error _ => false

/-- The largest number of slots a class file can announce. -/
def capacity : Nat := 0xffff

/-- A computation on a pool. What it did to the pool before failing stays done. -/
abbrev Edit := ExceptT Failure (StateM Pool)

/-- Appends a constant, unless the pool would outgrow its capacity. -/
def push (constant : Constant) : Edit Index := fun pool =>
  if pool.size + constant.width > capacity then (.error (Failure.of .poolFull), pool)
  else (.ok (UInt16.ofNat pool.size), pool.append constant)

def find? (pool : Pool) (constant : Constant) : Option Index :=
  (pool.entries.idxOf? constant).map UInt16.ofNat

/-- The index of a constant, appended if the pool has none like it. -/
def intern (constant : Constant) : Edit Index := fun pool =>
  match pool.find? constant with
  | some index => (.ok index, pool)
  | none => push constant pool

def internText (text : String) : Edit Index :=
  intern (.utf8 (Utf8.encode text))

def internClass (name : String) : Edit Index := do
  intern (.classRef (← internText name))

def internString (text : String) : Edit Index := do
  intern (.stringRef (← internText text))

def internNameAndType (name descriptor : String) : Edit Index := do
  let name ← internText name
  let descriptor ← internText descriptor
  intern (.nameAndType name descriptor)

def internMethod (method : MemberRef) : Edit Index := do
  let owner ← internClass method.owner
  let nameAndType ← internNameAndType method.name method.descriptor
  if method.isInterface then intern (.interfaceMethodRef owner nameAndType)
  else intern (.methodRef owner nameAndType)

/-- Runs an edit to its end, giving up the pool when it fails. -/
def Edit.complete {α : Type} (edit : Edit α) (pool : Pool) : Except Failure (α × Pool) :=
  match edit.run pool with
  | (.ok value, pool) => pure (value, pool)
  | (.error failure, _) => throw failure

end Pool

end JarTailor
