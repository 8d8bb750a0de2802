import JarTailor.Bytecode.Body
import JarTailor.ClassFile.Basic
import JarTailor.Jar.Archive
import JarTailor.Log
import JarTailor.Text.Affix

/-!
# Stubs

A stub class shows what a class offers and does nothing: private and synthetic members and the
static initialiser are gone, and every method body throws.
-/

namespace JarTailor

namespace Stub

def isApi (member : Member) : Bool :=
  !member.has AccessFlags.privateBit && !member.has AccessFlags.syntheticBit

/-- Whether a method stays in a stub. The name of a method that is not offered does not matter. -/
def keepsMethod (pool : Pool) (member : Member) : Except Failure Bool := do
  if !isApi member then return false
  return (← pool.text member.name) ≠ "<clinit>"

def keptMethods (pool : Pool) : List Member → Except Failure (List Member)
  | [] => return []
  | member :: others => do
      let keep ← keepsMethod pool member
      let others ← keptMethods pool others
      return if keep then member :: others else others

/-- A method with a body that throws, after its other attributes. -/
def method (codeName : Index) (member : Member) : Pool.Edit Member := do
  if member.has AccessFlags.abstractBit then return member
  let descriptor ← (← get).text member.descriptor
  let body ← Body.throwStub descriptor (member.has AccessFlags.staticBit)
  let pool ← get
  let others := member.attributes.filter fun entry => !entry.isNamed pool Member.codeName
  return { member with
    flags := member.flags.dropNative
    attributes := others ++ [⟨codeName, body.encode⟩] }

def methods (kept : List Member) : Pool.Edit (List Member) := do
  let codeName ← Pool.internText Member.codeName
  kept.mapM (method codeName)

def ofBytes (bytes : Bytes) : Logged Bytes := do
  let classFile ← ClassFile.decode bytes
  let kept ← keptMethods classFile.pool classFile.methods
  let (methods, pool) ← (methods kept).complete classFile.pool
  let stub := { classFile with pool, methods, fields := classFile.fields.filter isApi }
  let name ← stub.name
  log .debug .stubbing s!"stubbed {name}"
  return stub.encode

/-- The files whose paths begin with `root`: in the order of paths they stand together, from the
first path that is not before `root`. -/
def under (root : String) (files : FileMap) : List (String × Bytes) :=
  (files.toList.dropWhile (·.1 < root)).takeWhile (Text.startsWith root ·.1)

/-- The stubs of the classes whose paths begin with `root`. -/
def ofFiles (files : FileMap) (root : String) : Logged FileMap := do
  let stubs ← (under root files).mapM fun (path, bytes) => do
    let stub ← (ofBytes bytes).within (.stubbing path)
    return (path, stub)
  log .info .stubbing s!"stubbed {stubs.length} classes under {root}"
  return .ofList stubs

end Stub

end JarTailor
