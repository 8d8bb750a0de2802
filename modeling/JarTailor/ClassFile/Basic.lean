import JarTailor.ClassFile.Code
import JarTailor.ClassFile.InnerClasses
import JarTailor.ClassFile.Member

/-!
# Class files

A class file is read into its constant pool, its header and its members; attributes stay bytes,
so whatever no pass touches is written back as it was.
-/

namespace JarTailor

structure ClassFile where
  minor : UInt16
  major : UInt16
  pool : Pool
  flags : AccessFlags
  thisClass : Index
  superClass : Index
  interfaces : List Index
  fields : List Member
  methods : List Member
  attributes : List Attribute
deriving Repr, DecidableEq, Inhabited

namespace ClassFile

def magic : UInt32 := 0xcafebabe

def name (classFile : ClassFile) : Except Failure String :=
  classFile.pool.className classFile.thisClass

/-- The superclass; index 0 stands for none. -/
def superName (classFile : ClassFile) : Except Failure (Option String) :=
  if classFile.superClass = 0 then pure none
  else some <$> classFile.pool.className classFile.superClass

def interfaceNames (classFile : ClassFile) : Except Failure (List String) :=
  classFile.interfaces.mapM classFile.pool.className

def reader : Decode ClassFile := do
  let found ← Decode.u32
  if found ≠ magic then fail (.badMagic found)
  let minor ← Decode.u16
  let major ← Decode.u16
  let pool ← Pool.decode.within .poolSection
  let flags ← Decode.u16
  let thisClass ← Decode.u16
  let superClass ← Decode.u16
  let interfaceCount ← Decode.u16
  let interfaces ← Decode.times interfaceCount.toNat Decode.u16
  let fields ← Member.decodeList.within .fieldsSection
  let methods ← Member.decodeList.within .methodsSection
  let attributes ← Attribute.decodeList.within .attributesSection
  return { minor, major, pool, flags, thisClass, superClass, interfaces, fields, methods,
           attributes }

/-- Reads a class file that takes up all the bytes and can tell its own name. -/
def decode (bytes : Bytes) : Except Failure ClassFile := do
  let (classFile, rest) ← reader bytes
  if rest.isEmpty then
    let _ ← Except.within .thisClass classFile.name
    pure classFile
  else fail (.trailingBytes rest.length)

def encode (classFile : ClassFile) : Bytes :=
  be32 magic ++ be16 classFile.minor ++ be16 classFile.major ++ classFile.pool.encode ++
    be16 classFile.flags ++ be16 classFile.thisClass ++ be16 classFile.superClass ++
    be16 (UInt16.ofNat classFile.interfaces.length) ++ classFile.interfaces.flatMap be16 ++
    Member.encodeList classFile.fields ++ Member.encodeList classFile.methods ++
    Attribute.encodeList classFile.attributes

end ClassFile

end JarTailor
