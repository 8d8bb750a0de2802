import JarTailor.Config.Basic
import JarTailor.Log
import JarTailor.References

/-!
# Promoted classes and members

Promotion makes classes, fields and methods public. A nested class is described twice, by its own
flags and by a record in every class that mentions it; both are promoted.
-/

namespace JarTailor

structure Promotions where
  classes : NameSet
  fields : List MemberSpec
  methods : List MemberSpec

namespace Promotions

def ofConfig (config : Config) : Except Failure Promotions := do
  return {
    classes := .ofList config.promotedNames
    fields := ← config.fieldSpecs
    methods := ← config.methodSpecs }

def isEmpty (promotions : Promotions) : Bool :=
  promotions.classes.isEmpty && promotions.fields.isEmpty && promotions.methods.isEmpty

/-- Whether a member of `owner` is selected. Without specs its name does not matter. -/
def selects (specs : List MemberSpec) (owner : String) (pool : Pool) (member : Member) :
    Except Failure Bool := do
  if specs.isEmpty then return false
  let name ← pool.text member.name
  let descriptor ← pool.text member.descriptor
  return specs.any (·.selects owner name descriptor)

def member (specs : List MemberSpec) (owner : String) (pool : Pool) (member : Member) :
    Except Failure Member := do
  if ← selects specs owner pool member then
    return { member with flags := member.flags.promote }
  else return member

def members (specs : List MemberSpec) (owner : String) (pool : Pool) (members : List Member) :
    Except Failure (List Member) :=
  members.mapM (member specs owner pool)

def record (classes : NameSet) (pool : Pool) (record : InnerClass) :
    Except Failure InnerClass := do
  if classes.contains (← pool.className record.inner) then
    return { record with flags := record.flags.promote }
  else return record

/-- A class attribute with its records of nested classes promoted. It is written anew only if a
record changed. -/
def attributeOf (classes : NameSet) (pool : Pool) (entry : Attribute) :
    Except Failure (Attribute × Bool) := do
  if !entry.isNamed pool "InnerClasses" then return (entry, false)
  let records ← InnerClass.decodeList entry.info
  let promoted ← records.mapM (record classes pool)
  if promoted = records then return (entry, false)
  return ({ entry with info := InnerClass.encodeList promoted }, true)

def attributesOf (classes : NameSet) (pool : Pool) (attributes : List Attribute) :
    Except Failure (List (Attribute × Bool)) :=
  attributes.mapM (attributeOf classes pool)

/-- Promotes within a class; tells whether any flags changed. -/
def apply (promotions : Promotions) (classFile : ClassFile) : Logged (ClassFile × Bool) := do
  if promotions.isEmpty then return (classFile, false)
  let pool := classFile.pool
  let owner ← classFile.name
  let flags ←
    if promotions.classes.contains owner then do
      log .debug .promoting s!"promoted class {owner}"
      pure classFile.flags.promote
    else pure classFile.flags
  let fields ← members promotions.fields owner pool classFile.fields
  let methods ← members promotions.methods owner pool classFile.methods
  let attributes ← attributesOf promotions.classes pool classFile.attributes
  let changed := flags ≠ classFile.flags || fields ≠ classFile.fields ||
    methods ≠ classFile.methods || attributes.any Prod.snd
  return ({ classFile with flags, fields, methods, attributes := attributes.map Prod.fst },
    changed)

end Promotions

end JarTailor
