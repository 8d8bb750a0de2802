import JarTailor.Name
import JarTailor.TypeUse.Basic
import Std.Data.ExtTreeSet.Lemmas

/-!
# What a class refers to

The supertypes of a class, every other class it names, and the methods it calls.
-/

namespace JarTailor

namespace MemberRef

/-- Owner, then name, then descriptor, then whether the owner is an interface. -/
def order : MemberRef → MemberRef → Ordering :=
  compareLex (compareOn owner) <| compareLex (compareOn name) <|
    compareLex (compareOn descriptor) (compareOn isInterface)

instance : Std.TransCmp order := by
  unfold order
  infer_instance

instance : Ord MemberRef := ⟨order⟩

instance : Std.TransOrd MemberRef :=
  inferInstanceAs (Std.TransCmp order)

instance : Std.LawfulEqOrd MemberRef where
  eq_of_compare {a b} h := by
    change order a b = .eq at h
    simp only [order, compareLex_eq_eq, compareOn, Std.compare_eq_iff_eq] at h
    cases a
    cases b
    simp_all

end MemberRef

structure References where
  name : String
  superName : Option String
  interfaces : List String
  /-- Every class named besides the class itself; array types count as their elements. -/
  classes : NameSet
  methods : Std.ExtTreeSet MemberRef

namespace References

def ofText (pool : Pool) (index : Index) (role : TypeRole) : Except Failure (List String) := do
  let text ← pool.text index
  Except.within (.typeName text) (role.classNames text)

/-- The methods a pool refers to, in the order of their entries. -/
def methodsOf (pool : Pool) : Except Failure (List MemberRef) := do
  let found ← (List.range pool.size).mapM fun (index : Nat) =>
    match pool.entries[index]? with
    | some (.methodRef _ _) | some (.interfaceMethodRef _ _) =>
        some <$> pool.member (UInt16.ofNat index)
    | _ => pure none
  return found.filterMap id

def ofClass (classFile : ClassFile) : Except Failure References := do
  let pool := classFile.pool
  let name ← Except.within .className classFile.name
  let superName ← Except.within .superName classFile.superName
  let interfaces ← Except.within .interfaceNames classFile.interfaceNames
  let roles ← TypeUse.roles classFile
  let classes ← roles.toList.mapM fun (index, role) => ofText pool index role
  let methods ← methodsOf pool
  return {
    name, superName, interfaces
    classes := (Std.ExtTreeSet.ofList classes.flatten).erase name
    methods := Std.ExtTreeSet.ofList methods }

def ofBytes (bytes : Bytes) : Except Failure References := do
  ofClass (← Except.within .classBytes (ClassFile.decode bytes))

def supertypes (references : References) : List String :=
  references.superName.toList ++ references.interfaces

end References

end JarTailor
