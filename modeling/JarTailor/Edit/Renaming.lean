import JarTailor.References

/-!
# Renaming

A renaming maps class names, and with each class the classes nested in it. It is applied to the
text entries used as types, each according to its role. String constants keep their text: an entry
that is also a string constant's text is copied for the strings before it changes.
-/

namespace JarTailor

/-- New names by old ones, all internal. -/
structure Renaming where
  table : Std.ExtTreeMap String String

namespace Renaming

/-- A renaming from pairs; of two pairs with the same source the later one counts. -/
def ofPairs (pairs : List (String × String)) : Renaming :=
  ⟨pairs.foldl (fun table pair => table.insert pair.1 pair.2) ∅⟩

def isEmpty (names : Renaming) : Bool :=
  names.table.isEmpty

def sources (names : Renaming) : List String :=
  names.table.keys

/-- The new name of a class that is nested, at any depth, in `source` when that becomes
`target`. -/
def nestedName? (source target name : String) : Option String :=
  match source.toList.isPrefixOf? name.toList with
  | some ('$' :: rest) => some (target ++ String.ofList ('$' :: rest))
  | _ => none

/-- The new name of a class, if it has one. A rule for the class itself comes before the rules for
classes around it, and of those the first in the order of the sources counts. -/
def mapClass (names : Renaming) (name : String) : Option String :=
  match names.table[name]? with
  | some renamed => some renamed
  | none => names.table.toList.findSome? fun (source, target) => nestedName? source target name

/-- Renames within a text that names types; `none` when nothing changes. -/
def mapText (names : Renaming) (role : TypeRole) (text : String) :
    Except Failure (Option String) :=
  role.mapNames text names.mapClass

/-- The entries that hold the text of a string constant. -/
def literalTexts (pool : Pool) : Std.ExtTreeSet Index :=
  .ofList <| pool.entries.toList.filterMap fun
    | .stringRef text => some text
    | _ => none

/-- Points the string constants whose text is the entry `index` at a copy of it. -/
def splitLiteral (index : Index) (content : Constant) : Pool.Edit Unit := do
  let copy ← Pool.push content
  modify fun pool => ⟨pool.entries.map fun
    | .stringRef text => .stringRef (if text = index then copy else text)
    | other => other⟩

/-- Renames within one text entry; tells whether it changed. -/
def renameEntry (names : Renaming) (literals : Std.ExtTreeSet Index) (pool : Pool)
    (index : Index) (role : TypeRole) : Except Failure (Pool × Bool) := do
  let text ← pool.text index
  match ← Except.within (.typeName text) (names.mapText role text) with
  | none => return (pool, false)
  | some renamed =>
      let pool ←
        if literals.contains index then
          Prod.snd <$> (splitLiteral index (.utf8 (Utf8.encode text))).complete pool
        else pure pool
      let pool ← pool.set index (.utf8 (Utf8.encode renamed))
      return (pool, true)

/-- Renames within a class; tells whether anything changed. -/
def apply (names : Renaming) (classFile : ClassFile) : Except Failure (ClassFile × Bool) := do
  if names.isEmpty then return (classFile, false)
  let roles ← TypeUse.roles classFile
  let literals := literalTexts classFile.pool
  let (pool, changed) ← roles.toList.foldlM (fun (pool, changed) (index, role) => do
    let (pool, renamed) ← names.renameEntry literals pool index role
    return (pool, changed || renamed)) (classFile.pool, false)
  return ({ classFile with pool }, changed)

end Renaming

end JarTailor
