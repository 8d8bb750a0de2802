import JarTailor.ClassFile.Constant
import JarTailor.Signature

/-!
# How a text names types
-/

namespace JarTailor

inductive TypeRole where
  /-- An internal name, or an array descriptor, as a class entry holds it. -/
  | className
  | descriptor
  | signature
deriving Repr, DecidableEq, Inhabited

namespace TypeRole

/-- Changes a text through `f`, which sees every class the text names, in order. Whether the text
can be read does not depend on `f`. -/
def mapNamesM {m : Type → Type} [Monad m] (role : TypeRole) (text : String)
    (f : String → m (Option String)) : Except Failure (m (Option String)) :=
  match role with
  | .className =>
      if text.toList.head? = some '[' then asDescriptor else pure (f text)
  | .descriptor => asDescriptor
  | .signature => do
      let pieces ← Signature.pieces text
      pure (Option.map Signature.spell <$> Signature.mapNamesM f pieces)
where
  asDescriptor : Except Failure (m (Option String)) := do
    let descriptor ← Descriptor.parse text
    pure (Option.map Descriptor.text <$> descriptor.mapNamesM f)

/-- Changes a text through `f`; `none` when `f` changes nothing. -/
def mapNames (role : TypeRole) (text : String) (f : String → Option String) :
    Except Failure (Option String) :=
  role.mapNamesM (m := Id) text f

/-- The classes a text names, in order and with repetitions. -/
def classNames (role : TypeRole) (text : String) : Except Failure (List String) :=
  match role with
  | .className =>
      if text.toList.head? = some '[' then Descriptor.classNames <$> Descriptor.parse text
      else pure [text]
  | .descriptor => Descriptor.classNames <$> Descriptor.parse text
  | .signature => Signature.classNames <$> Signature.pieces text

end TypeRole

structure TypeUse where
  index : Index
  role : TypeRole
deriving Repr, DecidableEq, Inhabited

end JarTailor
