import JarTailor.Edit.Replace
import JarTailor.Proofs.Bytecode.Made
import JarTailor.Proofs.ClassFile.Contents
import JarTailor.Proofs.ClassFile.Room

/-!
# Bodies in the pool of their class

A method that gets a new body is native no more. The body interns its constants in the pool of its
class. Made again in a pool that has grown since, it is the same body, and the pool needs nothing
for it. All bodies that throw need the same constants.
-/

namespace JarTailor

namespace AccessFlags

end AccessFlags

namespace Body

section Throwing

variable {holds : Pool → Prop} {descriptor : String} {isStatic : Bool} {body : Code}
variable {before after : Pool}

end Throwing

end Body

end JarTailor
