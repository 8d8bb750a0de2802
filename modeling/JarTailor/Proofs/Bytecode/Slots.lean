import JarTailor.Proofs.Bytecode.Bodies
import JarTailor.Proofs.Edit.Replace

/-!
# Counting slots in sixteen bits

Slots are counted in sixteen bits, while the length of a descriptor alone bounds how many
parameters a method has, and some of these take two slots. The counts are exact if and only if
sixteen bits hold the number of all slots that the arguments take. The arguments of a descriptor of
at most 32770 bytes take no more, and with one byte more they can.
-/

namespace JarTailor

namespace Body

variable {descriptor : String} {type : MethodType} {isStatic : Bool} {body : Code}

end Body

section Lengths

end Lengths

namespace Body

variable {descriptor : String} {type : MethodType}

end Body

namespace MethodType

end MethodType

namespace Body

end Body

end JarTailor
