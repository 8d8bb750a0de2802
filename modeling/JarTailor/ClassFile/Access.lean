/-!
# Access flags

One word of flags describes a class, a field, a method or a nested-class record.
-/

namespace JarTailor

abbrev AccessFlags := UInt16

namespace AccessFlags

def publicBit : AccessFlags := 0x0001
def privateBit : AccessFlags := 0x0002
def protectedBit : AccessFlags := 0x0004
def staticBit : AccessFlags := 0x0008
def nativeBit : AccessFlags := 0x0100
def abstractBit : AccessFlags := 0x0400
def syntheticBit : AccessFlags := 0x1000

def has (flags bit : AccessFlags) : Bool :=
  flags &&& bit != 0

/-- Public, and neither private nor protected; every other flag is kept. -/
def promote (flags : AccessFlags) : AccessFlags :=
  (flags &&& ~~~(privateBit ||| protectedBit)) ||| publicBit

def dropNative (flags : AccessFlags) : AccessFlags :=
  flags &&& ~~~nativeBit

end AccessFlags

end JarTailor
