/-!
# Checksums of ZIP entries

The cyclic redundancy check with the reversed polynomial `0xedb88320`, a bit at a time.
-/

namespace JarTailor.Zip

def polynomial : UInt32 := 0xedb88320

def divide : Nat → UInt32 → UInt32
  | 0, remainder => remainder
  | count + 1, remainder =>
      let shifted := remainder >>> 1
      divide count (if remainder &&& 1 = 1 then shifted ^^^ polynomial else shifted)

def checksum (content : ByteArray) : UInt32 :=
  ~~~ content.foldl (fun remainder byte => divide 8 (remainder ^^^ byte.toUInt32)) 0xffffffff

end JarTailor.Zip
