import JarTailor.Jar.Archive
import JarTailor.Zip.Checksum
import JarTailor.Zip.Inflate

/-!
# ZIP files

An archive as the bytes of a file: the entries, each after a header of its own, then a directory
that repeats the headers, then a record that says where the directory is. Numbers stand with their
lowest byte first. Reading goes by the directory; entries are written as they are, uncompressed,
and with a fixed date, so equal archives have equal bytes.
-/

namespace JarTailor.Zip

def entrySignature : Nat := 0x04034b50

def directorySignature : Nat := 0x02014b50

def endSignature : Nat := 0x06054b50

/-- A number of so many bytes. -/
def number (width value : Nat) : List UInt8 :=
  match width with
  | 0 => []
  | width + 1 => UInt8.ofNat value :: number width (value / 256)

def numbers (fields : List (Nat × Nat)) : List UInt8 :=
  fields.flatMap fun (width, value) => number width value

/-- The number of so many bytes at a place, if the file is long enough. -/
def numberAt? (file : ByteArray) (place : Nat) : Nat → Option Nat
  | 0 => some 0
  | width + 1 => do
      let low ← file[place]?
      return low.toNat + 256 * (← numberAt? file (place + 1) width)

def slice? (file : ByteArray) (start length : Nat) : Option ByteArray :=
  if start + length ≤ file.size then some (file.extract start (start + length)) else none

/-- Where the record at the end is: at the latest place that has its signature. -/
def endPlace? (file : ByteArray) : Option Nat :=
  if file.size < 22 then none
  else
    let last := file.size - 22
    ((List.range (min last 0xffff + 1)).map (last - ·)).find? fun place =>
      numberAt? file place 4 == some endSignature

def asText? (content : ByteArray) : Option String :=
  (Utf8.decode content.toList).toOption

/-- The content of an entry whose own header is at a place. -/
def contentAt? (file : ByteArray) (place method length check : Nat) : Option ByteArray := do
  guard (numberAt? file place 4 == some entrySignature)
  let skipped := (← numberAt? file (place + 26) 2) + (← numberAt? file (place + 28) 2)
  let raw ← slice? file (place + 30 + skipped) length
  let content ← match method with
    | 0 => some raw
    | 8 => inflate raw
    | _ => none
  guard ((checksum content).toNat = check)
  return content

/-- So many entries of the directory from a place on. -/
def entriesAt? (file : ByteArray) : Nat → Nat → Option Archive
  | _, 0 => some []
  | place, count + 1 => do
      guard (numberAt? file place 4 == some directorySignature)
      let method ← numberAt? file (place + 10) 2
      let check ← numberAt? file (place + 16) 4
      let length ← numberAt? file (place + 20) 4
      let nameLength ← numberAt? file (place + 28) 2
      let extraLength ← numberAt? file (place + 30) 2
      let commentLength ← numberAt? file (place + 32) 2
      let entryPlace ← numberAt? file (place + 42) 4
      let name ← asText? (← slice? file (place + 46) nameLength)
      let content ← contentAt? file entryPlace method length check
      let others ← entriesAt? file (place + 46 + nameLength + extraLength + commentLength) count
      return (name, content.toList) :: others

def read? (file : ByteArray) : Option Archive := do
  let place ← endPlace? file
  entriesAt? file (← numberAt? file (place + 16) 4) (← numberAt? file (place + 10) 2)

/-- The fields that both headers of an entry have, from the version on. -/
def sharedFields (name content : ByteArray) : List UInt8 :=
  numbers [(2, 20), (2, 0x0800), (2, 0), (2, 0), (2, 0x0021), (4, (checksum content).toNat),
    (4, content.size), (4, content.size), (2, name.size), (2, 0)]

/-- Writes entries after the bytes that are there already; the second component is the directory. -/
def writeEntries (file directory : ByteArray) : Archive → ByteArray × ByteArray
  | [] => (file, directory)
  | (name, content) :: entries =>
      let name := name.toUTF8
      let content := ByteArray.mk content.toArray
      let shared := sharedFields name content
      let entry := (number 4 entrySignature ++ shared).toByteArray ++ name ++ content
      let place := numbers [(2, 0), (2, 0), (2, 0), (4, 0o100644 * 0x10000), (4, file.size)]
      let record := (numbers [(4, directorySignature), (2, 0x0314)] ++ shared ++ place).toByteArray
      let record := record ++ name
      writeEntries (file ++ entry) (directory ++ record) entries

def write (archive : Archive) : ByteArray :=
  let (file, directory) := writeEntries ByteArray.empty ByteArray.empty archive
  file ++ directory ++ (numbers [(4, endSignature), (2, 0), (2, 0), (2, archive.length),
    (2, archive.length), (4, directory.size), (4, file.size), (2, 0)]).toByteArray

end JarTailor.Zip
