import JarTailor.Bytes
import JarTailor.Text.Affix
import JarTailor.Text.Utf8
import Std.Data.ExtTreeMap.Lemmas

/-!
# Archives

An archive is a list of named entries in the order in which it holds them. Those written here begin
with a manifest of their own; a manifest among the given files is left out.
-/

namespace JarTailor

abbrev FileMap := Std.ExtTreeMap String Bytes

abbrev Archive := List (String × Bytes)

namespace Archive

def manifestPath : String := "META-INF/MANIFEST.MF"

def manifest : Bytes :=
  Utf8.encode "Manifest-Version: 1.0\r\nCreated-By: layoutlib-create 0.1.0\r\n\r\n"

/-- Whether an entry is a directory, which its name alone tells. -/
def isDirectory (name : String) : Bool :=
  Text.endsWith "/" name || Text.endsWith "\\" name

/-- The archive of some files: the manifest first and then the others in the order of their
paths. -/
def ofFiles (files : FileMap) : Archive :=
  (manifestPath, manifest) :: files.toList.filter (·.1 ≠ manifestPath)

/-- The entries that are no directories, in the order of their names. -/
def files (archive : Archive) : Archive :=
  (archive.filter fun entry => !isDirectory entry.1).mergeSort fun a b => decide (a.1 ≤ b.1)

end Archive

end JarTailor
