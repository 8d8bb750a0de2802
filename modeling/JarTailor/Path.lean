import JarTailor.Text.Split

/-!
# Paths

A path is read as a head, which says where it starts from, and the segments after it. Segments
that are empty or a single dot lead nowhere, so paths that differ only in them are the same.
-/

namespace JarTailor.Path

/-- Where a path starts from: the root, the dot that stands for the working directory, or nothing
at all, which means the working directory too. -/
def head (path : String) : String :=
  match path.toList with
  | '/' :: _ => "/"
  | ['.'] => "."
  | '.' :: '/' :: _ => "."
  | _ => ""

/-- The segments after the head, as they are written. -/
def body (path : String) : List String :=
  Text.split '/' (String.ofList (path.toList.drop (head path).length))

def isStep (segment : String) : Bool :=
  segment ≠ "" && segment ≠ "."

def steps (path : String) : List String :=
  (body path).filter isStep

/-- Whether two paths are the same when read step by step. -/
def same (a b : String) : Bool :=
  head a == head b && steps a == steps b

theorem same_iff {a b : String} : same a b = true ↔ head a = head b ∧ steps a = steps b := by
  simp [same]

/-- The last step, unless it leads upwards. -/
def fileName? (path : String) : Option String :=
  (steps path).getLast?.filter (· ≠ "..")

/-- A file name cut at its last dot. A dot at its beginning does not count. -/
def splitName (name : String) : String × Option String :=
  let backwards := name.toList.reverse
  match (backwards.dropWhile (· ≠ '.')).drop 1 with
  | [] => (name, none)
  | stem =>
      let extension := backwards.takeWhile (· ≠ '.')
      (String.ofList stem.reverse, some (String.ofList extension.reverse))

def stem? (path : String) : Option String :=
  (fileName? path).map fun name => (splitName name).1

def extension? (path : String) : Option String :=
  (fileName? path).bind fun name => (splitName name).2

/-- Segments without those at their end that lead nowhere. -/
def trimEnd (segments : List String) : List String :=
  (segments.reverse.dropWhile fun segment => !isStep segment).reverse

/-- A path without its last step and what leads nowhere around it. -/
def parent (path : String) : String :=
  head path ++ "/".intercalate (trimEnd (trimEnd (body path)).dropLast)

def push (path name : String) : String :=
  match path.toList.getLast? with
  | none => name
  | some '/' => path ++ name
  | some _ => path ++ "/" ++ name

/-- A path with another file name; one that has none gets it as a further step. -/
def withFileName (path name : String) : String :=
  match fileName? path with
  | some _ => push (parent path) name
  | none => push path name

/-- Where the stubs of an archive go: beside it, under its name with a suffix. -/
def stubPath (output : String) : String :=
  let stem := (stem? output).getD "" ++ "-stubs"
  withFileName output <|
    match extension? output with
    | some extension => stem ++ "." ++ extension
    | none => stem

/-- Whether a path can only mean a directory. -/
def endsAsDirectory (path : String) : Bool :=
  (body path).getLast?.any fun segment => !isStep segment || segment == ".."

end JarTailor.Path
