import JarTailor.Failure
import JarTailor.Jar.Archive
import JarTailor.Path
import JarTailor.Zip.Container

/-!
# Files

A `Disk` is all that the program sees of the files around it: what is at a path, and whether a file
can be written there. A `FileTree` is a disk held in memory.
-/

namespace JarTailor

inductive Node where
  | directory
  | archive (entries : Archive)
  | plain (content : Bytes)
deriving Repr, DecidableEq, Inhabited

def Node.bytes? : Node → Option Bytes
  | .directory => none
  | .archive entries => some (Zip.write entries).toList
  | .plain content => some content

structure Disk where
  find : String → Option Node
  admits : String → Bool

namespace Disk

/-- The text of a file. The bytes of an archive are none, unless it has no entries. -/
def readText (disk : Disk) (path : String) : Except Failure String :=
  Except.within (.reading path) <|
    match ((disk.find path).bind Node.bytes?).map Utf8.decode with
    | some (.ok text) => pure text
    | _ => fail (.external .file)

def openArchive (disk : Disk) (path : String) : Except Failure Archive :=
  match disk.find path with
  | some (.archive entries) => pure entries
  | some _ => Except.within (.reading path) (fail (.external .archive))
  | none => Except.within (.opening path) (fail (.external .file))

end Disk

/-- Nodes by the steps that lead to them, joined by slashes; the working directory is at the empty
text. Every node is in a directory of the tree. -/
structure FileTree where
  nodes : Std.ExtTreeMap String Node

namespace FileTree

def empty : FileTree := ⟨(∅ : Std.ExtTreeMap String Node).insert "" .directory⟩

def keyOf (steps : List String) : String :=
  "/".intercalate steps

/-- Adds a node and the directories on the way to it. -/
def insert (tree : FileTree) (path : String) (node : Node) : FileTree :=
  let steps := Path.steps path
  let directories := (List.range steps.length).map fun count => keyOf (steps.take count)
  let nodes := directories.foldl (fun nodes key => nodes.insertIfNew key .directory) tree.nodes
  ⟨nodes.insert (keyOf steps) node⟩

def isDirectory (tree : FileTree) (steps : List String) : Bool :=
  tree.nodes[keyOf steps]? == some .directory

/-- Takes one step from a directory. No step leads out of the tree. -/
def step (tree : FileTree) (steps : List String) (next : String) : Option (List String) :=
  if !tree.isDirectory steps then none
  else if next ≠ ".." then some (steps ++ [next])
  else if steps.isEmpty then none
  else some steps.dropLast

/-- The place a path leads to, which may be empty but is in a directory. -/
def place? (tree : FileTree) (path : String) : Option String :=
  if path = "" || Path.head path = "/" then none
  else ((Path.steps path).foldlM tree.step []).map keyOf

def find (tree : FileTree) (path : String) : Option Node :=
  ((tree.place? path).bind (tree.nodes[·]?)).filter fun node =>
    node == .directory || !Path.endsAsDirectory path

def admits (tree : FileTree) (path : String) : Bool :=
  !Path.endsAsDirectory path &&
    (tree.place? path).any fun place => tree.nodes[place]? != some .directory

def disk (tree : FileTree) : Disk := ⟨tree.find, tree.admits⟩

end FileTree

end JarTailor
