import JarTailor.Jar.Scan
import JarTailor.Json
import JarTailor.References

/-!
# Dependency reports

A report lists, for each input, the classes that its classes refer to without the input holding
them. Classes that an earlier input holds too are looked at only there.
-/

namespace JarTailor

/-- By binary name, classes that are depended on and the classes that refer to them. -/
abbrev ReferrerMap := Std.ExtTreeMap String NameSet

structure InputDependencies where
  path : String
  dependencies : ReferrerMap

namespace Dependencies

/-- Adds one reference, by internal names. -/
def addReference (referrer : String) (known : ReferrerMap) (target : String) :
    ReferrerMap :=
  known.alter (binaryName target) fun referrers =>
    some ((referrers.getD ∅).insert (binaryName referrer))

/-- The class that a listing names, if the scan took it from that listing's input. -/
def supplied? (scan : Scan) (listing : Listing) (name : String) : Option FoundClass :=
  scan.classes[name]?.filter fun found => Path.same found.source listing.path

def isReported (scan : Scan) (missingOnly : Bool) (defined : NameSet) (target : String) : Bool :=
  !defined.contains target && !(missingOnly && scan.classes.contains target)

/-- Adds what one class of a listing refers to. -/
def addClass (scan : Scan) (missingOnly : Bool) (listing : Listing) (defined : NameSet)
    (known : ReferrerMap) (name : String) : Except Failure ReferrerMap := do
  match supplied? scan listing name with
  | none => return known
  | some found =>
      let references ←
        Except.within (.classEntry listing.path name) (References.ofBytes found.bytes)
      let targets := references.classes.toList.filter (isReported scan missingOnly defined)
      return targets.foldl (addReference name) known

def ofListing (scan : Scan) (missingOnly : Bool) (listing : Listing) :
    Except Failure InputDependencies := do
  let defined := .ofList listing.classes
  return ⟨listing.path,
    ← listing.classes.foldlM (addClass scan missingOnly listing defined) ∅⟩

end Dependencies

/-- What each input depends on, in the order of the inputs; with `missingOnly`, without the classes
that another input holds. -/
def dependencyReport (scan : Scan) (missingOnly : Bool) : Except Failure (List InputDependencies) :=
  scan.listings.mapM (Dependencies.ofListing scan missingOnly)

namespace Dependencies

def textOf (input : InputDependencies) : String :=
  let blocks := input.dependencies.toList.map fun (dependency, referrers) =>
    s!"    {dependency}\n" ++
      String.join (referrers.toList.map fun referrer => s!"        <- {referrer}\n")
  s!"+ {input.path}\n" ++ String.join blocks

def toText (report : List InputDependencies) : String :=
  String.join (report.map textOf)

def toJson (report : List InputDependencies) : JsonValue :=
  .object [("jars", .array (report.map fun input => .object [
    ("jar", .text input.path),
    ("dependencies", .object (input.dependencies.toList.map fun (dependency, referrers) =>
      (dependency, .array (referrers.toList.map .text))))]))]

end Dependencies

end JarTailor
