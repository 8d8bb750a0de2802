import JarTailor.Failure
import JarTailor.Name

/-!
# Configurations

A configuration says which classes to keep and how to change them. Class names in it are binary
names; the rules are applied in terms of internal names.
-/

namespace JarTailor

/-- Selects the members of a class, by internal name, that have a name and, if one is given, a
descriptor. -/
structure MemberSpec where
  owner : String
  name : String
  descriptor : Option String
deriving Repr, DecidableEq, Inhabited

namespace MemberSpec

def selects (spec : MemberSpec) (owner name descriptor : String) : Bool :=
  spec.owner == owner && spec.name == name && spec.descriptor.all (· == descriptor)

theorem selects_iff {spec : MemberSpec} {owner name descriptor : String} :
    spec.selects owner name descriptor = true ↔
      spec.owner = owner ∧ spec.name = name ∧ ∀ wanted ∈ spec.descriptor, wanted = descriptor := by
  cases hd : spec.descriptor <;> simp [selects, hd, and_assoc]

/-- Reads `Class#member` or `Class#member(descriptor)`, the class by its binary name. -/
def parse (text : String) : Except Failure MemberSpec :=
  let owner := text.toList.takeWhile (· ≠ '#')
  match text.toList.dropWhile (· ≠ '#') with
  | [] => fail (.memberSpec text)
  | _ :: member =>
      let name := member.takeWhile (· ≠ '(')
      let descriptor := member.dropWhile (· ≠ '(')
      if owner.isEmpty || name.isEmpty then fail (.memberSpec text)
      else pure {
        owner := internalName (String.ofList owner)
        name := String.ofList name
        descriptor := if descriptor.isEmpty then none else some (String.ofList descriptor) }

end MemberSpec

structure RenameRule where
  source : String
  target : String
deriving Repr, DecidableEq, Inhabited

inductive ReplaceAction where
  | returnZero
  | throwStub
  /-- Forwards to a static method of the companion class. -/
  | delegate
deriving Repr, DecidableEq, Inhabited

namespace ReplaceAction

def key : ReplaceAction → String
  | .returnZero => "stub"
  | .throwStub => "throw"
  | .delegate => "delegate"

def label : ReplaceAction → String
  | .returnZero => "Stub"
  | .throwStub => "Throw"
  | .delegate => "Delegate"

def ofKey? : String → Option ReplaceAction
  | "stub" => some .returnZero
  | "throw" => some .throwStub
  | "delegate" => some .delegate
  | _ => none

@[simp] theorem ofKey?_key (action : ReplaceAction) : ofKey? action.key = some action := by
  cases action <;> rfl

end ReplaceAction

/-- The methods of a class that a rule is about. -/
structure MethodPattern where
  className : String
  method : String
  descriptor : Option String
deriving Repr, DecidableEq, Inhabited

namespace MethodPattern

def spec (pattern : MethodPattern) : MemberSpec :=
  ⟨internalName pattern.className, pattern.method, pattern.descriptor⟩

def text (pattern : MethodPattern) : String :=
  pattern.className ++ "#" ++ pattern.method ++ pattern.descriptor.getD ""

end MethodPattern

structure ReplaceRule where
  pattern : MethodPattern
  action : ReplaceAction
deriving Repr, DecidableEq, Inhabited

def ReplaceRule.selects (rule : ReplaceRule) : String → String → String → Bool :=
  rule.pattern.spec.selects

structure RedirectRule where
  pattern : MethodPattern
  /-- The class that provides the static methods called instead. -/
  target : String
deriving Repr, DecidableEq, Inhabited

namespace RedirectRule

def selects (rule : RedirectRule) : String → String → String → Bool :=
  rule.pattern.spec.selects

def targetClass (rule : RedirectRule) : String :=
  internalName rule.target

end RedirectRule

structure Config where
  /-- Classes whose subclasses and implementors are kept. -/
  derivedFrom : List String := []
  includes : List String := []
  excludes : List String := []
  excludedFiles : List String := []
  renames : List RenameRule := []
  replacements : List ReplaceRule := []
  /-- Classes whose native methods are all delegated. -/
  delegatedNatives : List String := []
  redirects : List RedirectRule := []
  promotedClasses : List String := []
  promotedFields : List String := []
  promotedMethods : List String := []
  /-- Where the paths of the classes in the stub archive begin. -/
  stubRoot : Option String := none
deriving Repr, DecidableEq, Inhabited

namespace Config

/-- The renames as pairs of internal names, in the order of the rules. -/
def renameTable (config : Config) : List (String × String) :=
  config.renames.map fun rule => (internalName rule.source, internalName rule.target)

def fieldSpecs (config : Config) : Except Failure (List MemberSpec) :=
  config.promotedFields.mapM MemberSpec.parse

def methodSpecs (config : Config) : Except Failure (List MemberSpec) :=
  config.promotedMethods.mapM MemberSpec.parse

def promotedNames (config : Config) : List String :=
  config.promotedClasses.map internalName

def delegatesNatives (config : Config) (owner : String) : Bool :=
  config.delegatedNatives.any (internalName · == owner)

def defaultStubRoot : String := "android/"

def stubRootPath (config : Config) : String :=
  config.stubRoot.getD defaultStubRoot

end Config

end JarTailor
