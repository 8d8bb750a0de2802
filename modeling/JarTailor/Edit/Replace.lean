import JarTailor.Bytecode.Body
import JarTailor.ClassFile.Basic
import JarTailor.Config.Basic
import JarTailor.Log
import Std.Data.ExtTreeSet.Lemmas

/-!
# Replaced bodies

The methods that a rule selects, and the native methods of some classes, get a body made up from
their descriptor alone.
-/

namespace JarTailor.Replace

/-- What to do with a method: the first rule that selects it and its action, or delegation for a
native method without a rule. -/
def choice? (rules : List ReplaceRule) (natives : Bool) (method : MemberRef)
    (flags : AccessFlags) : Option (Option Nat × ReplaceAction) :=
  match rules.zipIdx.find? (·.1.selects method.owner method.name method.descriptor) with
  | some (rule, position) => some (some position, rule.action)
  | none =>
      if natives && flags.has AccessFlags.nativeBit then some (none, .delegate) else none

def body (action : ReplaceAction) (method : MemberRef) (isStatic : Bool) : Pool.Edit Code :=
  match action with
  | .returnZero => Body.defaultReturn method.descriptor isStatic
  | .throwStub => Body.throwStub method.descriptor isStatic
  | .delegate => Body.delegateCall method.owner method.name method.descriptor isStatic

def codeFor (action : ReplaceAction) (method : MemberRef) (isStatic : Bool) :
    Pool.Edit (Index × Bytes) := do
  let code ← body action method isStatic
  let name ← Pool.internText Member.codeName
  return (name, code.encode)

/-- A method with the body chosen for it, and the rule that selected it. An abstract method has no
body to replace. -/
def method (rules : List ReplaceRule) (natives : Bool) (owner : String) (pool : Pool)
    (member : Member) : Logged (Pool × Member × Option Nat) := do
  let name ← pool.text member.name
  let descriptor ← pool.text member.descriptor
  match choice? rules natives ⟨owner, name, descriptor, false⟩ member.flags with
  | none => return (pool, member, none)
  | some (position, action) =>
      if member.has AccessFlags.abstractBit then
        log .warn .replacing s!"cannot replace abstract method {owner}.{name}{descriptor}"
        return (pool, member, position)
      let isStatic := member.has AccessFlags.staticBit
      let ((codeName, code), pool) ←
        (codeFor action ⟨owner, name, descriptor, false⟩ isStatic).complete pool
      log .debug .replacing s!"replaced {owner}.{name}{descriptor} ({action.label})"
      let member := { member with flags := member.flags.dropNative }
      return (pool, member.withCode pool codeName code, position)

def methods (rules : List ReplaceRule) (natives : Bool) (owner : String) :
    Pool → List Member → Logged (Pool × List Member × List Nat)
  | pool, [] => return (pool, [], [])
  | pool, member :: others => do
      let (pool, member, position) ← method rules natives owner pool member
      let (pool, others, positions) ← methods rules natives owner pool others
      return (pool, member :: others, position.toList ++ positions)

abbrev RuleSet := Std.ExtTreeSet Nat

/-- Replaces bodies in a class; tells which rules, by position, selected a method. -/
def apply (rules : List ReplaceRule) (natives : Bool) (classFile : ClassFile) :
    Logged (ClassFile × RuleSet) := do
  let owner ← classFile.name
  let (pool, methods, used) ← methods rules natives owner classFile.pool classFile.methods
  return ({ classFile with pool, methods }, .ofList used)

end JarTailor.Replace
