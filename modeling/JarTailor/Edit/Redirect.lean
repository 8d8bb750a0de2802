import JarTailor.Bytecode.Instruction
import JarTailor.ClassFile.Basic
import JarTailor.Config.Basic
import JarTailor.Log

/-!
# Redirected calls

A call that a rule selects becomes a call of a static method that the rule's target provides. The
new call is as long as the old one, so nothing else in the code has to move.
-/

namespace JarTailor.Redirect

/-- Calls of constructors and private methods, and dynamic calls, are never redirected. -/
def isCall (opcode : Opcode) : Bool :=
  opcode == Opcode.invokevirtual || opcode == Opcode.invokeinterface ||
    opcode == Opcode.invokestatic

/-- The static method called instead of `callee`. The receiver of an instance method becomes the
first argument. -/
def replacement (rule : RedirectRule) (opcode : Opcode) (callee : MemberRef) :
    Except Failure MemberRef := do
  let descriptor ←
    if opcode = Opcode.invokestatic then pure callee.descriptor
    else Descriptor.withReceiver callee.owner callee.descriptor
  return ⟨rule.targetClass, callee.name, descriptor, false⟩

/-- The rule for a call that `caller` makes: the first that selects the callee, unless its target
is the caller itself. -/
def ruleFor? (rules : List RedirectRule) (caller : String) (callee : MemberRef) :
    Option RedirectRule :=
  if callee.name = "<init>" then none
  else (rules.find? (·.selects callee.owner callee.name callee.descriptor)).filter
    (·.targetClass ≠ caller)

/-- The instruction that stands in for a call, if it is one to redirect. -/
def site (rules : List RedirectRule) (caller : String) (pool : Pool) (call : Instruction) :
    Logged (Pool × Option Instruction) := do
  if !isCall call.opcode then return (pool, none)
  match call.operands with
  | high :: low :: tail =>
      let callee ← pool.member (ofBe16 high low)
      match ruleFor? rules caller callee with
      | none => return (pool, none)
      | some rule =>
          let method ← replacement rule call.opcode callee
          let (index, pool) ← (Pool.internMethod method).complete pool
          let before := s!"{callee.owner}.{callee.name}{callee.descriptor}"
          log .debug .replacing s!"{caller}: redirected {before} to {method.owner}"
          return (pool, some { call with
            opcode := Opcode.invokestatic
            operands := be16 index ++ tail.map fun _ => Opcode.nop })
  | _ => fail .codeHalfBounds

/-- The instructions with their calls redirected, and how many were. -/
def sites (rules : List RedirectRule) (caller : String) :
    Pool → List Instruction → Logged (Pool × List Instruction × Nat)
  | pool, [] => return (pool, [], 0)
  | pool, call :: others => do
      let (pool, changed) ← site rules caller pool call
      let (pool, others, count) ← sites rules caller pool others
      match changed with
      | some changed => return (pool, changed :: others, count + 1)
      | none => return (pool, call :: others, count)

/-- A method with the calls of its body redirected. A body without such calls stays as it is. -/
def method (rules : List RedirectRule) (caller : String) (pool : Pool) (member : Member) :
    Logged (Pool × Member × Nat) := do
  match member.codeIndex? pool, member.code? pool with
  | some position, some info =>
      let body ← Except.within (.codeOf caller) (Code.decode info)
      let instructions ← Instruction.split body.code
      let (pool, instructions, count) ← sites rules caller pool instructions
      if count = 0 then return (pool, member, 0)
      let body := { body with code := instructions.flatMap Instruction.encode }
      return (pool, member.withInfo position body.encode, count)
  | _, _ => return (pool, member, 0)

def methods (rules : List RedirectRule) (caller : String) :
    Pool → List Member → Logged (Pool × List Member × Nat)
  | pool, [] => return (pool, [], 0)
  | pool, member :: others => do
      let (pool, member, here) ← method rules caller pool member
      let (pool, others, count) ← methods rules caller pool others
      return (pool, member :: others, here + count)

/-- Redirects the calls of a class; tells how many. -/
def apply (rules : List RedirectRule) (classFile : ClassFile) : Logged (ClassFile × Nat) := do
  if rules.isEmpty then return (classFile, 0)
  let caller ← classFile.name
  let (pool, methods, count) ← methods rules caller classFile.pool classFile.methods
  return ({ classFile with pool, methods }, count)

end JarTailor.Redirect
