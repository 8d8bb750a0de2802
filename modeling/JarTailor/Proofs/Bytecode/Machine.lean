import JarTailor.Bytecode.Instruction
import JarTailor.Proofs.ClassFile.Growth
import JarTailor.Proofs.Success

/-!
# Executing code on types

An abstract machine that executes straight code with types for values, the way a verifier looks at
it. It stops without an outcome where an operand is missing or of another type, where the stack
outgrows its limit, where a local variable lies beyond the limit or is no value of the kind asked
for, and where code does not end in a return or a throw.
-/

namespace JarTailor

/-- What is known of a value. -/
inductive Value where
  | int
  | long
  | float
  | double
  | null
  | object (type : FieldType)
  /-- A new object of a class whose constructor has not been called yet. -/
  | fresh (name : String)
deriving Repr, DecidableEq

namespace Value

def kind : Value → ValueKind
  | .int => .int
  | .long => .long
  | .float => .float
  | .double => .double
  | .null | .object _ | .fresh _ => .reference

/-- The slots that a value takes on the stack and among the local variables. -/
def width : Value → Nat
  | .long | .double => 2
  | _ => 1

def ofType (type : FieldType) : Value :=
  match type.rank, type.element with
  | 0, .base .long => .long
  | 0, .base .float => .float
  | 0, .base .double => .double
  | 0, .base _ => .int
  | _, _ => .object type

def zero : ValueKind → Value
  | .int => .int
  | .long => .long
  | .float => .float
  | .double => .double
  | .reference => .null

/-- A value can stand where one of a type is expected: `null` wherever an object is. -/
def fits (value : Value) (type : FieldType) : Bool :=
  value == ofType type || value == .null && (ofType type).kind == .reference

/-- A value after the constructor of a class was called on a new object of it. -/
def initialised (name : String) (value : Value) : Value :=
  if value = .fresh name then .object ⟨0, .object name⟩ else value

end Value

/-- The slots that a value of a type takes. -/
def FieldType.width (type : FieldType) : Nat :=
  (Value.ofType type).width

namespace Value

theorem kind_ofType (type : FieldType) : (ofType type).kind = type.kind := by
  rcases type with ⟨_ | rank, base | name⟩
  · cases base <;> rfl
  all_goals rfl

@[simp] theorem width_ofType (type : FieldType) : (ofType type).width = type.width :=
  rfl

theorem toNat_slots (type : FieldType) : type.kind.slots.toNat = type.width := by
  rcases type with ⟨_ | rank, base | name⟩
  · cases base <;> rfl
  all_goals rfl

/-- Slots are counted in sixteen bits, which are enough for those of one method. -/
theorem toNat_add_slots {slot : UInt16} {type : FieldType}
    (h : slot.toNat + type.width < 2 ^ 16) :
    (slot + type.kind.slots).toNat = slot.toNat + type.width := by
  rw [UInt16.toNat_add, toNat_slots, Nat.mod_eq_of_lt h]

theorem fits_ofType (type : FieldType) : (ofType type).fits type = true := by
  rw [fits, beq_self_eq_true, Bool.true_or]

theorem fits_zero (type : FieldType) : (zero type.kind).fits type = true := by
  rcases type with ⟨_ | rank, base | name⟩
  · cases base <;> rfl
  all_goals rfl

theorem kind_zero (kind : ValueKind) : (zero kind).kind = kind := by
  cases kind <;> rfl

theorem width_zero (type : FieldType) : (zero type.kind).width = type.width := by
  rcases type with ⟨_ | rank, base | name⟩
  · cases base <;> rfl
  all_goals rfl

end Value

/-- What an instruction does. -/
inductive Operation where
  | load (kind : ValueKind) (slot : Nat)
  | zero (kind : ValueKind)
  | create (index : Index)
  | copy
  | text (index : Index)
  | construct (index : Index)
  | call (index : Index)
  | result (kind : Option ValueKind)
  | throw
deriving Repr, DecidableEq

namespace Operation

def loadedKind? (opcode : Opcode) : Option ValueKind :=
  [(Opcode.iload, .int), (Opcode.lload, .long), (Opcode.fload, .float), (Opcode.dload, .double),
    (Opcode.aload, .reference)].lookup opcode

/-- The operation of an instruction without operands. -/
def plain? (opcode : Opcode) : Option Operation :=
  [(Opcode.iconst0, zero .int), (Opcode.lconst0, zero .long), (Opcode.fconst0, zero .float),
    (Opcode.dconst0, zero .double), (Opcode.aconstNull, zero .reference), (Opcode.dup, copy),
    (Opcode.ireturn, result (some .int)), (Opcode.lreturn, result (some .long)),
    (Opcode.freturn, result (some .float)), (Opcode.dreturn, result (some .double)),
    (Opcode.areturn, result (some .reference)), (Opcode.returnVoid, result none),
    (Opcode.athrow, throw)].lookup opcode

/-- The operation of an instruction whose operand is a pool index. -/
def indexed? (opcode : Opcode) (index : Index) : Option Operation :=
  [(Opcode.new, create index), (Opcode.ldcW, text index), (Opcode.invokespecial, construct index),
    (Opcode.invokestatic, call index)].lookup opcode

def ofInstruction? (instruction : Instruction) : Option Operation :=
  match instruction.operands with
  | [] => plain? instruction.opcode
  | [slot] => (loadedKind? instruction.opcode).map (load · slot.toNat)
  | [high, low] => indexed? instruction.opcode (ofBe16 high low)
  | [opcode, high, low] =>
      if instruction.opcode = Opcode.wide then
        (loadedKind? opcode).map (load · (ofBe16 high low).toNat)
      else none
  | _ => none

end Operation

/-- How code ends: with a value or without one, or by throwing an object. -/
inductive Outcome where
  | returned (value : Option Value)
  | thrown (type : FieldType)
deriving Repr, DecidableEq

/-- What code can use: constants, stack slots, and local variables. A value of two slots leaves the
second one unusable. -/
structure Frame where
  pool : Pool
  maxStack : Nat
  maxLocals : Nat
  locals : List (Option Value)

namespace Frame

variable (frame : Frame)

/-- The local variables of a method that was called with values of some types. -/
def arguments (types : List FieldType) : List (Option Value) :=
  types.flatMap fun type =>
    some (Value.ofType type) :: List.replicate ((Value.ofType type).width - 1) none

def push (value : Value) (stack : List Value) : Option (List Value) :=
  if total Value.width (value :: stack) ≤ frame.maxStack then some (value :: stack) else none

/-- Takes values of some types from a stack, the first type from its top. -/
def pop : List FieldType → List Value → Option (List Value)
  | [], stack => some stack
  | type :: types, value :: stack => if value.fits type then pop types stack else none
  | _ :: _, [] => none

def load (kind : ValueKind) (slot : Nat) (stack : List Value) : Option (List Value) := do
  let value ← (frame.locals[slot]?).join
  if value.kind = kind ∧ slot + value.width ≤ frame.maxLocals then frame.push value stack else none

/-- The method that a constant names, and its type. -/
def method? (index : Index) : Option (MemberRef × MethodType) := do
  let method ← (frame.pool.member index).toOption
  return (method, ← (MethodType.parse method.descriptor).toOption)

/-- Calls a constructor: the new object lies under the arguments. -/
def construct (index : Index) (stack : List Value) : Option (List Value) := do
  let (method, type) ← frame.method? index
  match ← pop type.parameters.reverse stack with
  | .fresh name :: rest =>
      if method.name = "<init>" ∧ method.owner = name ∧ type.result = none then
        some (rest.map (Value.initialised name))
      else none
  | _ => none

def call (index : Index) (stack : List Value) : Option (List Value) := do
  let (_, type) ← frame.method? index
  let rest ← pop type.parameters.reverse stack
  match type.result with
  | some result => frame.push (.ofType result) rest
  | none => some rest

/-- Pushes the text of a string constant. -/
def text (index : Index) (stack : List Value) : Option (List Value) := do
  match ← (frame.pool.get index).toOption with
  | .stringRef string =>
      let _ ← (frame.pool.text string).toOption
      frame.push (.object ⟨0, .object "java/lang/String"⟩) stack
  | _ => none

/-- The stack after an operation that is not the last one. -/
def step (operation : Operation) (stack : List Value) : Option (List Value) :=
  match operation, stack with
  | .load kind slot, stack => frame.load kind slot stack
  | .zero kind, stack => frame.push (.zero kind) stack
  | .create index, stack => do frame.push (.fresh (← (frame.pool.className index).toOption)) stack
  | .copy, value :: rest =>
      if value.width = 1 then frame.push value (value :: rest) else none
  | .text index, stack => frame.text index stack
  | .construct index, stack => frame.construct index stack
  | .call index, stack => frame.call index stack
  | _, _ => none

/-- How the last operation ends the code. -/
def finish (operation : Operation) (stack : List Value) : Option Outcome :=
  match operation, stack with
  | .result none, _ => some (.returned none)
  | .result (some kind), value :: _ =>
      if value.kind = kind then some (.returned (some value)) else none
  | .throw, .object type :: _ => some (.thrown type)
  | _, _ => none

def steps : List Operation → List Value → Option (List Value)
  | [], stack => some stack
  | operation :: operations, stack => (frame.step operation stack).bind (steps operations)

/-- Executes operations up to the last one, which ends the code. -/
def run : List Operation → List Value → Option Outcome
  | [], _ => none
  | [last], stack => finish last stack
  | operation :: operations, stack => (frame.step operation stack).bind (run operations)

theorem steps_append (front back : List Operation) (stack : List Value) :
    frame.steps (front ++ back) stack = (frame.steps front stack).bind (frame.steps back) := by
  induction front generalizing stack with
  | nil => rfl
  | cons operation front ih =>
      rw [List.cons_append, steps, steps, Option.bind_assoc]
      congr 1
      funext next
      exact ih next

theorem run_append_singleton (front : List Operation) (last : Operation) (stack : List Value) :
    frame.run (front ++ [last]) stack = (frame.steps front stack).bind (finish last) := by
  induction front generalizing stack with
  | nil => rfl
  | cons operation front ih =>
      rw [steps, Option.bind_assoc, ← funext ih]
      cases front <;> rfl

section Steps

variable {frame} {stack next : List Value} {index : Index} {method : MemberRef} {type : MethodType}

/-- The machine does one operation after another. -/
theorem run_cons {operation : Operation} {operations : List Operation}
    (hstep : frame.step operation stack = some next) (hne : operations ≠ []) :
    frame.run (operation :: operations) stack = frame.run operations next := by
  cases operations with
  | nil => exact absurd rfl hne
  | cons other operations =>
      show (frame.step operation stack).bind _ = _
      rw [hstep, Option.bind_some]

theorem push_eq_some {value : Value} (h : total Value.width (value :: stack) ≤ frame.maxStack) :
    frame.push value stack = some (value :: stack) :=
  if_pos h

theorem step_zero {kind : ValueKind}
    (h : total Value.width (.zero kind :: stack) ≤ frame.maxStack) :
    frame.step (.zero kind) stack = some (.zero kind :: stack) :=
  push_eq_some h

theorem step_create {name : String} (hname : frame.pool.className index = .ok name)
    (h : total Value.width (.fresh name :: stack) ≤ frame.maxStack) :
    frame.step (.create index) stack = some (.fresh name :: stack) := by
  show ((frame.pool.className index).toOption.bind fun name => frame.push (.fresh name) stack) = _
  rw [hname]
  exact push_eq_some h

theorem step_copy {value : Value} (hwidth : value.width = 1)
    (h : total Value.width (value :: value :: stack) ≤ frame.maxStack) :
    frame.step .copy (value :: stack) = some (value :: value :: stack) := by
  show (if value.width = 1 then frame.push value (value :: stack) else none) = _
  rw [if_pos hwidth, push_eq_some h]

theorem step_text {text : String} (htext : frame.pool.IsString index text)
    (h : total Value.width (.object ⟨0, .object "java/lang/String"⟩ :: stack) ≤ frame.maxStack) :
    frame.step (.text index) stack =
      some (.object ⟨0, .object "java/lang/String"⟩ :: stack) := by
  obtain ⟨string, hget, hstring⟩ := htext
  show frame.text index stack = _
  rw [Frame.text, hget]
  show ((frame.pool.text string).toOption.bind fun _ => frame.push _ stack) = _
  rw [hstring]
  exact push_eq_some h

theorem method?_eq_some (hmethod : frame.pool.IsMethod index method)
    (htype : MethodType.parse method.descriptor = .ok type) :
    frame.method? index = some (method, type) := by
  rw [method?, Except.toOption_eq_some_iff.2 hmethod.member, Option.bind_eq_bind, Option.bind_some,
    Except.toOption_eq_some_iff.2 htype]
  rfl

theorem step_construct (hmethod : frame.pool.IsMethod index method)
    (htype : MethodType.parse method.descriptor = .ok type) (hname : method.name = "<init>")
    (hresult : type.result = none)
    (hpop : pop type.parameters.reverse stack = some (.fresh method.owner :: next)) :
    frame.step (.construct index) stack = some (next.map (Value.initialised method.owner)) := by
  show frame.construct index stack = _
  rw [construct, method?_eq_some hmethod htype, Option.bind_eq_bind, Option.bind_some]
  simp only [hpop, Option.bind_eq_bind, Option.bind_some]
  exact if_pos ⟨hname, trivial, hresult⟩

theorem step_call (hmethod : frame.pool.IsMethod index method)
    (htype : MethodType.parse method.descriptor = .ok type)
    (hpop : pop type.parameters.reverse stack = some next)
    (h : ∀ result, type.result = some result →
      total Value.width (.ofType result :: next) ≤ frame.maxStack) :
    frame.step (.call index) stack = some (type.result.toList.map Value.ofType ++ next) := by
  show frame.call index stack = _
  rw [call, method?_eq_some hmethod htype, Option.bind_eq_bind, Option.bind_some]
  simp only [hpop, Option.bind_eq_bind, Option.bind_some]
  cases hresult : type.result with
  | none => rfl
  | some result => exact push_eq_some (h result hresult)

end Steps

section Arguments

variable {frame}

theorem length_arguments (types : List FieldType) :
    (arguments types).length = total FieldType.width types := by
  induction types with
  | nil => rfl
  | cons type types ih =>
      have hpos : 0 < (Value.ofType type).width := by
        cases Value.ofType type <;> exact Nat.zero_lt_succ _
      rw [arguments, List.flatMap_cons, List.length_append, List.length_cons,
        List.length_replicate, ← arguments, ih, total_cons, FieldType.width]
      omega

theorem arguments_append (front back : List FieldType) :
    arguments (front ++ back) = arguments front ++ arguments back :=
  List.flatMap_append

theorem pop_ofType (types : List FieldType) (stack : List Value) :
    pop types (types.map Value.ofType ++ stack) = some stack := by
  induction types with
  | nil => rfl
  | cons type types ih =>
      rw [List.map_cons, List.cons_append, pop, if_pos (Value.fits_ofType type), ih]

/-- Loads of values of some types, one after another, from a slot on. -/
def loadsFrom : Nat → List FieldType → List Operation
  | _, [] => []
  | slot, type :: types => .load type.kind slot :: loadsFrom (slot + type.width) types

/-- Loading the arguments puts them on the stack in their order. -/
theorem steps_loadsFrom {front types : List FieldType} {stack : List Value}
    (hlocals : frame.locals = arguments (front ++ types))
    (hstack : total Value.width stack + total FieldType.width types ≤ frame.maxStack)
    (hmax : total FieldType.width (front ++ types) ≤ frame.maxLocals) :
    frame.steps (loadsFrom (total FieldType.width front) types) stack =
      some (types.reverse.map Value.ofType ++ stack) := by
  induction types generalizing front stack with
  | nil => rfl
  | cons type types ih =>
      rw [total_cons] at hstack
      rw [total_append, total_cons] at hmax
      have hslot : frame.locals[total FieldType.width front]? = some (some (Value.ofType type)) := by
        rw [hlocals, arguments_append, ← length_arguments,
          List.getElem?_append_right (Nat.le_refl _), Nat.sub_self]
        rfl
      have hload : frame.step (.load type.kind (total FieldType.width front)) stack =
          some (Value.ofType type :: stack) := by
        have hroom : total Value.width (Value.ofType type :: stack) ≤ frame.maxStack := by
          rw [total_cons, Value.width_ofType]
          omega
        have hinside : total FieldType.width front + (Value.ofType type).width ≤
            frame.maxLocals := by
          rw [Value.width_ofType]
          omega
        show frame.load _ _ stack = _
        rw [load, hslot]
        show (if _ then frame.push _ _ else none) = _
        rw [if_pos ⟨Value.kind_ofType type, hinside⟩, push_eq_some hroom]
      have hnext : total FieldType.width front + type.width =
          total FieldType.width (front ++ [type]) := by
        simp
      rw [loadsFrom, steps, hload, Option.bind_some, hnext, ih]
      · simp
      · rw [hlocals, List.append_assoc, List.singleton_append]
      · rw [total_cons, Value.width_ofType]
        omega
      · rw [List.append_assoc, List.singleton_append, total_append, total_cons]
        exact hmax

end Arguments

end Frame

end JarTailor
