import JarTailor.Proofs.Bytecode.Boundaries
import JarTailor.Proofs.Bytecode.Machine
import JarTailor.Proofs.Bytecode.Made
import JarTailor.Proofs.Receiver
import JarTailor.Proofs.Success
import Mathlib

/-!
# Synthesised bodies can be executed

The three bodies that are made up for methods stay inside the limits that they state, for every
method type whose arguments fit into the local variables.
-/

namespace JarTailor

/-- Code that is cut into instructions with some operations, wherever it stands. -/
def Writes (code : Bytes) (operations : List Operation) : Prop :=
  ∀ offset, ∃ instructions, Instruction.splitFrom offset code = .ok instructions ∧
    instructions.mapM Operation.ofInstruction? = some operations

namespace Writes

theorem nil : Writes [] [] :=
  fun offset => ⟨[], by rw [Instruction.splitFrom]; rfl, rfl⟩

theorem append {front back : Bytes} {first second : List Operation} (hfront : Writes front first)
    (hback : Writes back second) : Writes (front ++ back) (first ++ second) := by
  intro offset
  obtain ⟨firsts, hfirsts, hfirst⟩ := hfront offset
  obtain ⟨seconds, hseconds, hsecond⟩ := hback (offset + front.length)
  obtain ⟨hlaid, rfl⟩ := Instruction.splitFrom_eq_ok_iff.1 hfirsts
  obtain ⟨hlaid', rfl⟩ := Instruction.splitFrom_eq_ok_iff.1 hseconds
  refine ⟨firsts ++ seconds, Instruction.splitFrom_eq_ok_iff.2 ⟨hlaid.append hlaid', ?_⟩, ?_⟩
  · rw [List.flatMap_append]
  · rw [List.mapM_append, hfirst, hsecond]
    rfl

theorem of_instruction {opcode : Opcode} {operands : Bytes} {operation : Operation}
    (hcomplete : ∀ offset, Instruction.Complete ⟨offset, opcode, operands⟩)
    (hoperation : ∀ offset,
      Operation.ofInstruction? ⟨offset, opcode, operands⟩ = some operation) :
    Writes (opcode :: operands) [operation] := by
  intro offset
  refine ⟨[⟨offset, opcode, operands⟩], Instruction.splitFrom_eq_ok_iff.2
    ⟨.cons (hcomplete offset) (.nil _), ?_⟩, ?_⟩
  · rw [List.flatMap_singleton, Instruction.encode]
  · rw [List.mapM_cons, hoperation]
    rfl

theorem plain {opcode : Opcode} {operation : Operation} (hfixed : opcode.fixedLength? = some 1)
    (hoperation : Operation.plain? opcode = some operation) : Writes [opcode] [operation] :=
  of_instruction (fun _ => Instruction.lengthAt_eq_ok_iff.2 (Or.inl hfixed)) fun _ => hoperation

theorem indexed {opcode : Opcode} {index : Index} {operation : Operation}
    (hfixed : opcode.fixedLength? = some 3)
    (hoperation : Operation.indexed? opcode index = some operation) :
    Writes (Body.indexed opcode index) [operation] := by
  refine of_instruction (fun _ => Instruction.lengthAt_eq_ok_iff.2 (Or.inl hfixed)) fun _ => ?_
  rw [Operation.ofInstruction?]
  show Operation.indexed? opcode (ofBe16 _ _) = _
  rw [ofBe16_be16, hoperation]

theorem zero (kind : ValueKind) : Writes [kind.zeroOpcode] [.zero kind] := by
  cases kind <;> exact plain rfl rfl

theorem returning (type : MethodType) :
    Writes [type.returnOpcode] [.result (type.result.map FieldType.kind)] := by
  rw [MethodType.returnOpcode]
  cases type.result with
  | none => exact plain rfl rfl
  | some result =>
      simp only [Option.map_some]
      cases result.kind <;> exact plain rfl rfl

theorem load (kind : ValueKind) (slot : UInt16) :
    Writes (Body.load kind.loadOpcode slot) [.load kind slot.toNat] := by
  have hkind : Operation.loadedKind? kind.loadOpcode = some kind := by
    cases kind <;> rfl
  rw [Body.load]
  split
  · next hsmall =>
      have hslot : slot.toUInt8.toNat = slot.toNat := by
        rw [UInt16.toNat_toUInt8]
        omega
      refine of_instruction (fun _ => ?_) fun _ => ?_
      · cases kind <;> rfl
      · show (Operation.loadedKind? kind.loadOpcode).map _ = _
        rw [hkind, Option.map_some, hslot]
  · refine of_instruction (fun _ => ?_) fun _ => ?_
    · cases kind <;> rfl
    · rw [Operation.ofInstruction?]
      show (if Opcode.wide = Opcode.wide then _ else none) = _
      rw [if_pos rfl, ofBe16_be16, hkind, Option.map_some]

theorem loadAll {slot : UInt16} {types : List FieldType}
    (hslots : slot.toNat + total FieldType.width types < 2 ^ 16) :
    Writes (Body.loadAll slot types) (Frame.loadsFrom slot.toNat types) := by
  induction types generalizing slot with
  | nil => exact nil
  | cons type types ih =>
      rw [total_cons] at hslots
      have hnext : (slot + type.kind.slots).toNat = slot.toNat + type.width :=
        Value.toNat_add_slots (by omega)
      have hothers : Writes (Body.loadAll (slot + type.kind.slots) types)
          (Frame.loadsFrom (slot + type.kind.slots).toNat types) :=
        ih (by rw [hnext]; omega)
      rw [hnext] at hothers
      exact (load type.kind slot).append hothers

end Writes

/-- The operations of a body. -/
def Code.operations? (body : Code) : Option (List Operation) := do
  (← (Instruction.split body.code).toOption).mapM Operation.ofInstruction?

/-- What a body can use when its method is called with values of some types. -/
def Frame.ofBody (pool : Pool) (types : List FieldType) (body : Code) : Frame :=
  ⟨pool, body.maxStack.toNat, body.maxLocals.toNat, Frame.arguments types⟩

theorem Writes.operations? {body : Code} {operations : List Operation}
    (h : Writes body.code operations) : body.operations? = some operations := by
  obtain ⟨instructions, hsplit, hoperations⟩ := h 0
  have hsplit : Instruction.split body.code = .ok instructions := hsplit
  rw [Code.operations?, Except.toOption_eq_some_iff.2 hsplit]
  exact hoperations

namespace MethodType

variable {type : MethodType}

/-- The types of what a method is called with, the receiver first. -/
def received (type : MethodType) (owner : String) (isStatic : Bool) : List FieldType :=
  if isStatic then type.parameters else ⟨0, .object owner⟩ :: type.parameters

/-- The slots that the arguments of a method take, the receiver included. -/
def argumentWidth (type : MethodType) (isStatic : Bool) : Nat :=
  total FieldType.width type.parameters + if isStatic then 0 else 1

theorem total_received (type : MethodType) (owner : String) (isStatic : Bool) :
    total FieldType.width (type.received owner isStatic) = type.argumentWidth isStatic := by
  cases isStatic with
  | true => rfl
  | false =>
      have hreceiver : (⟨0, .object owner⟩ : FieldType).width = 1 := rfl
      rw [received, if_neg Bool.false_ne_true, total_cons, hreceiver, argumentWidth,
        if_neg Bool.false_ne_true, Nat.add_comm]

/-- Beyond sixteen bits the count of slots starts again. -/
theorem toNat_foldl_slots (types : List FieldType) (start : UInt16) :
    ((types.map (·.kind.slots)).foldl (· + ·) start).toNat =
      (start.toNat + total FieldType.width types) % 2 ^ 16 := by
  induction types generalizing start with
  | nil => exact (Nat.mod_eq_of_lt start.toNat_lt).symm
  | cons first types ih =>
      rw [List.map_cons, List.foldl_cons, ih, UInt16.toNat_add, Value.toNat_slots,
        Nat.mod_add_mod, total_cons, Nat.add_assoc]

theorem toNat_parameterSlots (type : MethodType) :
    type.parameterSlots.toNat = total FieldType.width type.parameters % 2 ^ 16 := by
  rw [parameterSlots, toNat_foldl_slots, UInt16.toNat_zero, Nat.zero_add]

theorem toNat_argumentSlots_eq_mod (type : MethodType) (isStatic : Bool) :
    (type.argumentSlots isStatic).toNat = type.argumentWidth isStatic % 2 ^ 16 := by
  rw [argumentSlots, UInt16.toNat_add, toNat_parameterSlots, Nat.mod_add_mod, argumentWidth]
  cases isStatic <;> rfl

theorem argumentWidth_lt (h : total FieldType.width type.parameters + 1 < 2 ^ 16)
    (isStatic : Bool) : type.argumentWidth isStatic < 2 ^ 16 := by
  rw [argumentWidth]
  split <;> omega

theorem toNat_argumentSlots (h : total FieldType.width type.parameters + 1 < 2 ^ 16)
    (owner : String) (isStatic : Bool) :
    (type.argumentSlots isStatic).toNat =
      total FieldType.width (type.received owner isStatic) := by
  rw [total_received, toNat_argumentSlots_eq_mod, Nat.mod_eq_of_lt (argumentWidth_lt h isStatic)]

theorem toNat_resultSlots (type : MethodType) :
    type.resultSlots.toNat = total FieldType.width type.result.toList := by
  rw [resultSlots]
  cases type.result with
  | none => rfl
  | some result => exact Value.toNat_slots result

end MethodType

/-- Code that ends by returning a value of the declared type, or nothing if none is declared. -/
def Outcome.Returns (outcome : Outcome) : Option FieldType → Prop
  | none => outcome = .returned none
  | some type => ∃ value, outcome = .returned (some value) ∧ value.fits type = true

namespace Body

/-- A body does some operations and reaches its end, with values of some types in its local
variables, which have just as many slots as these need. -/
structure Executes (pool : Pool) (types : List FieldType) (body : Code)
    (operations : List Operation) (outcome : Outcome) : Prop where
  decodes : body.operations? = some operations
  runs : (Frame.ofBody pool types body).run operations [] = some outcome
  maxLocals : body.maxLocals.toNat = total FieldType.width types

/-- The body returns the zero of the declared type, if one is declared. -/
def ReturnsDefault (pool : Pool) (owner : String) (type : MethodType) (isStatic : Bool)
    (body : Code) : Prop :=
  ∃ outcome, Executes pool (type.received owner isStatic) body
      (type.result.toList.map (.zero ·.kind) ++ [.result (type.result.map FieldType.kind)])
      outcome ∧
    outcome.Returns type.result

/-- The body throws an exception with the message of a stub. -/
def ThrowsStub (pool : Pool) (owner : String) (type : MethodType) (isStatic : Bool)
    (body : Code) : Prop :=
  ∃ exception message constructor,
    pool.className exception = .ok "java/lang/RuntimeException" ∧
      pool.IsString message "Stub!" ∧
      pool.IsMethod constructor
        ⟨"java/lang/RuntimeException", "<init>", "(Ljava/lang/String;)V", false⟩ ∧
      Executes pool (type.received owner isStatic) body
        [.create exception, .copy, .text message, .construct constructor, .throw]
        (.thrown ⟨0, .object "java/lang/RuntimeException"⟩)

/-- The body passes everything that it received to a method of the companion class, and returns what
comes back. -/
def Delegates (pool : Pool) (owner name descriptor : String) (type : MethodType)
    (isStatic : Bool) (body : Code) : Prop :=
  ∃ index passed outcome,
    pool.IsMethod index ⟨owner ++ "_Delegate", name, passed, false⟩ ∧
      (if isStatic then passed = descriptor
        else ∃ rest, descriptor = "(" ++ rest ∧ passed = "(L" ++ owner ++ ";" ++ rest) ∧
      Executes pool (type.received owner isStatic) body
        (Frame.loadsFrom 0 (type.received owner isStatic) ++
          [.call index, .result (type.result.map FieldType.kind)]) outcome ∧
      outcome.Returns type.result

variable {descriptor owner : String} {type : MethodType} {isStatic : Bool} {pool : Pool}

theorem returnsDefault_of_parse (hparse : MethodType.parse descriptor = .ok type)
    (hslots : total FieldType.width type.parameters + 1 < 2 ^ 16) :
    ∃ body, defaultReturn descriptor isStatic = .ok body ∧
      ReturnsDefault pool owner type isStatic body := by
  obtain ⟨parameters, result⟩ := type
  refine ⟨_, Except.bind_eq_ok_iff.2 ⟨_, hparse, rfl⟩, ?_⟩
  have hlocals := MethodType.toNat_argumentSlots hslots owner isStatic
  have hreturn := Writes.returning ⟨parameters, result⟩
  cases result with
  | none => exact ⟨.returned none, ⟨hreturn.operations?, rfl, hlocals⟩, rfl⟩
  | some result =>
      refine ⟨.returned (some (.zero result.kind)),
        ⟨((Writes.zero result.kind).append hreturn).operations?, ?_, hlocals⟩,
        _, rfl, Value.fits_zero result⟩
      have hroom : total Value.width [Value.zero result.kind] ≤ result.kind.slots.toNat := by
        rw [total_cons, Value.width_zero, Value.toNat_slots]
        exact Nat.le_refl _
      exact (Frame.run_cons (Frame.step_zero hroom) (List.cons_ne_nil _ _)).trans
        (if_pos (Value.kind_zero result.kind))

theorem parse_exceptionConstructor :
    MethodType.parse exceptionConstructor.descriptor =
      .ok ⟨[⟨0, .object "java/lang/String"⟩], none⟩ := by
  cbv

theorem run_stub {frame : Frame} {exception message constructor : Index}
    (hstack : 3 ≤ frame.maxStack) (hname : frame.pool.className exception = .ok exceptionClass)
    (htext : frame.pool.IsString message stubMessage)
    (hmethod : frame.pool.IsMethod constructor exceptionConstructor) :
    frame.run [.create exception, .copy, .text message, .construct constructor, .throw] [] =
      some (.thrown ⟨0, .object exceptionClass⟩) := by
  have hroom {count : Nat} (hcount : count ≤ 3) : count ≤ frame.maxStack :=
    Nat.le_trans hcount hstack
  have hpop : Frame.pop [⟨0, .object "java/lang/String"⟩] [.object ⟨0, .object "java/lang/String"⟩,
      .fresh exceptionClass, .fresh exceptionClass] =
        some (.fresh exceptionConstructor.owner :: [.fresh exceptionClass]) := rfl
  calc
    _ = frame.run [.copy, .text message, .construct constructor, .throw]
          [.fresh exceptionClass] :=
        Frame.run_cons (Frame.step_create hname (hroom (by decide))) (List.cons_ne_nil _ _)
    _ = frame.run [.text message, .construct constructor, .throw]
          [.fresh exceptionClass, .fresh exceptionClass] :=
        Frame.run_cons (Frame.step_copy rfl (hroom (by decide))) (List.cons_ne_nil _ _)
    _ = frame.run [.construct constructor, .throw]
          [.object ⟨0, .object "java/lang/String"⟩, .fresh exceptionClass,
            .fresh exceptionClass] :=
        Frame.run_cons (Frame.step_text htext (hroom (by decide))) (List.cons_ne_nil _ _)
    _ = frame.run [.throw] [.object ⟨0, .object exceptionClass⟩] :=
        Frame.run_cons (Frame.step_construct hmethod parse_exceptionConstructor rfl rfl hpop)
          (List.cons_ne_nil _ _)
    _ = _ := rfl

theorem throwsStub_of_complete {after : Pool} {body : Code}
    (hparse : MethodType.parse descriptor = .ok type)
    (hslots : total FieldType.width type.parameters + 1 < 2 ^ 16)
    (hsize : pool.size ≤ Pool.capacity)
    (h : (throwStub descriptor isStatic).complete pool = .ok (body, after)) :
    ThrowsStub after owner type isStatic body := by
  obtain ⟨found, parts, hfound, hparts, rfl⟩ := throwStub_eq_ok_iff.1 h
  obtain rfl : type = found := Except.ok.inj (hparse.symm.trans hfound)
  obtain ⟨-, hname, htext, hmethod⟩ : Pool.Grows pool after ∧ _ :=
    gains_throwParts hsize hparts trivial trivial
  have hwrites : Writes (throwing type isStatic parts).code
      [.create parts.1, .copy, .text parts.2.1, .construct parts.2.2, .throw] :=
    ((((Writes.indexed rfl rfl).append (Writes.plain rfl rfl)).append
      (Writes.indexed rfl rfl)).append (Writes.indexed rfl rfl)).append (Writes.plain rfl rfl)
  refine ⟨parts.1, parts.2.1, parts.2.2, hname, htext, hmethod,
    hwrites.operations?, ?_, MethodType.toNat_argumentSlots hslots owner isStatic⟩
  exact run_stub (Nat.le_refl 3) hname htext hmethod

theorem exists_passed {name : String} {target : MemberRef}
    (h : delegateMethod owner name descriptor isStatic = .ok target)
    (hparse : MethodType.parse descriptor = .ok type) (howner : Enclosable owner) :
    ∃ passed, target = ⟨owner ++ "_Delegate", name, passed, false⟩ ∧
      (if isStatic then passed = descriptor
        else ∃ rest, descriptor = "(" ++ rest ∧ passed = "(L" ++ owner ++ ";" ++ rest) ∧
      MethodType.parse passed = .ok ⟨type.received owner isStatic, type.result⟩ := by
  cases isStatic with
  | true =>
      cases h
      exact ⟨descriptor, rfl, rfl, hparse⟩
  | false =>
      obtain ⟨passed, hpassed, h⟩ := Except.bind_eq_ok_iff.1 h
      cases h
      exact ⟨passed, rfl, Descriptor.withReceiver_eq_ok_iff.1 hpassed,
        Descriptor.parse_withReceiver hpassed hparse howner⟩

/-- Passing on all arguments and returning the result takes no more room than either needs. -/
theorem run_delegate {frame : Frame} {index : Index} {target : MemberRef} {types : List FieldType}
    {result : Option FieldType} (hlocals : frame.locals = Frame.arguments types)
    (hmax : total FieldType.width types ≤ frame.maxLocals)
    (hpassed : total FieldType.width types ≤ frame.maxStack)
    (hresult : total FieldType.width result.toList ≤ frame.maxStack)
    (hmethod : frame.pool.IsMethod index target)
    (htype : MethodType.parse target.descriptor = .ok ⟨types, result⟩) :
    ∃ outcome, frame.run (Frame.loadsFrom 0 types ++
        [.call index, .result (result.map FieldType.kind)]) [] = some outcome ∧
      outcome.Returns result := by
  have hloads : frame.steps (Frame.loadsFrom 0 types) [] =
      some (types.reverse.map Value.ofType ++ []) :=
    @Frame.steps_loadsFrom frame [] types [] hlocals
      (by rwa [total_nil, Nat.zero_add]) hmax
  have hcall : frame.step (.call index) (types.reverse.map Value.ofType ++ []) =
      some (result.toList.map Value.ofType ++ []) := by
    refine Frame.step_call hmethod htype (Frame.pop_ofType types.reverse []) ?_
    rintro given rfl
    exact hresult
  have hsteps : frame.steps (Frame.loadsFrom 0 types ++ [.call index]) [] =
      some (result.toList.map Value.ofType) := by
    rw [Frame.steps_append, hloads, Option.bind_some, Frame.steps, hcall, Option.bind_some,
      Frame.steps, List.append_nil]
  have hrun : frame.run (Frame.loadsFrom 0 types ++
      [.call index, .result (result.map FieldType.kind)]) [] =
        Frame.finish (.result (result.map FieldType.kind)) (result.toList.map Value.ofType) := by
    rw [List.append_cons, Frame.run_append_singleton, hsteps, Option.bind_some]
  rw [hrun]
  cases result with
  | none => exact ⟨_, rfl, rfl⟩
  | some type =>
      exact ⟨_, if_pos (Value.kind_ofType type), _, rfl, Value.fits_ofType type⟩

/-- The receiver is loaded like a first parameter. -/
theorem loadAll_received (type : MethodType) (owner : String) (isStatic : Bool) :
    (if isStatic then loadAll 0 type.parameters
      else load Opcode.aload 0 ++ loadAll 1 type.parameters) =
        loadAll 0 (type.received owner isStatic) := by
  cases isStatic <;> rfl

theorem writes_received (hslots : total FieldType.width type.parameters + 1 < 2 ^ 16)
    (owner : String) (isStatic : Bool) :
    Writes (if isStatic then loadAll 0 type.parameters
        else load Opcode.aload 0 ++ loadAll 1 type.parameters)
      (Frame.loadsFrom 0 (type.received owner isStatic)) := by
  rw [loadAll_received type owner]
  refine @Writes.loadAll 0 (type.received owner isStatic) ?_
  rw [UInt16.toNat_zero, Nat.zero_add, MethodType.total_received]
  exact MethodType.argumentWidth_lt hslots isStatic

theorem le_toNat_max (first second : UInt16) :
    first.toNat ≤ (max first second).toNat ∧ second.toNat ≤ (max first second).toNat := by
  show _ ≤ (if first ≤ second then second else first).toNat ∧
    _ ≤ (if first ≤ second then second else first).toNat
  split
  · next hle => exact ⟨UInt16.le_iff_toNat_le.1 hle, Nat.le_refl _⟩
  · next hle => exact ⟨Nat.le_refl _, Nat.le_of_not_le fun h => hle (UInt16.le_iff_toNat_le.2 h)⟩

theorem delegates_of_complete {after : Pool} {name : String} {body : Code}
    (hparse : MethodType.parse descriptor = .ok type)
    (hslots : total FieldType.width type.parameters + 1 < 2 ^ 16) (howner : Enclosable owner)
    (hsize : pool.size ≤ Pool.capacity)
    (h : (delegateCall owner name descriptor isStatic).complete pool = .ok (body, after)) :
    Delegates after owner name descriptor type isStatic body := by
  obtain ⟨found, target, index, hfound, hchosen, hindex, rfl⟩ := delegateCall_eq_ok_iff.1 h
  obtain rfl : type = found := Except.ok.inj (hparse.symm.trans hfound)
  obtain ⟨-, hmethod⟩ : Pool.Grows pool after ∧ _ :=
    Pool.gains_internMethod hsize hindex trivial trivial
  obtain ⟨passed, rfl, hpassed, htype⟩ := exists_passed hchosen hparse howner
  have hlocals := MethodType.toNat_argumentSlots hslots owner isStatic
  have hresult := MethodType.toNat_resultSlots type
  have hwrites := ((writes_received hslots owner isStatic).append
    (@Writes.indexed Opcode.invokestatic index _ rfl rfl)).append (Writes.returning type)
  rw [List.append_assoc (Frame.loadsFrom _ _)] at hwrites
  obtain ⟨hpassing, hreturning⟩ := le_toNat_max (type.argumentSlots isStatic) type.resultSlots
  rw [hlocals] at hpassing
  rw [hresult] at hreturning
  obtain ⟨outcome, hrun, hreturns⟩ := @run_delegate
    (Frame.ofBody after (type.received owner isStatic) (delegating type isStatic index))
    _ _ _ _ rfl (Nat.le_of_eq hlocals.symm) hpassing hreturning hmethod htype
  exact ⟨index, passed, outcome, hmethod, hpassed, ⟨hwrites.operations?, hrun, hlocals⟩, hreturns⟩

/-- For every method whose arguments fit into local variables, the bodies that are made up can be
executed within their own limits, and do what they are made for. -/
theorem executes_of_parse (hparse : MethodType.parse descriptor = .ok type)
    (hslots : total FieldType.width type.parameters + 1 < 2 ^ 16) (howner : Enclosable owner)
    (hsize : pool.size ≤ Pool.capacity) :
    (∃ body, defaultReturn descriptor isStatic = .ok body ∧
      ReturnsDefault pool owner type isStatic body) ∧
    (∀ body after, (throwStub descriptor isStatic).complete pool = .ok (body, after) →
      ThrowsStub after owner type isStatic body) ∧
    ∀ name body after,
      (delegateCall owner name descriptor isStatic).complete pool = .ok (body, after) →
        Delegates after owner name descriptor type isStatic body :=
  ⟨returnsDefault_of_parse hparse hslots,
    fun _ _ => throwsStub_of_complete hparse hslots hsize,
    fun _ _ _ => delegates_of_complete hparse hslots howner hsize⟩

/-- A method with an argument of one slot and one of two, in a class `A` with an empty pool. -/
theorem executes_of_parse_intLong :
    MethodType.parse "(IJ)D" =
        .ok ⟨[⟨0, .base .int⟩, ⟨0, .base .long⟩], some ⟨0, .base .double⟩⟩ ∧
      Enclosable "A" ∧
      (∃ body after, (throwStub "(IJ)D" false).complete ⟨#[.unusable]⟩ = .ok (body, after) ∧
        ThrowsStub after "A"
          ⟨[⟨0, .base .int⟩, ⟨0, .base .long⟩], some ⟨0, .base .double⟩⟩ false body) ∧
      ∃ body after,
        (delegateCall "A" "m" "(IJ)D" false).complete ⟨#[.unusable]⟩ = .ok (body, after) ∧
        Delegates after "A" "m" "(IJ)D"
          ⟨[⟨0, .base .int⟩, ⟨0, .base .long⟩], some ⟨0, .base .double⟩⟩ false body := by
  have hparse : MethodType.parse "(IJ)D" =
      .ok ⟨[⟨0, .base .int⟩, ⟨0, .base .long⟩], some ⟨0, .base .double⟩⟩ := by cbv
  have howner : Enclosable "A" := ⟨by decide, by decide⟩
  obtain ⟨-, hthrows, hdelegates⟩ := @executes_of_parse "(IJ)D" "A" _ false ⟨#[.unusable]⟩ hparse
    (by decide) howner (by decide)
  have hstub : ((throwStub "(IJ)D" false).complete ⟨#[.unusable]⟩).toBool = true := by cbv
  have hcall : ((delegateCall "A" "m" "(IJ)D" false).complete ⟨#[.unusable]⟩).toBool = true := by
    cbv
  obtain ⟨⟨stub, stubbed⟩, hstub⟩ := Except.exists_eq_ok hstub
  obtain ⟨⟨body, after⟩, hcall⟩ := Except.exists_eq_ok hcall
  exact ⟨hparse, howner, ⟨stub, stubbed, hstub, hthrows _ _ hstub⟩, body, after, hcall,
    hdelegates _ _ _ hcall⟩

end Body

end JarTailor
