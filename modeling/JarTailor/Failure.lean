/-!
# Failures

Everything that can go wrong is a `Fault`; what was being done when it went wrong is a list of
`Context`s, outermost first. The wording of both lives here and nowhere else, so a failure is
data until the moment it is shown.
-/

namespace JarTailor

/-- A number in lower-case hexadecimal, padded with zeros to at least `width` digits. -/
def hexNumber (width n : Nat) : String :=
  let digits := Nat.toDigits 16 n
  String.ofList (List.replicate (width - digits.length) '0' ++ digits)

/-- Why a byte string is not the UTF-8 form of any text: the bytes from index `start` on either
break the encoding after `length` bytes or stop in the middle of a character. -/
inductive EncodingFault where
  | malformed (length start : Nat)
  | incomplete (start : Nat)
deriving Repr, DecidableEq, Inhabited

def EncodingFault.message : EncodingFault → String
  | .malformed length start => s!"invalid utf-8 sequence of {length} bytes from index {start}"
  | .incomplete start => s!"incomplete utf-8 byte sequence from index {start}"

inductive EntryKind where
  | text
  | className
  | nameAndType
  | member
deriving Repr, DecidableEq, Inhabited

def EntryKind.describe : EntryKind → String
  | .text => "a UTF-8 entry"
  | .className => "a class entry"
  | .nameAndType => "a name-and-type entry"
  | .member => "a member reference"

inductive DescriptorFault where
  | truncated
  | emptyName
  | unexpected (found : Char)
  | expected (wanted found : Char)
  | trailing
deriving Repr, DecidableEq, Inhabited

def DescriptorFault.message (text : String) : DescriptorFault → String
  | .truncated => s!"truncated descriptor {text}"
  | .emptyName => s!"empty class name in descriptor {text}"
  | .unexpected found => s!"unexpected '{found}' in descriptor {text}"
  | .expected wanted found => s!"expected '{wanted}' but found '{found}' in descriptor {text}"
  | .trailing => s!"trailing characters in descriptor {text}"

/-- Why a text is not a generic signature. An unexpected character is named by the first byte of
its UTF-8 form. -/
inductive SignatureFault where
  | truncated
  | unexpected (lead : UInt8)
  | trailing
  | unterminatedClass
  | emptyName
  | unterminatedIdentifier
  | emptyIdentifier
deriving Repr, DecidableEq, Inhabited

def SignatureFault.message (text : String) : SignatureFault → String
  | .truncated => s!"truncated signature {text}"
  | .unexpected lead => s!"unexpected '{Char.ofNat lead.toNat}' in signature {text}"
  | .trailing => s!"trailing characters in signature {text}"
  | .unterminatedClass => s!"unterminated class type in {text}"
  | .emptyName => s!"empty class name in signature {text}"
  | .unterminatedIdentifier => s!"unterminated identifier in {text}"
  | .emptyIdentifier => s!"empty identifier in signature {text}"

/-- Parties outside the program whose failures are reported without their own words. -/
inductive Party where
  | configText
  | archive
  | file
deriving Repr, DecidableEq, Inhabited

/-- The innermost cause of a failure. -/
inductive Fault where
  | outOfBounds
  | badMagic (magic : UInt32)
  | emptyPool
  | unknownTag (tag : UInt8) (index : Nat)
  | wideOverflow
  | trailingBytes (count : Nat)
  | trailingCode
  | poolIndex (index : UInt16)
  | wrongEntry (index : UInt16) (wanted : EntryKind)
  | poolFull
  | encoding (fault : EncodingFault)
  | descriptor (text : String) (fault : DescriptorFault)
  | notMethodDescriptor (text : String)
  | signature (text : String) (fault : SignatureFault)
  | unknownOpcode (opcode : UInt8)
  | instructionLength (offset : Nat)
  | switchRange
  | switchPairs
  | missingWideOpcode
  | codeWordBounds
  | codeHalfBounds
  | typeTarget (target : UInt8)
  | memberSpec (text : String)
  | renameIncomplete
  | renameOntoItself (name : String)
  | renamedTwice (name : String)
  | renameChain (name : String)
  | replaceIncomplete
  | redirectIncomplete
  | unsupportedInput (path : String)
  | inputNotFound (path : String)
  | sameOutput (name : String)
  | external (party : Party)
deriving Repr, DecidableEq, Inhabited

/-- The wording of a fault, absent for those that belong to another party. -/
def Fault.message? : Fault → Option String
  | .outOfBounds => some "class file out of bounds"
  | .badMagic magic => some s!"invalid class file magic 0x{hexNumber 8 magic.toNat}"
  | .emptyPool => some "constant pool count must be at least 1"
  | .unknownTag tag index => some s!"unsupported constant pool tag {tag} at index {index}"
  | .wideOverflow => some "wide constant overflows constant pool"
  | .trailingBytes count => some s!"{count} trailing bytes after class file"
  | .trailingCode => some "trailing bytes in Code attribute"
  | .poolIndex index => some s!"constant pool index {index} out of range"
  | .wrongEntry index wanted => some s!"constant pool entry {index} is not {wanted.describe}"
  | .poolFull => some "constant pool is full"
  | .encoding fault => some fault.message
  | .descriptor text fault => some (fault.message text)
  | .notMethodDescriptor text => some s!"invalid method descriptor {text}"
  | .signature text fault => some (fault.message text)
  | .unknownOpcode opcode => some s!"unsupported opcode 0x{hexNumber 2 opcode.toNat}"
  | .instructionLength offset => some s!"invalid bytecode length at offset {offset}"
  | .switchRange => some "invalid tableswitch range"
  | .switchPairs => some "invalid lookupswitch pairs"
  | .missingWideOpcode => some "missing wide opcode"
  | .codeWordBounds => some "bytecode u32 out of bounds"
  | .codeHalfBounds => some "bytecode u16 out of bounds"
  | .typeTarget target => some s!"unknown type annotation target 0x{hexNumber 2 target.toNat}"
  | .memberSpec text => some s!"member reference {text} must look like Class#member"
  | .renameIncomplete => some "rename rules need both `from` and `to`"
  | .renameOntoItself name => some s!"rename rule for {name} maps the class onto itself"
  | .renamedTwice name => some s!"class {name} is renamed more than once"
  | .renameChain name => some s!"class {name} is both a rename target and a rename source"
  | .replaceIncomplete => some "replace_method rules need `class` and `method`"
  | .redirectIncomplete => some "redirect_call rules need `class`, `method` and `target`"
  | .unsupportedInput path => some s!"unsupported input file: {path}"
  | .inputNotFound path => some s!"input not found: {path}"
  | .sameOutput name => some s!"two classes map to {name}"
  | .external _ => none

inductive Context where
  | poolSection
  | fieldsSection
  | methodsSection
  | attributesSection
  | thisClass
  | className
  | superName
  | interfaceNames
  | classBytes
  | poolText (index : UInt16)
  | typeName (text : String)
  | malformed (name : String)
  | codeOf (name : String)
  | classEntry (source name : String)
  | tailoring (name : String)
  | stubbing (path : String)
  | configuration
  | configurationFile (path : String)
  | opening (path : String)
  | reading (path : String)
  | writing (path : String)
deriving Repr, DecidableEq, Inhabited

def Context.message : Context → String
  | .poolSection => "parse constant pool"
  | .fieldsSection => "parse fields"
  | .methodsSection => "parse methods"
  | .attributesSection => "parse class attributes"
  | .thisClass => "resolve this_class"
  | .className => "resolve class name"
  | .superName => "resolve super class name"
  | .interfaceNames => "resolve interface names"
  | .classBytes => "failed to parse class file bytes"
  | .poolText index => s!"constant pool entry {index} is not valid UTF-8"
  | .typeName text => s!"invalid type name {text}"
  | .malformed name => s!"malformed {name}"
  | .codeOf name => s!"malformed Code attribute in {name}"
  | .classEntry source name => s!"failed to parse {source}:{name}.class"
  | .tailoring name => s!"failed to rewrite {name}"
  | .stubbing path => s!"failed to stub {path}"
  | .configuration => "failed to parse configuration"
  | .configurationFile path => s!"invalid {path}"
  | .opening path => s!"failed to open {path}"
  | .reading path => s!"failed to read {path}"
  | .writing path => s!"failed to write {path}"

/-- A fault with the contexts it passed on its way out, outermost first. -/
structure Failure where
  contexts : List Context
  fault : Fault
deriving Repr, DecidableEq, Inhabited

namespace Failure

def of (fault : Fault) : Failure := ⟨[], fault⟩

def within (failure : Failure) (context : Context) : Failure :=
  { failure with contexts := context :: failure.contexts }

@[simp] theorem within_fault (failure : Failure) (context : Context) :
    (failure.within context).fault = failure.fault := rfl

@[simp] theorem within_contexts (failure : Failure) (context : Context) :
    (failure.within context).contexts = context :: failure.contexts := rfl

/-- The contexts and then the fault, joined by colons. A fault of another party leaves only the
contexts. -/
def message (failure : Failure) : String :=
  ": ".intercalate (failure.contexts.map Context.message ++ failure.fault.message?.toList)

/-- The party whose fault it was, if it was not the program's own. -/
def party? (failure : Failure) : Option Party :=
  match failure.fault with
  | .external party => some party
  | _ => none

end Failure

/-- Failing with a fault that nothing surrounds yet. -/
def fail {m : Type → Type} [MonadExceptOf Failure m] {α : Type} (fault : Fault) : m α :=
  throw (Failure.of fault)

@[simp] theorem fail_eq_error {α : Type} (fault : Fault) :
    (fail fault : Except Failure α) = .error (Failure.of fault) := rfl

/-- Running a computation so that its failures say what was being done. -/
def Except.within {α : Type} (context : Context) (x : Except Failure α) : Except Failure α :=
  x.mapError (·.within context)

theorem Except.bind_eq_ok_iff {ε α β : Type} {x : Except ε α} {f : α → Except ε β} {b : β} :
    (x >>= f) = .ok b ↔ ∃ a, x = .ok a ∧ f a = .ok b := by
  cases x <;> simp [bind, Except.bind]

theorem Except.map_eq_ok_iff {ε α β : Type} {x : Except ε α} {f : α → β} {b : β} :
    (f <$> x) = .ok b ↔ ∃ a, x = .ok a ∧ f a = b := by
  cases x <;> simp [Functor.map, Except.map]

end JarTailor
