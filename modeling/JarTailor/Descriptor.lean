import JarTailor.Failure

/-!
# Descriptors

The types of fields and methods as class files write them: `I`, `[La/b/C;`, `(IJ)V`. Reading
works on characters and every reader hands back what follows; `FieldType.length_read` says that it
took something, which is why the loop over parameters ends.
-/

namespace JarTailor

inductive BaseType where
  | byte
  | char
  | double
  | float
  | int
  | long
  | short
  | boolean
deriving Repr, DecidableEq, Inhabited

namespace BaseType

def letter : BaseType → Char
  | .byte => 'B'
  | .char => 'C'
  | .double => 'D'
  | .float => 'F'
  | .int => 'I'
  | .long => 'J'
  | .short => 'S'
  | .boolean => 'Z'

def ofLetter? : Char → Option BaseType
  | 'B' => some .byte
  | 'C' => some .char
  | 'D' => some .double
  | 'F' => some .float
  | 'I' => some .int
  | 'J' => some .long
  | 'S' => some .short
  | 'Z' => some .boolean
  | _ => none

@[simp] theorem ofLetter?_letter (type : BaseType) : ofLetter? type.letter = some type := by
  cases type <;> rfl

theorem ofLetter?_eq_some_iff {c : Char} {type : BaseType} :
    ofLetter? c = some type ↔ c = type.letter := by
  constructor
  · intro h
    unfold ofLetter? at h
    split at h <;> cases h <;> rfl
  · rintro rfl
    exact ofLetter?_letter type

end BaseType

/-- What an array holds in the end, or what a type is if it is no array. -/
inductive ElementType where
  | base (type : BaseType)
  | object (name : String)
deriving Repr, DecidableEq, Inhabited

namespace ElementType

def chars : ElementType → List Char
  | .base type => [type.letter]
  | .object name => 'L' :: name.toList ++ [';']

end ElementType

/-- The type of a field: an element under `rank` array dimensions. -/
structure FieldType where
  rank : Nat
  element : ElementType
deriving Repr, DecidableEq, Inhabited

namespace FieldType

def chars (type : FieldType) : List Char :=
  List.replicate type.rank '[' ++ type.element.chars

def text (type : FieldType) : String :=
  String.ofList type.chars

/-- Reads the rest of a type of which `rank` brackets have been read. -/
def readFrom (rank : Nat) : List Char → Except DescriptorFault (FieldType × List Char)
  | [] => throw .truncated
  | '[' :: rest => readFrom (rank + 1) rest
  | 'L' :: rest =>
      match rest.takeWhile (· ≠ ';'), rest.dropWhile (· ≠ ';') with
      | _, [] => throw .truncated
      | [], _ => throw .emptyName
      | name, _ :: tail => pure (⟨rank, .object (String.ofList name)⟩, tail)
  | c :: rest =>
      match BaseType.ofLetter? c with
      | some type => pure (⟨rank, .base type⟩, rest)
      | none => throw (.unexpected c)

def read : List Char → Except DescriptorFault (FieldType × List Char) :=
  readFrom 0

theorem length_readFrom {rank : Nat} {input rest : List Char} {type : FieldType}
    (h : readFrom rank input = .ok (type, rest)) : rest.length < input.length := by
  fun_induction readFrom rank input with
  | case1 => cases h
  | case2 rank tail ih => exact Nat.lt_trans (ih h) (by simp)
  | case3 => cases h
  | case4 => cases h
  | case5 rank input semicolon tail hdrop _ =>
      cases h
      have hle := (List.dropWhile_sublist (fun c : Char => decide (c ≠ ';'))
        (l := input)).length_le
      rw [hdrop] at hle
      simp only [List.length_cons] at hle ⊢
      omega
  | case6 => cases h; simp
  | case7 => cases h

theorem length_read {input rest : List Char} {type : FieldType}
    (h : read input = .ok (type, rest)) : rest.length < input.length :=
  length_readFrom h

def className? (type : FieldType) : Option String :=
  match type.element with
  | .base _ => none
  | .object name => some name

/-- The type itself with its class renamed through `f`, if it names a class and `f` renames it. -/
def mapNamesM {m : Type → Type} [Monad m] (f : String → m (Option String)) (type : FieldType) :
    m (Option FieldType) :=
  match type.element with
  | .base _ => pure none
  | .object name => do
      let renamed ← f name
      return renamed.map fun renamed => { type with element := .object renamed }

end FieldType

/-- The type of a method; a `result` of `none` is `void`. -/
structure MethodType where
  parameters : List FieldType
  result : Option FieldType
deriving Repr, DecidableEq, Inhabited

namespace MethodType

def chars (type : MethodType) : List Char :=
  '(' :: type.parameters.flatMap FieldType.chars ++
    ')' :: (match type.result with
      | some result => result.chars
      | none => ['V'])

def text (type : MethodType) : String :=
  String.ofList type.chars

/-- Reads parameters up to and including the closing parenthesis. -/
def readParameters (input : List Char) :
    Except DescriptorFault (List FieldType × List Char) :=
  match input with
  | [] => throw .truncated
  | ')' :: rest => pure ([], rest)
  | c :: tail =>
      match h : FieldType.read (c :: tail) with
      | .error fault => throw fault
      | .ok (type, rest) => do
          have _shorter := FieldType.length_read h
          let (types, rest) ← readParameters rest
          pure (type :: types, rest)
termination_by input.length
decreasing_by exact _shorter

def readResult : List Char → Except DescriptorFault (Option FieldType × List Char)
  | [] => throw .truncated
  | 'V' :: rest => pure (none, rest)
  | input => do
      let (type, rest) ← FieldType.read input
      pure (some type, rest)

def read : List Char → Except DescriptorFault (MethodType × List Char)
  | [] => throw .truncated
  | '(' :: rest => do
      let (parameters, rest) ← readParameters rest
      let (result, rest) ← readResult rest
      pure (⟨parameters, result⟩, rest)
  | c :: _ => throw (.expected '(' c)

/-- The classes named, parameters before the result. -/
def classNames (type : MethodType) : List String :=
  type.parameters.filterMap FieldType.className? ++ (type.result.bind FieldType.className?).toList

/-- The method type with its classes renamed through `f`, parameters before the result, if `f`
renames any. -/
def mapNamesM {m : Type → Type} [Monad m] (f : String → m (Option String)) (type : MethodType) :
    m (Option MethodType) := do
  let parameters ← type.parameters.mapM (FieldType.mapNamesM f)
  let result ← match type.result with
    | some result => FieldType.mapNamesM f result
    | none => pure none
  if parameters.any Option.isSome || result.isSome then
    return some {
      parameters := List.zipWith (fun old new => new.getD old) type.parameters parameters
      result := result <|> type.result }
  else return none

end MethodType

def readWhole {α : Type} (read : List Char → Except DescriptorFault (α × List Char))
    (text : String) : Except Failure α :=
  match read text.toList with
  | .ok (value, []) => pure value
  | .ok (_, _ :: _) => fail (.descriptor text .trailing)
  | .error fault => fail (.descriptor text fault)

def FieldType.parse (text : String) : Except Failure FieldType :=
  readWhole FieldType.read text

def MethodType.parse (text : String) : Except Failure MethodType :=
  readWhole MethodType.read text

/-- A descriptor of any kind. `void` stands alone only in class literals and names no class. -/
inductive Descriptor where
  | void
  | field (type : FieldType)
  | method (type : MethodType)
deriving Repr, DecidableEq, Inhabited

namespace Descriptor

def parse (text : String) : Except Failure Descriptor :=
  if text = "V" then pure .void
  else if text.toList.head? = some '(' then .method <$> MethodType.parse text
  else .field <$> FieldType.parse text

def text : Descriptor → String
  | .void => "V"
  | .field type => type.text
  | .method type => type.text

def classNames : Descriptor → List String
  | .void => []
  | .field type => type.className?.toList
  | .method type => type.classNames

/-- The descriptor with its classes renamed through `f`, if `f` renames any. -/
def mapNamesM {m : Type → Type} [Monad m] (f : String → m (Option String)) :
    Descriptor → m (Option Descriptor)
  | .void => pure none
  | .field type => do return (← type.mapNamesM f).map .field
  | .method type => do return (← type.mapNamesM f).map .method

/-- The method descriptor `text` with a first parameter of class `owner` in front. -/
def withReceiver (owner text : String) : Except Failure String :=
  match text.toList with
  | '(' :: rest => pure (String.ofList ("(L".toList ++ owner.toList ++ ';' :: rest))
  | _ => fail (.notMethodDescriptor text)

end Descriptor

end JarTailor
