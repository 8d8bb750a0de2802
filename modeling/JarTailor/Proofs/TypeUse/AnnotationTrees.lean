import JarTailor.Proofs.ClassFile.Growth
import JarTailor.TypeUse.Basic

/-!
# Annotations as trees

    Annotation     = type count (name Value)*
    Value          = tag-of-a-constant index  |  "e" type name  |  "c" type  |  "@" Annotation
                   | "[" count Value*
    TypeAnnotation = target count (kind argument)* Annotation

Nothing says where an annotation ends but the annotation itself, so a reader that loses its place
finds types where there are none. `types_of_batch` says that the walk keeps its place: whatever it
is told to read, and whatever follows, it takes exactly the bytes of the trees and passes exactly
their types.
-/

namespace JarTailor.Annotations

/-- What a constant value is. -/
inductive ConstantKind where
  | base (type : BaseType)
  | string

def ConstantKind.tag : ConstantKind → UInt8
  | .base type => type.letter.toNat.toUInt8
  | .string => 0x73

/-- The constructs that hold each other. -/
inductive Kind where
  | annotated
  | elements
  | value
  | values

inductive Tree : Kind → Type where
  | ofType (type : Index) (elements : Tree .elements) : Tree .annotated
  | noElement : Tree .elements
  | element (name : Index) (value : Tree .value) (rest : Tree .elements) : Tree .elements
  | constant (kind : ConstantKind) (index : Index) : Tree .value
  | enumConstant (type name : Index) : Tree .value
  | classLiteral (type : Index) : Tree .value
  | nested (inner : Tree .annotated) : Tree .value
  | array (values : Tree .values) : Tree .value
  | noValue : Tree .values
  | cons (value : Tree .value) (rest : Tree .values) : Tree .values

namespace Tree

/-- The number of elements, or of values. -/
def count : {kind : Kind} → Tree kind → Nat
  | _, .element _ _ rest => rest.count + 1
  | _, .cons _ rest => rest.count + 1
  | _, _ => 0

def encode : {kind : Kind} → Tree kind → Bytes
  | _, .ofType type elements =>
      be16 type ++ be16 (UInt16.ofNat elements.count) ++ elements.encode
  | _, .noElement => []
  | _, .element name value rest => be16 name ++ value.encode ++ rest.encode
  | _, .constant kind index => kind.tag :: be16 index
  | _, .enumConstant type name => 0x65 :: (be16 type ++ be16 name)
  | _, .classLiteral type => 0x63 :: be16 type
  | _, .nested inner => 0x40 :: inner.encode
  | _, .array values => 0x5b :: (be16 (UInt16.ofNat values.count) ++ values.encode)
  | _, .noValue => []
  | _, .cons value rest => value.encode ++ rest.encode

/-- The types of annotations, enum constants and class literals, in the order of the text. -/
def types : {kind : Kind} → Tree kind → List Index
  | _, .ofType type elements => type :: elements.types
  | _, .noElement => []
  | _, .element _ value rest => value.types ++ rest.types
  | _, .constant _ _ => []
  | _, .enumConstant type _ => [type]
  | _, .classLiteral type => [type]
  | _, .nested inner => inner.types
  | _, .array values => values.types
  | _, .noValue => []
  | _, .cons value rest => value.types ++ rest.types

/-- Every count can be written. -/
def Fits : {kind : Kind} → Tree kind → Prop
  | _, .ofType _ elements => elements.count < 2 ^ 16 ∧ elements.Fits
  | _, .noElement => True
  | _, .element _ value rest => value.Fits ∧ rest.Fits
  | _, .constant _ _ => True
  | _, .enumConstant _ _ => True
  | _, .classLiteral _ => True
  | _, .nested inner => inner.Fits
  | _, .array values => values.count < 2 ^ 16 ∧ values.Fits
  | _, .noValue => True
  | _, .cons value rest => value.Fits ∧ rest.Fits

end Tree

/-- The part of the code in which a local variable is annotated, and its number. -/
structure LocalRange where
  start : UInt16
  length : UInt16
  slot : UInt16

def LocalRange.encode (range : LocalRange) : Bytes :=
  be16 range.start ++ be16 range.length ++ be16 range.slot

/-- What declares a type parameter. -/
inductive Declarer where
  | onClass
  | onMethod

/-- What has the annotated type. -/
inductive Typed where
  | field
  | result
  | receiver

/-- The expressions that name one type. -/
inductive Site where
  | instanceTest
  | creation
  | constructorReference
  | methodReference

/-- The expressions that have type arguments. -/
inductive Applied where
  | cast
  | constructorCall
  | methodCall
  | constructorReference
  | methodReference

/-- What a type annotation is about. -/
inductive Target where
  | typeParameter (declarer : Declarer) (parameter : UInt8)
  | supertype (index : UInt16)
  | bound (declarer : Declarer) (parameter index : UInt8)
  | typeOf (typed : Typed)
  | formalParameter (parameter : UInt8)
  | thrown (index : UInt16)
  | localVariable (ranges : List LocalRange)
  | resourceVariable (ranges : List LocalRange)
  | caught (handler : UInt16)
  | site (site : Site) (offset : UInt16)
  | typeArgument (applied : Applied) (offset : UInt16) (argument : UInt8)

namespace Target

def kind : Target → UInt8
  | .typeParameter .onClass _ => 0x00
  | .typeParameter .onMethod _ => 0x01
  | .supertype _ => 0x10
  | .bound .onClass _ _ => 0x11
  | .bound .onMethod _ _ => 0x12
  | .typeOf .field => 0x13
  | .typeOf .result => 0x14
  | .typeOf .receiver => 0x15
  | .formalParameter _ => 0x16
  | .thrown _ => 0x17
  | .localVariable _ => 0x40
  | .resourceVariable _ => 0x41
  | .caught _ => 0x42
  | .site .instanceTest _ => 0x43
  | .site .creation _ => 0x44
  | .site .constructorReference _ => 0x45
  | .site .methodReference _ => 0x46
  | .typeArgument .cast _ _ => 0x47
  | .typeArgument .constructorCall _ _ => 0x48
  | .typeArgument .methodCall _ _ => 0x49
  | .typeArgument .constructorReference _ _ => 0x4a
  | .typeArgument .methodReference _ _ => 0x4b

/-- The local variables of a target that has a table of them. -/
def ranges? : Target → Option (List LocalRange)
  | .localVariable ranges => some ranges
  | .resourceVariable ranges => some ranges
  | _ => none

/-- What follows the kind, and the number of local variables if there is a table of them. -/
def info : Target → Bytes
  | .typeParameter _ parameter => [parameter]
  | .supertype index => be16 index
  | .bound _ parameter index => [parameter, index]
  | .typeOf _ => []
  | .formalParameter parameter => [parameter]
  | .thrown index => be16 index
  | .localVariable ranges => ranges.flatMap LocalRange.encode
  | .resourceVariable ranges => ranges.flatMap LocalRange.encode
  | .caught handler => be16 handler
  | .site _ offset => be16 offset
  | .typeArgument _ offset argument => be16 offset ++ [argument]

def encode (target : Target) : Bytes :=
  target.kind :: ((target.ranges?.elim [] fun ranges => be16 (UInt16.ofNat ranges.length)) ++
    target.info)

def Fits (target : Target) : Prop :=
  ∀ ranges, target.ranges? = some ranges → ranges.length < 2 ^ 16

end Target

/-- One step into a type: into an array, a nested class, the bound of a wildcard or an argument. -/
structure PathStep where
  kind : UInt8
  argument : UInt8

/-- A type annotation: an annotation, and where its type stands. -/
structure Annotated where
  target : Target
  path : List PathStep
  content : Tree .annotated

namespace Annotated

def encode (annotated : Annotated) : Bytes :=
  annotated.target.encode ++ UInt8.ofNat annotated.path.length ::
    (annotated.path.flatMap (fun step => [step.kind, step.argument]) ++
      annotated.content.encode)

structure Fits (annotated : Annotated) : Prop where
  target : annotated.target.Fits
  path : annotated.path.length < 2 ^ 8
  content : annotated.content.Fits

end Annotated

/-- Some things of one sort, one after another, as the walk is told to read them. -/
inductive Batch where
  | annotations (list : List (Tree .annotated))
  | elements (tree : Tree .elements)
  | values (tree : Tree .values)
  /-- Each list comes with its count. -/
  | lists (groups : List (List (Tree .annotated)))
  | typeAnnotations (list : List Annotated)

namespace Batch

def pending : Batch → Pending
  | .annotations list => .annotations list.length
  | .elements tree => .elements tree.count
  | .values tree => .values tree.count
  | .lists groups => .lists groups.length
  | .typeAnnotations list => .typeAnnotations list.length

/-- A list of annotations after its count. -/
def encodeList (list : List (Tree .annotated)) : Bytes :=
  be16 (UInt16.ofNat list.length) ++ list.flatMap Tree.encode

def encode : Batch → Bytes
  | .annotations list => list.flatMap Tree.encode
  | .elements tree => tree.encode
  | .values tree => tree.encode
  | .lists groups => groups.flatMap encodeList
  | .typeAnnotations list => list.flatMap Annotated.encode

def types : Batch → List Index
  | .annotations list => list.flatMap Tree.types
  | .elements tree => tree.types
  | .values tree => tree.types
  | .lists groups => groups.flatMap (·.flatMap Tree.types)
  | .typeAnnotations list => list.flatMap (·.content.types)

def Fits : Batch → Prop
  | .annotations list => ∀ annotation ∈ list, annotation.Fits
  | .elements tree => tree.Fits
  | .values tree => tree.Fits
  | .lists groups => ∀ list ∈ groups, list.length < 2 ^ 16 ∧ ∀ annotation ∈ list, annotation.Fits
  | .typeAnnotations list => ∀ annotated ∈ list, annotated.Fits

/-- What stands in an attribute of some name. -/
inductive Holds : String → Bytes → Batch → Prop
  | annotations {name : String}
      (hname : name ∈ ["RuntimeVisibleAnnotations", "RuntimeInvisibleAnnotations"])
      (list : List (Tree .annotated)) : Holds name (encodeList list) (.lists [list])
  | parameterAnnotations {name : String}
      (hname : name ∈ ["RuntimeVisibleParameterAnnotations",
        "RuntimeInvisibleParameterAnnotations"])
      {groups : List (List (Tree .annotated))} (hcount : groups.length < 2 ^ 8) :
      Holds name (UInt8.ofNat groups.length :: groups.flatMap encodeList) (.lists groups)
  | default (value : Tree .value) :
      Holds "AnnotationDefault" value.encode (.values (.cons value .noValue))
  | typeAnnotations {name : String}
      (hname : name ∈ ["RuntimeVisibleTypeAnnotations", "RuntimeInvisibleTypeAnnotations"])
      {list : List Annotated} (hcount : list.length < 2 ^ 16) :
      Holds name (be16 (UInt16.ofNat list.length) ++ list.flatMap Annotated.encode)
        (.typeAnnotations list)

end Batch

section Walk

variable {pending : Pending} {others : List Pending} {found : List Index}

theorem walk_cons {own : List Index} {next : List Pending} {input rest : Bytes}
    (h : step pending input = .ok ((own, next), rest)) :
    walk (pending :: others) input found = walk (next ++ others) rest (own.reverse ++ found) := by
  rw [walk]
  split
  · next hstep =>
      rw [h] at hstep
      cases hstep
  · next hstep =>
      rw [h] at hstep
      cases hstep
      rfl

/-- The walk takes `front` off the bytes for what is pending and passes these types. -/
def Reads (pending : List Pending) (front : Bytes) (types : List Index) : Prop :=
  ∀ rest others found, walk (pending ++ others) (front ++ rest) found =
    walk others rest (types.reverse ++ found)

/-- A reader takes the beginning of `front` off the bytes, and the walk the rest of it. -/
def Begins (reader : Decode Step) (front : Bytes) (types : List Index) : Prop :=
  ∃ own next first last more, front = first ++ last ∧ types = own ++ more ∧
    (∀ rest, reader (first ++ rest) = .ok ((own, next), rest)) ∧ Reads next last more

theorem reads_nil : Reads [] [] [] := fun _ _ _ => rfl

/-- Where nothing is left of some things to read, the walk goes on. -/
theorem reads_of_step (h : ∀ input, step pending input = .ok (([], []), input)) :
    Reads [pending] [] [] :=
  fun rest _ _ => walk_cons (h rest)

theorem Reads.append {first second : List Pending} {front back : Bytes}
    {types more : List Index} (hfront : Reads first front types) (hback : Reads second back more) :
    Reads (first ++ second) (front ++ back) (types ++ more) := by
  intro rest others found
  rw [List.append_assoc, List.append_assoc, hfront, hback, List.reverse_append, List.append_assoc]

/-- What is read in one go leaves nothing pending. -/
theorem begins_of_reader {reader : Decode Step} {front : Bytes} {types : List Index}
    (h : ∀ rest, reader (front ++ rest) = .ok ((types, []), rest)) : Begins reader front types :=
  ⟨types, [], front, [], [], (List.append_nil _).symm, (List.append_nil _).symm, h, reads_nil⟩

/-- The first of several things is read, then the others. -/
theorem Begins.reads {reader : Decode Step} {front back : Bytes} {types more : List Index}
    {left : Pending} (hone : Begins reader front types) (hleft : Reads [left] back more)
    (hstep : ∀ input own next rest, reader input = .ok ((own, next), rest) →
      step pending input = .ok ((own, next ++ [left]), rest)) :
    Reads [pending] (front ++ back) (types ++ more) := by
  obtain ⟨own, next, first, last, inner, rfl, rfl, hreader, hnext⟩ := hone
  intro rest others found
  have hbytes : first ++ last ++ back ++ rest = first ++ (last ++ back ++ rest) := by
    simp only [List.append_assoc]
  rw [List.singleton_append, hbytes, walk_cons (hstep _ _ _ _ (hreader _)),
    (hnext.append hleft) rest others]
  simp only [List.reverse_append, List.append_assoc]

theorem Begins.of_name {reader : Decode Step} {front : Bytes} {types : List Index} (name : Index)
    (h : Begins reader front types) :
    Begins (do let _ ← Decode.u16; reader) (be16 name ++ front) types := by
  obtain ⟨own, next, first, last, more, rfl, rfl, hreader, hnext⟩ := h
  refine ⟨own, next, be16 name ++ first, last, more, (List.append_assoc ..).symm, rfl,
    fun rest => ?_, hnext⟩
  rw [List.append_assoc]
  exact Decode.bind_eq_ok_iff.2 ⟨name, first ++ rest, Decode.u16_be16 _ _, hreader rest⟩

end Walk

section Trees

open Decode

theorem stepAnnotated_be16 (type count : UInt16) (rest : Bytes) :
    stepAnnotated (be16 type ++ be16 count ++ rest) =
      .ok (([type], [.elements count.toNat]), rest) := by
  rw [List.append_assoc]
  exact bind_eq_ok_iff.2 ⟨type, _, u16_be16 _ _, bind_eq_ok_iff.2 ⟨count, _, u16_be16 _ _, rfl⟩⟩

/-- No tag of a constant is that of another value. -/
theorem ConstantKind.tag_ne (kind : ConstantKind) :
    kind.tag ≠ 0x65 ∧ kind.tag ≠ 0x63 ∧ kind.tag ≠ 0x40 ∧ kind.tag ≠ 0x5b := by
  rcases kind with type | _
  · cases type <;> decide
  · decide

theorem stepValue_constant (kind : ConstantKind) (index : Index) (rest : Bytes) :
    stepValue (kind.tag :: (be16 index ++ rest)) = .ok (([], []), rest) := by
  obtain ⟨henum, hclass, hannotation, harray⟩ := kind.tag_ne
  refine bind_eq_ok_iff.2 ⟨kind.tag, _, rfl, ?_⟩
  rw [if_neg henum, if_neg hclass, if_neg hannotation, if_neg harray]
  exact bind_eq_ok_iff.2 ⟨index, _, u16_be16 _ _, rfl⟩

theorem stepValue_enumConstant (type name : Index) (rest : Bytes) :
    stepValue (0x65 :: (be16 type ++ be16 name ++ rest)) = .ok (([type], []), rest) := by
  rw [List.append_assoc]
  exact bind_eq_ok_iff.2 ⟨0x65, _, rfl, bind_eq_ok_iff.2 ⟨type, _, u16_be16 _ _,
    bind_eq_ok_iff.2 ⟨name, _, u16_be16 _ _, rfl⟩⟩⟩

theorem stepValue_classLiteral (type : Index) (rest : Bytes) :
    stepValue (0x63 :: (be16 type ++ rest)) = .ok (([type], []), rest) :=
  bind_eq_ok_iff.2 ⟨0x63, _, rfl, bind_eq_ok_iff.2 ⟨type, _, u16_be16 _ _, rfl⟩⟩

theorem stepValue_array (count : UInt16) (rest : Bytes) :
    stepValue (0x5b :: (be16 count ++ rest)) = .ok (([], [.values count.toNat]), rest) :=
  bind_eq_ok_iff.2 ⟨0x5b, _, rfl, bind_eq_ok_iff.2 ⟨count, _, u16_be16 _ _, rfl⟩⟩

/-- A nested annotation is read like any other. -/
theorem Begins.nested {front : Bytes} {types : List Index} (h : Begins stepAnnotated front types) :
    Begins stepValue (0x40 :: front) types := by
  obtain ⟨own, next, first, last, more, rfl, rfl, hreader, hnext⟩ := h
  exact ⟨own, next, 0x40 :: first, last, more, rfl, rfl,
    fun rest => bind_eq_ok_iff.2 ⟨0x40, first ++ rest, rfl, hreader rest⟩, hnext⟩

namespace Tree

/-- The walk takes a tree off the bytes: an annotation or a value where it reads one of them, and
elements or values where it has as many to read. -/
def IsRead : {kind : Kind} → Tree kind → Prop
  | .annotated, tree => Begins stepAnnotated tree.encode tree.types
  | .elements, tree => Reads [.elements tree.count] tree.encode tree.types
  | .value, tree => Begins stepValue tree.encode tree.types
  | .values, tree => Reads [.values tree.count] tree.encode tree.types

theorem isRead {kind : Kind} (tree : Tree kind) (hfits : tree.Fits) : tree.IsRead := by
  induction tree with
  | ofType type elements ih =>
      obtain ⟨hcount, helements⟩ := hfits
      refine ⟨[type], [.elements elements.count], _, elements.encode, elements.types, rfl, rfl,
        fun rest => ?_, ih helements⟩
      rw [stepAnnotated_be16, UInt16.toNat_ofNat_of_lt' hcount]
  | noElement => exact reads_of_step fun input => rfl
  | element name value rest ihValue ihRest =>
      refine ((ihValue hfits.1).of_name name).reads (ihRest hfits.2) fun input own next left h => ?_
      obtain ⟨index, mid, hindex, hvalue⟩ := bind_eq_ok_iff.1 h
      exact bind_eq_ok_iff.2 ⟨index, mid, hindex, bind_eq_ok_iff.2 ⟨_, _, hvalue, rfl⟩⟩
  | constant kind index => exact begins_of_reader (stepValue_constant kind index)
  | enumConstant type name => exact begins_of_reader (stepValue_enumConstant type name)
  | classLiteral type => exact begins_of_reader (stepValue_classLiteral type)
  | nested inner ih => exact (ih hfits).nested
  | array values ih =>
      obtain ⟨hcount, hvalues⟩ := hfits
      refine ⟨[], [.values values.count], 0x5b :: be16 (UInt16.ofNat values.count), values.encode,
        values.types, rfl, rfl, fun rest => ?_, ih hvalues⟩
      rw [List.cons_append, stepValue_array, UInt16.toNat_ofNat_of_lt' hcount]
  | noValue => exact reads_of_step fun input => rfl
  | cons value rest ihValue ihRest =>
      exact (ihValue hfits.1).reads (ihRest hfits.2) fun input own next left h =>
        bind_eq_ok_iff.2 ⟨_, _, h, rfl⟩

end Tree

end Trees

section TypeAnnotations

open Decode

/-- The length that a kind of target announces is the length of what follows. -/
theorem targetLength_kind (target : Target) (hfits : target.Fits) (rest : Bytes) :
    targetLength target.kind
        ((target.ranges?.elim [] fun ranges => be16 (UInt16.ofNat ranges.length)) ++ rest) =
      .ok (target.info.length, rest) := by
  have htable : ∀ ranges : List LocalRange, ranges.length < 2 ^ 16 → ∀ kind : UInt8,
      kind = 0x40 ∨ kind = 0x41 →
      targetLength kind (be16 (UInt16.ofNat ranges.length) ++ rest) =
        .ok ((ranges.flatMap LocalRange.encode).length, rest) := by
    intro ranges hcount kind hkind
    have hlength : (UInt16.ofNat ranges.length).toNat * 6 =
        (ranges.flatMap LocalRange.encode).length := by
      have hwidth (range : LocalRange) : range.encode.length = 6 := rfl
      rw [UInt16.toNat_ofNat_of_lt' hcount, length_flatMap_of_width hwidth]
    rw [← hlength]
    rcases hkind with rfl | rfl <;>
      exact bind_eq_ok_iff.2 ⟨UInt16.ofNat ranges.length, rest, u16_be16 _ _, rfl⟩
  cases target with
  | localVariable ranges => exact htable ranges (hfits ranges rfl) _ (Or.inl rfl)
  | resourceVariable ranges => exact htable ranges (hfits ranges rfl) _ (Or.inr rfl)
  | typeParameter declarer parameter => cases declarer <;> rfl
  | bound declarer parameter index => cases declarer <;> rfl
  | typeOf typed => cases typed <;> rfl
  | site site offset => cases site <;> rfl
  | typeArgument applied offset argument => cases applied <;> rfl
  | _ => rfl

/-- The target and the path are skipped. -/
theorem Annotated.begins (annotated : Annotated) (hfits : annotated.Fits) :
    Begins stepTypeAnnotated annotated.encode annotated.content.types := by
  obtain ⟨own, next, first, last, more, hencode, htypes, hreader, hnext⟩ :=
    annotated.content.isRead hfits.content
  refine ⟨own, next, annotated.target.encode ++ UInt8.ofNat annotated.path.length ::
    (annotated.path.flatMap (fun step => [step.kind, step.argument]) ++ first), last, more, ?_,
    htypes, fun rest => ?_, hnext⟩
  · rw [Annotated.encode, hencode]
    simp only [List.append_assoc, List.cons_append]
  · have hkind := targetLength_kind annotated.target hfits.target
    have hpath : (annotated.path.flatMap fun step => [step.kind, step.argument]).length =
        (UInt8.ofNat annotated.path.length).toNat * 2 := by
      have hwidth (step : PathStep) : [step.kind, step.argument].length = 2 := rfl
      rw [length_flatMap_of_width hwidth, UInt8.toNat_ofNat_of_lt' hfits.path]
    simp only [Target.encode, List.append_assoc, List.cons_append]
    refine bind_eq_ok_iff.2 ⟨annotated.target.kind, _, rfl, ?_⟩
    refine bind_eq_ok_iff.2 ⟨_, _, hkind _, ?_⟩
    refine bind_eq_ok_iff.2 ⟨annotated.target.info, _, take_eq_ok_iff.2 ⟨rfl, rfl⟩, ?_⟩
    refine bind_eq_ok_iff.2 ⟨UInt8.ofNat annotated.path.length, _, rfl, ?_⟩
    exact bind_eq_ok_iff.2 ⟨_, _, take_eq_ok_iff.2 ⟨hpath, rfl⟩, hreader rest⟩

end TypeAnnotations

namespace Batch

open Decode

/-- A list of things that are read one by one is read. -/
theorem reads_list {α : Type} {pending : Nat → Pending} {reader : Decode Step}
    {encode : α → Bytes} {types : α → List Index}
    (hzero : ∀ input, step (pending 0) input = .ok (([], []), input))
    (hstep : ∀ count input own next rest, reader input = .ok ((own, next), rest) →
      step (pending (count + 1)) input = .ok ((own, next ++ [pending count]), rest))
    {list : List α} (hone : ∀ item ∈ list, Begins reader (encode item) (types item)) :
    Reads [pending list.length] (list.flatMap encode) (list.flatMap types) := by
  induction list with
  | nil => exact reads_of_step hzero
  | cons item list ih =>
      obtain ⟨hitem, hothers⟩ := List.forall_mem_cons.1 hone
      exact hitem.reads (ih hothers) (hstep list.length)

theorem reads_annotations {list : List (Tree .annotated)}
    (hfits : ∀ annotation ∈ list, annotation.Fits) :
    Reads [.annotations list.length] (list.flatMap Tree.encode) (list.flatMap Tree.types) :=
  reads_list (fun _ => rfl) (fun _ _ _ _ _ h => bind_eq_ok_iff.2 ⟨_, _, h, rfl⟩)
    fun annotation hannotation => annotation.isRead (hfits annotation hannotation)

/-- A list of annotations is read like one thing: its count, then what the count asks for. -/
theorem begins_encodeList {list : List (Tree .annotated)} (hcount : list.length < 2 ^ 16)
    (hfits : ∀ annotation ∈ list, annotation.Fits) :
    Begins (do let length ← u16; return ([], [.annotations length.toNat])) (encodeList list)
      (list.flatMap Tree.types) := by
  refine ⟨[], [.annotations list.length], _, _, _, rfl, rfl, fun rest => ?_,
    reads_annotations hfits⟩
  refine bind_eq_ok_iff.2 ⟨_, rest, u16_be16 _ _, ?_⟩
  rw [UInt16.toNat_ofNat_of_lt' hcount]
  rfl

theorem reads (batch : Batch) (hfits : batch.Fits) :
    Reads [batch.pending] batch.encode batch.types := by
  cases batch with
  | annotations list => exact reads_annotations hfits
  | elements tree => exact tree.isRead hfits
  | values tree => exact tree.isRead hfits
  | lists groups =>
      refine reads_list (fun _ => rfl) (fun count input own next rest h => ?_) fun list hlist =>
        begins_encodeList (hfits list hlist).1 (hfits list hlist).2
      obtain ⟨length, mid, hlength, h⟩ := bind_eq_ok_iff.1 h
      cases h
      exact bind_eq_ok_iff.2 ⟨length, _, hlength, rfl⟩
  | typeAnnotations list =>
      exact reads_list (fun _ => rfl) (fun _ _ _ _ _ h => bind_eq_ok_iff.2 ⟨_, _, h, rfl⟩)
        fun annotated hannotated => annotated.begins (hfits annotated hannotated)

theorem types_eq_ok {batch : Batch} (hfits : batch.Fits) (rest : Bytes) :
    Annotations.types batch.pending (batch.encode ++ rest) = .ok (batch.types, rest) := by
  have hwalk := batch.reads hfits rest [] []
  rw [List.append_nil, List.append_nil] at hwalk
  rw [Annotations.types, hwalk, walk, List.reverse_reverse]
  rfl

/-- The types are found as descriptors. -/
theorem annotated_eq_ok {batch : Batch} (hfits : batch.Fits) (name : String) (rest : Bytes) :
    TypeUse.annotated name batch.pending (batch.encode ++ rest) =
      .ok (batch.types.map (⟨·, .descriptor⟩), []) :=
  Except.bind_eq_ok_iff.2 ⟨_, Except.within_eq_ok_iff.2 (types_eq_ok hfits rest), rfl⟩

/-- An attribute of annotations is looked into. -/
theorem Holds.inAttribute {name : String} {info : Bytes} {batch : Batch}
    (h : Holds name info batch) (hfits : batch.Fits) {pool : Pool} {entry : Attribute}
    (hname : pool.text entry.name = .ok name) {rest : Bytes} (hinfo : entry.info = info ++ rest) :
    TypeUse.inAttribute pool entry = .ok (batch.types.map (⟨·, .descriptor⟩), []) := by
  refine Except.bind_eq_ok_iff.2 ⟨name, hname, ?_⟩
  have hfound := annotated_eq_ok hfits name rest
  cases h with
  | annotations hkind list =>
      have hsame : encodeList list ++ rest = (Batch.lists [list]).encode ++ rest := by
        rw [encode, List.flatMap_singleton]
      rw [hinfo, hsame]
      simp only [List.mem_cons, List.not_mem_nil, or_false] at hkind
      rcases hkind with rfl | rfl <;> exact hfound
  | parameterAnnotations hkind hcount =>
      rename_i groups
      have hread : u8 entry.info = .ok (UInt8.ofNat groups.length,
          groups.flatMap encodeList ++ rest) := hinfo ▸ rfl
      rw [pending, ← UInt8.toNat_ofNat_of_lt' hcount] at hfound
      simp only [List.mem_cons, List.not_mem_nil, or_false] at hkind
      rcases hkind with rfl | rfl <;> exact Except.bind_eq_ok_iff.2 ⟨_, hread, hfound⟩
  | default value =>
      have hsame : value.encode ++ rest = (Batch.values (.cons value .noValue)).encode ++ rest := by
        rw [encode, Tree.encode, Tree.encode, List.append_nil]
      rw [hinfo, hsame]
      exact hfound
  | typeAnnotations hkind hcount =>
      rename_i list
      have hread : u16 entry.info = .ok (UInt16.ofNat list.length,
          list.flatMap Annotated.encode ++ rest) := by
        rw [hinfo, List.append_assoc, u16_be16]
      rw [pending, ← UInt16.toNat_ofNat_of_lt' hcount] at hfound
      simp only [List.mem_cons, List.not_mem_nil, or_false] at hkind
      rcases hkind with rfl | rfl <;> exact Except.bind_eq_ok_iff.2 ⟨_, hread, hfound⟩

end Batch

/-- Whatever annotations stand there, and whatever follows them, the walk takes exactly their bytes
and passes exactly their types, in order. In an attribute that holds them these are found as
descriptors. -/
theorem types_of_batch {batch : Batch} (hfits : batch.Fits) (rest : Bytes) :
    types batch.pending (batch.encode ++ rest) = .ok (batch.types, rest) ∧
      ∀ (name : String) (info : Bytes) (pool : Pool) (entry : Attribute),
        batch.Holds name info → pool.text entry.name = .ok name → entry.info = info ++ rest →
          TypeUse.inAttribute pool entry = .ok (batch.types.map (⟨·, .descriptor⟩), []) :=
  ⟨Batch.types_eq_ok hfits rest, fun _ _ _ _ hholds hname hinfo =>
    hholds.inAttribute hfits hname hinfo⟩

/-- The argument of the type of a local variable has an annotation with a list of an enum constant
and an annotation that holds a class literal. -/
def annotatedVariable : Annotated where
  target := .localVariable [⟨0, 4, 1⟩]
  path := [⟨3, 0⟩]
  content := .ofType 5 (.element 6 (.array (.cons (.enumConstant 7 8)
    (.cons (.nested (.ofType 9 (.element 10 (.classLiteral 11) .noElement))) .noValue)))
    .noElement)

def annotatedVariableBytes : Bytes :=
  [0, 1, 0x40, 0, 1, 0, 0, 0, 4, 0, 1, 1, 3, 0, 0, 5, 0, 1, 0, 6, 0x5b, 0, 2, 0x65, 0, 7, 0, 8,
    0x40, 0, 9, 0, 1, 0, 10, 0x63, 0, 11]

def poolAnnotating : Pool :=
  ⟨#[.unusable, .utf8 (Utf8.encode "RuntimeVisibleTypeAnnotations")]⟩

theorem types_of_batch_annotatedVariable :
    annotatedVariable.Fits ∧
      (Batch.typeAnnotations [annotatedVariable]).Holds "RuntimeVisibleTypeAnnotations"
        annotatedVariableBytes ∧
      types (.typeAnnotations 1) (annotatedVariableBytes.drop 2 ++ [0xff]) =
        .ok ([5, 7, 9, 11], [0xff]) ∧
      TypeUse.inAttribute poolAnnotating ⟨1, annotatedVariableBytes ++ [0xff]⟩ =
        .ok ([⟨5, .descriptor⟩, ⟨7, .descriptor⟩, ⟨9, .descriptor⟩, ⟨11, .descriptor⟩], []) := by
  have htarget : annotatedVariable.target.Fits := by
    rintro ranges ⟨⟩
    decide
  have hannotation : annotatedVariable.content.Fits := by
    simp only [annotatedVariable, Tree.Fits, Tree.count]
    decide
  have hfits : annotatedVariable.Fits := ⟨htarget, by decide, hannotation⟩
  have hbatch : (Batch.typeAnnotations [annotatedVariable]).Fits :=
    List.forall_mem_singleton.2 hfits
  have hholds : (Batch.typeAnnotations [annotatedVariable]).Holds "RuntimeVisibleTypeAnnotations"
      annotatedVariableBytes :=
    @Batch.Holds.typeAnnotations _ (by decide) [annotatedVariable] (by decide)
  have hname : poolAnnotating.text 1 = .ok "RuntimeVisibleTypeAnnotations" :=
    Pool.text_eq_ok_iff.2 rfl
  obtain ⟨htypes, hattribute⟩ := types_of_batch hbatch [0xff]
  exact ⟨hfits, hholds, htypes, hattribute _ _ poolAnnotating ⟨1, _⟩ hholds hname rfl⟩

end JarTailor.Annotations
