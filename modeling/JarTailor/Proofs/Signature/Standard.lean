import JarTailor.Proofs.Signature.Recognized
import JarTailor.TypeUse.Role
import Mathlib.Data.List.Chain

/-!
# Signatures as the class file format defines them

    Class      = [Parameters] ClassType ClassType*
    Method     = [Parameters] "(" Type* ")" ("V" | Type) ("^" (ClassType | Variable))*
    Field      = Reference
    Parameters = "<" Parameter+ ">"
    Parameter  = Identifier ":" [Reference] (":" Reference)*
    Type       = one of the letters of base types  |  Reference
    Reference  = ClassType  |  Variable  |  "[" Type
    Variable   = "T" Identifier ";"
    ClassType  = "L" (Identifier "/")* Simple ("." Simple)* ";"
    Simple     = Identifier ["<" Argument+ ">"]
    Argument   = "*"  |  ["+" | "-"] Reference

What is recognized is wider than this in all but one respect: a parameter without any bound must be
the last one. So a signature of the format is accepted, with the classes that it names, if and only
if each parameter that another follows has a bound. A name that starts like a reference is left out
of account where it could be taken for the bound of the parameter before it.
-/

namespace JarTailor.Signature

section Rejected

theorem stepReference_unexpected {c : Char} (hc : c ∉ ['L', 'T', '[']) (rest : List Char) :
    stepReference (c :: rest) = .error (.unexpected (Utf8.lead c)) := by
  simp only [List.mem_cons, List.not_mem_nil, or_false, not_or] at hc
  rw [stepReference]
  · rfl
  · exact hc.1
  · exact hc.2.1
  · exact hc.2.2

/-- What follows a parameter without bounds is read as its bound. -/
theorem stepParameter_unbounded {parameter : Parameter} (h : ¬parameter.Bounded) {c : Char}
    (hend : c ≠ ':' ∧ c ≠ '>') (hc : c ∉ ['L', 'T', '[']) (more : List Char) :
    stepParameter (parameter.chars id ++ c :: more) = .error (.unexpected (Utf8.lead c)) := by
  obtain ⟨name, classBound, interfaceBounds⟩ := parameter
  obtain ⟨hclass, hinterfaces⟩ := not_or.1 h
  obtain rfl : classBound = none := Option.not_isSome_iff_eq_none.1 hclass
  obtain rfl : interfaceBounds = [] := not_not.1 hinterfaces
  have hlist : Parameter.chars id ⟨name, none, []⟩ ++ c :: more =
      name.chars ++ ':' :: c :: more := by
    simp [Parameter.chars]
  rw [hlist, stepParameter, takeIdentifier_chars]
  change (if c = ':' || c = '>' then _ else _) = _
  rw [if_neg (by simp [hend]), stepReference_unexpected hc]
  rfl

/-- The name of the next parameter cannot be taken for the end of the parameters, nor for the bound
of a parameter that has none. -/
structure Parameter.Clear (earlier later : Parameter) : Prop where
  notEnd : later.name.chars.head? ≠ some '>'
  notBound : earlier.Bounded ∨ ∀ c ∈ later.name.chars.head?, c ∉ ['L', 'T', '[']

/-- The parameter has a bound, whatever follows it. -/
def Parameter.Closed (earlier _later : Parameter) : Prop :=
  earlier.Bounded

/-- A list of parameters is not taken to its end if one without bounds is followed by another. -/
theorem run_bounds_error {first : Parameter} {others : List Parameter}
    (hfirst : first.name.chars.head? ≠ some '>')
    (hclear : (first :: others).IsChain Parameter.Clear)
    (hopen : ¬(first :: others).IsChain Parameter.Closed) (more : List Char)
    (taken : List Piece) :
    ∃ fault, run [.bounds] ((first :: others).flatMap (Parameter.chars id) ++ more) taken =
      .error fault := by
  -- The parameters with bounds are taken one by one, up to the first that has none.
  induction others generalizing first taken with
  | nil => exact absurd (.singleton first) hopen
  | cons second others ih =>
      obtain ⟨⟨hname, hbound⟩, hrest⟩ := List.isChain_cons_cons.1 hclear
      rw [List.flatMap_cons, List.append_assoc]
      by_cases hbounded : first.Bounded
      · have hstill : ¬(second :: others).IsChain Parameter.Closed := fun hchain =>
          hopen (.cons_cons hbounded hchain)
        obtain ⟨pieces, next, rest, hstep, hrun⟩ := stepParameter_chars first
          ((second :: others).flatMap (Parameter.chars id) ++ more) (.inl hbounded)
        obtain ⟨fault, hfault⟩ := ih hname hrest hstill (first.pieces.reverse ++ taken)
        refine ⟨fault, ?_⟩
        rw [run_cons_of_step ((step_bounds_parameter first hfirst _).trans hstep), hrun, hfault]
      · obtain ⟨c, tail, hchars⟩ := List.exists_cons_of_ne_nil second.name.ne_nil
        have hcolon : c ≠ ':' := by
          rintro rfl
          exact second.name.notMem (hchars ▸ List.mem_cons_self)
        have hend : c ≠ '>' := by
          rintro rfl
          exact hname (by rw [hchars]; rfl)
        have hc : c ∉ ['L', 'T', '['] := hbound.resolve_left hbounded c (by rw [hchars]; rfl)
        have hnext : ∃ behind, (second :: others).flatMap (Parameter.chars id) ++ more =
            c :: behind := by
          rw [List.flatMap_cons, Parameter.chars, hchars]
          exact ⟨_, rfl⟩
        obtain ⟨behind, hnext⟩ := hnext
        have hstep := stepParameter_unbounded hbounded ⟨hcolon, hend⟩ hc behind
        rw [← hnext] at hstep
        exact ⟨_, run_cons_of_error ((step_bounds_parameter first hfirst _).trans hstep)⟩

theorem run_whole_error {first : Parameter} {others : List Parameter}
    (hfirst : first.name.chars.head? ≠ some '>')
    (hclear : (first :: others).IsChain Parameter.Clear)
    (hopen : ¬(first :: others).IsChain Parameter.Closed) (more : List Char) :
    ∃ fault, run [.whole] ('<' :: ((first :: others).flatMap (Parameter.chars id) ++ more)) [] =
      .error fault := by
  -- The first parameter is stepped over as if others had come before it.
  obtain ⟨fault, hfault⟩ := run_bounds_error hfirst hclear hopen more [.text ['<']]
  have hbounds : step .bounds ((first :: others).flatMap (Parameter.chars id) ++ more) =
      stepParameter ((first :: others).flatMap (Parameter.chars id) ++ more) := by
    rw [List.flatMap_cons, List.append_assoc]
    exact step_bounds_parameter first hfirst _
  cases hstep : stepParameter ((first :: others).flatMap (Parameter.chars id) ++ more) with
  | error early =>
      refine ⟨early, run_cons_of_error ?_⟩
      rw [step, stepWhole, hstep]
      rfl
  | ok result =>
      obtain ⟨pieces, next, rest⟩ := result
      have hwhole : step .whole ('<' :: ((first :: others).flatMap (Parameter.chars id) ++ more)) =
          .ok (.text ['<'] :: pieces, next, rest) := by
        rw [step, stepWhole, hstep]
        rfl
      refine ⟨fault, ?_⟩
      rw [run_cons_of_step (hbounds.trans hstep)] at hfault
      rw [run_cons_of_step hwhole, List.reverse_cons, List.append_nil (pieces.reverse ++ _)]
      exact hfault

end Rejected

namespace Standard

/-- The characters that no name may hold. -/
def special : List Char := ['.', ';', '[', '/', '<', '>', ':']

structure Identifier where
  chars : List Char
  ne_nil : chars ≠ []
  notSpecial : ∀ c ∈ chars, c ∉ special

/-- An identifier of one character. -/
def Identifier.one (c : Char) (h : c ∉ special) : Identifier :=
  ⟨[c], List.cons_ne_nil _ _, fun _ hmem => List.mem_singleton.1 hmem ▸ h⟩

/-- The constructs that hold each other. -/
inductive Kind where
  | type
  | reference
  | classType
  | suffixes
  | applied
  | arguments
  | argument

inductive Tree : Kind → Type where
  | base (type : BaseType) : Tree .type
  | ofReference (reference : Tree .reference) : Tree .type
  | ofClass (type : Tree .classType) : Tree .reference
  | typeVariable (name : Identifier) : Tree .reference
  | array (element : Tree .type) : Tree .reference
  | classType (packages : List Identifier) (name : Identifier) (applied : Tree .applied)
      (suffixes : Tree .suffixes) : Tree .classType
  | unsuffixed : Tree .suffixes
  | suffixed (name : Identifier) (applied : Tree .applied) (others : Tree .suffixes) :
      Tree .suffixes
  | bare : Tree .applied
  | apply (arguments : Tree .arguments) : Tree .applied
  | single (argument : Tree .argument) : Tree .arguments
  | several (first : Tree .argument) (others : Tree .arguments) : Tree .arguments
  | any : Tree .argument
  | invariant (type : Tree .reference) : Tree .argument
  | bounded (wildcard : Wildcard) (bound : Tree .reference) : Tree .argument

def qualified (packages : List Identifier) (name : Identifier) : List Char :=
  (packages.flatMap fun package => package.chars ++ ['/']) ++ name.chars

namespace Tree

def chars : {kind : Kind} → Tree kind → List Char
  | _, .base type => [type.letter]
  | _, .ofReference reference => reference.chars
  | _, .ofClass type => type.chars
  | _, .typeVariable name => 'T' :: (name.chars ++ [';'])
  | _, .array element => '[' :: element.chars
  | _, .classType packages name applied suffixes =>
      'L' :: (qualified packages name ++ (applied.chars ++ (suffixes.chars ++ [';'])))
  | _, .unsuffixed => []
  | _, .suffixed name applied others => '.' :: (name.chars ++ (applied.chars ++ others.chars))
  | _, .bare => []
  | _, .apply arguments => '<' :: (arguments.chars ++ ['>'])
  | _, .single argument => argument.chars
  | _, .several first others => first.chars ++ others.chars
  | _, .any => ['*']
  | _, .invariant type => type.chars
  | _, .bounded wildcard bound => wildcard.char :: bound.chars

/-- The names of all classes. Those that follow in suffixes are nested in `outer`. -/
def classes (outer : String) : {kind : Kind} → Tree kind → List String
  | _, .base _ => []
  | _, .ofReference reference => reference.classes outer
  | _, .ofClass type => type.classes outer
  | _, .typeVariable _ => []
  | _, .array element => element.classes outer
  | _, .classType packages name applied suffixes =>
      let full := String.ofList (qualified packages name)
      full :: (applied.classes full ++ suffixes.classes full)
  | _, .unsuffixed => []
  | _, .suffixed name applied others =>
      let full := s!"{outer}${String.ofList name.chars}"
      full :: (applied.classes full ++ others.classes full)
  | _, .bare => []
  | _, .apply arguments => arguments.classes outer
  | _, .single argument => argument.classes outer
  | _, .several first others => first.classes outer ++ others.classes outer
  | _, .any => []
  | _, .invariant type => type.classes outer
  | _, .bounded _ bound => bound.classes outer

end Tree

structure Parameter where
  name : Identifier
  classBound : Option (Tree .reference)
  interfaceBounds : List (Tree .reference)

namespace Parameter

def bounds (parameter : Parameter) : List (Tree .reference) :=
  parameter.classBound.toList ++ parameter.interfaceBounds

def chars (parameter : Parameter) : List Char :=
  parameter.name.chars ++ ':' :: (parameter.classBound.toList.flatMap Tree.chars ++
    parameter.interfaceBounds.flatMap fun bound => ':' :: bound.chars)

/-- The parameter has a bound, or the name of the next one does not start like a bound. -/
def Unambiguous (earlier later : Parameter) : Prop :=
  earlier.bounds ≠ [] ∨ ∀ c ∈ later.name.chars.head?, c ∉ ['L', 'T', '[']

end Parameter

inductive Thrown where
  | ofClass (type : Tree .classType)
  | typeVariable (name : Identifier)

def Thrown.reference : Thrown → Tree .reference
  | .ofClass type => .ofClass type
  | .typeVariable name => .typeVariable name

/-- What follows the parameters of a class or a method. -/
inductive Body where
  | ofClass (superclass : Tree .classType) (superinterfaces : List (Tree .classType))
  | ofMethod (types : List (Tree .type)) (result : Option (Tree .type)) (thrown : List Thrown)

namespace Body

def chars : Body → List Char
  | .ofClass superclass superinterfaces => superclass.chars ++ superinterfaces.flatMap Tree.chars
  | .ofMethod types result thrown =>
      '(' :: (types.flatMap Tree.chars ++ ')' :: (result.elim ['V'] Tree.chars ++
        thrown.flatMap fun type => '^' :: type.reference.chars))

def types : Body → List (Tree .type)
  | .ofClass superclass superinterfaces =>
      (superclass :: superinterfaces).map fun type => .ofReference (.ofClass type)
  | .ofMethod types result thrown =>
      types ++ result.toList ++ thrown.map fun type => .ofReference type.reference

end Body

inductive Sentence where
  | generic (parameters : List Parameter) (body : Body)
  | field (type : Tree .reference)

namespace Sentence

def parameters : Sentence → List Parameter
  | .generic parameters _ => parameters
  | .field _ => []

def types : Sentence → List (Tree .type)
  | .generic parameters body =>
      (parameters.flatMap Parameter.bounds).map .ofReference ++ body.types
  | .field type => [.ofReference type]

def chars : Sentence → List Char
  | .generic [] body => body.chars
  | .generic parameters body =>
      '<' :: (parameters.flatMap Parameter.chars ++ '>' :: body.chars)
  | .field type => type.chars

variable (sentence : Sentence)

def text : String :=
  String.ofList sentence.chars

def classes : List String :=
  sentence.types.flatMap (Tree.classes "")

def Unambiguous : Prop :=
  sentence.parameters.IsChain Parameter.Unambiguous

/-- Each parameter that another follows has a bound. -/
def EachBounded : Prop :=
  sentence.parameters.IsChain fun earlier _ => earlier.bounds ≠ []

end Sentence

section Recognized

theorem Identifier.notMem (name : Identifier) {c : Char} (hc : c ∈ special) : c ∉ name.chars :=
  fun hmem => name.notSpecial c hmem hc

theorem Identifier.inName (name : Identifier) {c : Char} (hc : c ∈ name.chars) :
    takeName.inName c = true := by
  have hspecial := name.notSpecial c hc
  simp only [special, List.mem_cons, not_or] at hspecial
  simp [takeName.inName, hspecial]

theorem named_qualified (packages : List Identifier) (name : Identifier) :
    Named (String.ofList (qualified packages name)) := by
  have hne : qualified packages name ≠ [] := List.append_ne_nil_of_right_ne_nil _ name.ne_nil
  refine ⟨fun hempty => hne ?_, fun c hc => ?_⟩
  · rw [← String.toList_ofList (l := qualified packages name), hempty]
    rfl
  · rw [String.toList_ofList, qualified] at hc
    rcases List.mem_append.1 hc with hc | hc
    · obtain ⟨package, -, hc⟩ := List.mem_flatMap.1 hc
      rcases List.mem_append.1 hc with hc | hc
      · exact package.inName hc
      · rw [List.mem_singleton.1 hc]
        decide
    · exact name.inName hc

/-- A class name that is recognized. -/
def className (packages : List Identifier) (name : Identifier) : ClassName :=
  ⟨String.ofList (qualified packages name), named_qualified packages name⟩

def Identifier.before (terminator : Char) (h : terminator ∈ special) (name : Identifier) :
    Signature.Identifier terminator :=
  ⟨name.chars, name.ne_nil, name.notMem h⟩

/-- What is recognized instead: a construct up to the character that ends it, or one with another
construct behind it. -/
abbrev Kind.Recognized : Kind → Type
  | .type => Signature.Tree .type
  | .reference => Signature.Tree .reference
  | .classType => Signature.Tree .reference
  | .suffixes => Signature.Tree .classRest
  | .applied => Signature.Tree .classRest → Signature.Tree .classRest
  | .arguments => Signature.Tree .arguments
  | .argument => Signature.Tree .arguments → Signature.Tree .arguments

def Tree.recognized : {kind : Kind} → Tree kind → kind.Recognized
  | _, .base type => Signature.Tree.base type
  | _, .ofReference reference => Signature.Tree.ofReference reference.recognized
  | _, .ofClass type => type.recognized
  | _, .typeVariable name => Signature.Tree.typeVariable (name.before ';' (by decide))
  | _, .array element => Signature.Tree.array element.recognized
  | _, .classType packages name applied suffixes =>
      Signature.Tree.object (className packages name) (applied.recognized suffixes.recognized)
  | _, .unsuffixed => Signature.Tree.close
  | _, .suffixed name applied others =>
      Signature.Tree.inner (className [] name) (applied.recognized others.recognized)
  | _, .bare => id
  | _, .apply arguments => Signature.Tree.apply arguments.recognized
  | _, .single argument => argument.recognized Signature.Tree.last
  | _, .several first others => first.recognized others.recognized
  | _, .any => Signature.Tree.any
  | _, .invariant type => Signature.Tree.argument type.recognized
  | _, .bounded wildcard bound => Signature.Tree.bounded wildcard bound.recognized

/-- The tree has the characters and names the classes. -/
structure Reads {kind : Signature.Kind} (tree : Signature.Tree kind) (chars : List Char)
    (classes : String → List String) : Prop where
  chars : tree.chars id = chars
  classes : ∀ outer, tree.classes outer = classes outer

def Kind.Agrees : (kind : Kind) → Tree kind → kind.Recognized → Prop
  | .type, tree, recognized => Reads recognized tree.chars tree.classes
  | .reference, tree, recognized => Reads recognized tree.chars tree.classes
  | .classType, tree, recognized => Reads recognized tree.chars tree.classes
  | .suffixes, tree, recognized => Reads recognized (tree.chars ++ [';']) tree.classes
  | .applied, tree, recognized => ∀ rest : Signature.Tree .classRest, Reads (recognized rest)
      (tree.chars ++ rest.chars id) fun outer => tree.classes outer ++ rest.classes outer
  | .arguments, tree, recognized => Reads recognized (tree.chars ++ ['>']) tree.classes
  | .argument, tree, recognized => ∀ rest : Signature.Tree .arguments, Reads (recognized rest)
      (tree.chars ++ rest.chars id) fun outer => tree.classes outer ++ rest.classes outer

theorem Tree.agrees_recognized {kind : Kind} (tree : Tree kind) :
    kind.Agrees tree tree.recognized := by
  induction tree with
  | base type => exact ⟨rfl, fun _ => rfl⟩
  | ofReference reference ih => exact ⟨ih.chars, ih.classes⟩
  | ofClass type ih => exact ⟨ih.chars, ih.classes⟩
  | typeVariable name => exact ⟨rfl, fun _ => rfl⟩
  | array element ih => exact ⟨congrArg _ ih.chars, ih.classes⟩
  | classType packages name applied suffixes ihapplied ihsuffixes =>
      have hrest := ihapplied suffixes.recognized
      refine ⟨?_, fun outer => ?_⟩
      · change 'L' :: ((String.ofList _).toList ++ Signature.Tree.chars id _) = _
        rw [String.toList_ofList, hrest.chars, ihsuffixes.chars]
        rfl
      · change _ :: Signature.Tree.classes _ _ = _
        rw [hrest.classes, ihsuffixes.classes]
        rfl
  | unsuffixed => exact ⟨rfl, fun _ => rfl⟩
  | suffixed name applied others ihapplied ihothers =>
      have hrest := ihapplied others.recognized
      refine ⟨?_, fun outer => ?_⟩
      · change '.' :: ((String.ofList _).toList ++ Signature.Tree.chars id _) = _
        rw [String.toList_ofList, hrest.chars, ihothers.chars]
        simp [chars, qualified]
      · change _ :: Signature.Tree.classes _ _ = _
        rw [hrest.classes, ihothers.classes]
        rfl
  | bare => exact fun rest => ⟨rfl, fun _ => rfl⟩
  | apply arguments ih =>
      refine fun rest => ⟨?_, fun outer => ?_⟩
      · change '<' :: (Signature.Tree.chars id _ ++ rest.chars id) = _
        rw [ih.chars]
        rfl
      · exact congrArg (· ++ rest.classes outer) (ih.classes outer)
  | single argument ih =>
      have hlast := ih .last
      exact ⟨hlast.chars, fun outer => (hlast.classes outer).trans (List.append_nil _)⟩
  | several first others ihfirst ihothers =>
      have hfirst := ihfirst others.recognized
      refine ⟨hfirst.chars.trans ?_, fun outer => (hfirst.classes outer).trans ?_⟩
      · rw [ihothers.chars, ← List.append_assoc]
        rfl
      · rw [ihothers.classes]
        rfl
  | any => exact fun rest => ⟨rfl, fun _ => rfl⟩
  | invariant type ih =>
      exact fun rest => ⟨congrArg (· ++ rest.chars id) ih.chars,
        fun outer => congrArg (· ++ rest.classes outer) (ih.classes outer)⟩
  | bounded wildcard bound ih =>
      exact fun rest => ⟨congrArg (wildcard.char :: · ++ rest.chars id) ih.chars,
        fun outer => congrArg (· ++ rest.classes outer) (ih.classes outer)⟩

def Parameter.recognized (parameter : Parameter) : Signature.Parameter :=
  ⟨parameter.name.before ':' (by decide), parameter.classBound.map Tree.recognized,
    parameter.interfaceBounds.map Tree.recognized⟩

def Body.recognized : Body → Signature.Body
  | .ofClass superclass superinterfaces =>
      .plain (.ofReference superclass.recognized) (superinterfaces.map Tree.recognized)
  | .ofMethod types result thrown =>
      .method (types.map Tree.recognized) (result.map Tree.recognized)
        (thrown.map fun type => type.reference.recognized)

def Sentence.recognizedBody : Sentence → Signature.Body
  | .generic _ body => body.recognized
  | .field type => .plain (.ofReference type.recognized) []

theorem Tree.chars_reference (tree : Tree .reference) :
    Signature.Tree.chars id tree.recognized = tree.chars :=
  tree.agrees_recognized.chars

theorem Tree.chars_classType (tree : Tree .classType) :
    Signature.Tree.chars id tree.recognized = tree.chars :=
  tree.agrees_recognized.chars

theorem Tree.chars_type (tree : Tree .type) :
    Signature.Tree.chars id tree.recognized = tree.chars :=
  tree.agrees_recognized.chars

theorem Tree.classes_type (tree : Tree .type) (outer : String) :
    Signature.Tree.classes outer tree.recognized = tree.classes outer :=
  tree.agrees_recognized.classes outer

theorem Parameter.chars_recognized (parameter : Parameter) :
    parameter.recognized.chars id = parameter.chars := by
  obtain ⟨name, classBound, interfaceBounds⟩ := parameter
  have hclass : (classBound.map Tree.recognized).toList.flatMap (Signature.Tree.chars id) =
      classBound.toList.flatMap Tree.chars := by
    cases classBound with
    | none => rfl
    | some bound => exact congrArg (· ++ []) bound.chars_reference
  have hinterfaces : (interfaceBounds.map Tree.recognized).flatMap
      (fun bound : Signature.Tree .reference => ':' :: bound.chars id) =
        interfaceBounds.flatMap fun bound => ':' :: bound.chars := by
    rw [List.flatMap_map]
    exact congrArg (List.flatMap · interfaceBounds) (funext fun bound =>
      congrArg (':' :: ·) bound.chars_reference)
  rw [recognized, Signature.Parameter.chars, hclass, hinterfaces]
  rfl

theorem Parameter.bounds_recognized (parameter : Parameter) :
    parameter.recognized.bounds = parameter.bounds.map Tree.recognized := by
  obtain ⟨name, classBound, interfaceBounds⟩ := parameter
  cases classBound <;> rfl

theorem Parameter.bounded_recognized {parameter : Parameter} :
    parameter.recognized.Bounded ↔ parameter.bounds ≠ [] := by
  obtain ⟨name, classBound, interfaceBounds⟩ := parameter
  cases classBound <;>
    simp [recognized, Signature.Parameter.Bounded, bounds]

theorem Body.chars_recognized (body : Body) : body.recognized.chars id = body.chars := by
  cases body with
  | ofClass superclass superinterfaces =>
      simp only [recognized, Signature.Body.chars, Signature.Tree.chars, List.flatMap_map,
        Tree.chars_classType, chars]
  | ofMethod types result thrown =>
      have hresult : (result.map Tree.recognized).elim ['V'] (Signature.Tree.chars id) =
          result.elim ['V'] Tree.chars := by
        cases result with
        | none => rfl
        | some type => exact type.chars_type
      simp only [recognized, Signature.Body.chars, List.flatMap_map, Tree.chars_type, hresult,
        Tree.chars_reference, chars]

theorem Body.types_recognized (body : Body) :
    body.recognized.types = body.types.map Tree.recognized := by
  cases body with
  | ofClass superclass superinterfaces =>
      simp [recognized, types, Signature.Body.types, Tree.recognized, Function.comp_def]
  | ofMethod types result thrown =>
      cases result <;>
        simp [recognized, Body.types, Signature.Body.types, Tree.recognized, Function.comp_def]

theorem Parameter.flatMap_chars (parameters : List Parameter) :
    (parameters.map recognized).flatMap (Signature.Parameter.chars id) =
      parameters.flatMap chars := by
  rw [List.flatMap_map]
  exact congrArg (List.flatMap · parameters) (funext chars_recognized)

theorem Parameter.head?_ne (parameter : Parameter) :
    parameter.recognized.name.chars.head? ≠ some '>' := fun hhead =>
  parameter.name.notMem (by decide) (List.mem_of_mem_head? hhead)

namespace Sentence

/-- A sentence whose parameters have bounds is recognized. -/
def recognized (sentence : Sentence) (h : sentence.EachBounded) : Signature.Sentence where
  parameters := sentence.parameters.map Parameter.recognized
  precede := (List.isChain_map _).2 (h.imp fun _ later hbound =>
    ⟨Parameter.bounded_recognized.2 hbound, later.head?_ne⟩)
  body := sentence.recognizedBody

variable {sentence : Sentence} (h : sentence.EachBounded)

theorem text_recognized : (sentence.recognized h).text = sentence.text := by
  refine congrArg String.ofList ?_
  cases sentence with
  | generic parameters body =>
      cases parameters with
      | nil => exact body.chars_recognized
      | cons first others =>
          change '<' :: (((first :: others).map Parameter.recognized).flatMap _ ++
            '>' :: body.recognized.chars id) = _
          rw [Parameter.flatMap_chars, body.chars_recognized]
          rfl
  | field type => exact (List.append_nil _).trans type.chars_reference

theorem types_recognized :
    (sentence.recognized h).types = sentence.types.map Tree.recognized := by
  cases sentence with
  | generic parameters body =>
      change ((parameters.map Parameter.recognized).flatMap Signature.Parameter.bounds).map _ ++
        body.recognized.types = _
      rw [types, List.map_append, body.types_recognized, List.flatMap_map]
      simp only [Parameter.bounds_recognized, List.map_flatMap, List.map_map]
      rfl
  | field type => rfl

theorem classes_recognized : (sentence.recognized h).classes = sentence.classes := by
  rw [Signature.Sentence.classes, types_recognized, List.flatMap_map, classes]
  simp only [Tree.classes_type]

end Sentence

/-- Reading comes to an end at a parameter without bounds that another follows. -/
theorem Sentence.pieces_error {sentence : Sentence} (h : sentence.Unambiguous)
    (hopen : ¬sentence.EachBounded) : ∃ failure, pieces sentence.text = .error failure := by
  cases sentence with
  | field type => exact absurd .nil hopen
  | generic parameters body =>
      cases parameters with
      | nil => exact absurd .nil hopen
      | cons first others =>
          have hclear : ((first :: others).map Parameter.recognized).IsChain
              Signature.Parameter.Clear :=
            (List.isChain_map _).2 (h.imp fun _ later hnext =>
              ⟨later.head?_ne, hnext.imp_left Parameter.bounded_recognized.2⟩)
          have hstill : ¬((first :: others).map Parameter.recognized).IsChain
              Signature.Parameter.Closed := fun hchain =>
            hopen (((List.isChain_map _).1 hchain).imp fun _ _ => Parameter.bounded_recognized.1)
          obtain ⟨fault, hfault⟩ := run_whole_error first.head?_ne hclear hstill
            ('>' :: body.chars)
          rw [← List.map_cons, Parameter.flatMap_chars] at hfault
          have hchars : (generic (first :: others) body).chars =
              '<' :: ((first :: others).flatMap Parameter.chars ++ '>' :: body.chars) := rfl
          rw [pieces, text, String.toList_ofList, hchars, hfault]
          exact ⟨_, rfl⟩

/-- A signature of the format is accepted if and only if each of its parameters that another follows
has a bound. The classes reported are then those that it names. -/
theorem standard_accepted_iff_eachBounded {sentence : Sentence} (h : sentence.Unambiguous) :
    (∀ (m : Type → Type) [Monad m] (f : String → m (Option String)),
        (∃ action, TypeRole.signature.mapNamesM sentence.text f = .ok action) ↔
          sentence.EachBounded) ∧
      ∀ names, TypeRole.signature.classNames sentence.text = .ok names ↔
        sentence.EachBounded ∧ names = sentence.classes := by
  have hpieces : ∀ hbounded : sentence.EachBounded,
      pieces sentence.text = .ok (sentence.recognized hbounded).pieces := fun hbounded =>
    pieces_eq_ok_iff.2 ⟨_, Sentence.text_recognized hbounded, rfl⟩
  have hbounded : ∀ found, pieces sentence.text = .ok found → sentence.EachBounded := by
    intro found hfound
    by_contra hopen
    obtain ⟨failure, hfailure⟩ := Sentence.pieces_error h hopen
    rw [hfailure] at hfound
    cases hfound
  have hclasses : ∀ heach : sentence.EachBounded,
      Signature.classNames (sentence.recognized heach).pieces = sentence.classes := fun heach =>
    (sentence.recognized heach).classNames_pieces.trans (Sentence.classes_recognized heach)
  refine ⟨fun m _ f => ⟨?_, fun heach => ?_⟩, fun names => ⟨fun hnames => ?_, ?_⟩⟩
  · rintro ⟨action, haction⟩
    obtain ⟨found, hfound, -⟩ := Except.bind_eq_ok_iff.1 haction
    exact hbounded found hfound
  · exact ⟨_, Except.bind_eq_ok_iff.2 ⟨_, hpieces heach, rfl⟩⟩
  · obtain ⟨found, hfound, rfl⟩ := Except.map_eq_ok_iff.1 hnames
    have heach := hbounded found hfound
    obtain rfl := Except.ok.inj ((hpieces heach).symm.trans hfound)
    exact ⟨heach, hclasses heach⟩
  · rintro ⟨heach, rfl⟩
    exact Except.map_eq_ok_iff.2 ⟨_, hpieces heach, hclasses heach⟩

end Recognized

/-- A class with a parameter of each kind, which extends an inner class of a generic one. -/
def genericClass : Sentence :=
  let package := Identifier.one 'a' (by decide)
  let outer := Identifier.one 'O' (by decide)
  let inner := Identifier.one 'I' (by decide)
  let bound := Identifier.one 'B' (by decide)
  let key := Identifier.one 'K' (by decide)
  let value := Identifier.one 'V' (by decide)
  let last := Identifier.one 'W' (by decide)
  let onKey : Tree .arguments := .several (.bounded .lower (.typeVariable key)) (.single .any)
  let onValue : Tree .arguments := .several (.invariant (.array (.base .int)))
    (.single (.bounded .upper (.typeVariable value)))
  .generic
    [⟨key, some (.ofClass (.classType [] bound .bare .unsuffixed)), []⟩,
      ⟨value, none, [.ofClass (.classType [] bound (.apply onKey) .unsuffixed)]⟩, ⟨last, none, []⟩]
    (.ofClass (.classType [package] outer (.apply onValue) (.suffixed inner .bare .unsuffixed))
      [.classType [package] bound .bare .unsuffixed])

/-- The last parameter may have no bound. -/
theorem standard_accepted_iff_eachBounded_genericClass :
    genericClass.Unambiguous ∧ genericClass.EachBounded ∧
      genericClass.text = "<K:LB;V::LB<-TK;*>;W:>La/O<[I+TV;>.I;La/B;" ∧
      (∃ action, TypeRole.signature.mapNamesM (m := Id)
        "<K:LB;V::LB<-TK;*>;W:>La/O<[I+TV;>.I;La/B;" (fun _ => none) = .ok action) ∧
      TypeRole.signature.classNames "<K:LB;V::LB<-TK;*>;W:>La/O<[I+TV;>.I;La/B;" =
        .ok ["B", "B", "a/O", "a/O$I", "a/B"] := by
  have hunambiguous : genericClass.Unambiguous :=
    .cons_cons (.inl (List.cons_ne_nil _ _))
      (.cons_cons (.inl (List.cons_ne_nil _ _)) (.singleton _))
  have heach : genericClass.EachBounded :=
    .cons_cons (List.cons_ne_nil _ _) (.cons_cons (List.cons_ne_nil _ _) (.singleton _))
  have haccepted := standard_accepted_iff_eachBounded hunambiguous
  exact ⟨hunambiguous, heach, rfl, (haccepted.1 Id fun _ => none).2 heach,
    (haccepted.2 _).2 ⟨heach, rfl⟩⟩

/-- A class whose first parameter has no bound. -/
def unboundedFirst : Sentence :=
  .generic [⟨.one 'A' (by decide), none, []⟩, ⟨.one 'B' (by decide), none, []⟩]
    (.ofClass (.classType [] (.one 'C' (by decide)) .bare .unsuffixed) [])

/-- Its second parameter is refused, since it is taken for the bound of the first one. -/
theorem not_accepted_unboundedFirst :
    unboundedFirst.Unambiguous ∧ unboundedFirst.text = "<A:B:>LC;" ∧
      unboundedFirst.classes = ["C"] ∧
      (∀ f : String → Option String, TypeRole.signature.mapNames "<A:B:>LC;" f =
        fail (.signature "<A:B:>LC;" (.unexpected (Utf8.lead 'B')))) ∧
      TypeRole.signature.classNames "<A:B:>LC;" =
        fail (.signature "<A:B:>LC;" (.unexpected (Utf8.lead 'B'))) := by
  refine ⟨.cons_cons (.inr ?_) (.singleton _), rfl, rfl, fun f => by cbv, by cbv⟩
  rintro c hc
  obtain rfl : 'B' = c := Option.some.inj hc
  decide

end Standard

end JarTailor.Signature
