import JarTailor.Proofs.Signature

/-!
# The grammar of signatures

    Sentence   = ["<" Parameter+ ">"] Body
    Body       = "(" Type* ")" ("V" | Type) ("^" Reference)*  |  Type Reference*
    Parameter  = Identifier ":" [Reference] (":" Reference)*
    Type       = one of the letters of base types  |  Reference
    Reference  = "L" ClassName ClassRest  |  "T" Identifier ";"  |  "[" Type
    ClassRest  = "<" Arguments ClassRest  |  "." ClassName ClassRest  |  ";"
    Arguments  = "*" Arguments  |  ["+" | "-"] Reference Arguments  |  ">"

A syntax tree has the characters of a text, which `chars` spells with a new name for each class that
is not nested in another, and it names classes: `leading` lists those that are not nested, `classes`
all of them as the program reports them. `pieces` cuts the same text up as the program does.
-/

namespace JarTailor.Signature

abbrev ClassName := { name : String // Named name }

/-- What stands in front of the character that ends it. -/
structure Identifier (terminator : Char) where
  chars : List Char
  ne_nil : chars ≠ []
  notMem : terminator ∉ chars

/-- The constructs that hold each other. -/
inductive Kind where
  | type
  | reference
  | classRest
  | arguments

inductive Wildcard where
  | upper
  | lower

def Wildcard.char : Wildcard → Char
  | .upper => '+'
  | .lower => '-'

inductive Tree : Kind → Type where
  | base (type : BaseType) : Tree .type
  | ofReference (reference : Tree .reference) : Tree .type
  | object (name : ClassName) (rest : Tree .classRest) : Tree .reference
  | typeVariable (name : Identifier ';') : Tree .reference
  | array (element : Tree .type) : Tree .reference
  | close : Tree .classRest
  | apply (arguments : Tree .arguments) (rest : Tree .classRest) : Tree .classRest
  | inner (segment : ClassName) (rest : Tree .classRest) : Tree .classRest
  | last : Tree .arguments
  | any (rest : Tree .arguments) : Tree .arguments
  | argument (type : Tree .reference) (rest : Tree .arguments) : Tree .arguments
  | bounded (wildcard : Wildcard) (bound : Tree .reference) (rest : Tree .arguments) :
      Tree .arguments

namespace Tree

variable {kind : Kind}

/-- The text, with a new name for each class that is not nested. -/
def chars (f : String → String) : {kind : Kind} → Tree kind → List Char
  | _, .base type => [type.letter]
  | _, .ofReference reference => reference.chars f
  | _, .object name rest => 'L' :: ((f name).toList ++ rest.chars f)
  | _, .typeVariable name => 'T' :: (name.chars ++ [';'])
  | _, .array element => '[' :: element.chars f
  | _, .close => [';']
  | _, .apply arguments rest => '<' :: (arguments.chars f ++ rest.chars f)
  | _, .inner segment rest => '.' :: (segment.val.toList ++ rest.chars f)
  | _, .last => ['>']
  | _, .any rest => '*' :: rest.chars f
  | _, .argument type rest => type.chars f ++ rest.chars f
  | _, .bounded wildcard bound rest => wildcard.char :: (bound.chars f ++ rest.chars f)

/-- The names of the classes that are not nested. -/
def leading : {kind : Kind} → Tree kind → List String
  | _, .base _ => []
  | _, .ofReference reference => reference.leading
  | _, .object name rest => name :: rest.leading
  | _, .typeVariable _ => []
  | _, .array element => element.leading
  | _, .close => []
  | _, .apply arguments rest => arguments.leading ++ rest.leading
  | _, .inner _ rest => rest.leading
  | _, .last => []
  | _, .any rest => rest.leading
  | _, .argument type rest => type.leading ++ rest.leading
  | _, .bounded _ bound rest => bound.leading ++ rest.leading

/-- The names of all classes. Those that follow in the rest of a class are nested in `outer`. -/
def classes (outer : String) : {kind : Kind} → Tree kind → List String
  | _, .base _ => []
  | _, .ofReference reference => reference.classes outer
  | _, .object name rest => name :: rest.classes name
  | _, .typeVariable _ => []
  | _, .array element => element.classes outer
  | _, .close => []
  | _, .apply arguments rest => arguments.classes outer ++ rest.classes outer
  | _, .inner segment rest => s!"{outer}${segment.val}" :: rest.classes s!"{outer}${segment.val}"
  | _, .last => []
  | _, .any rest => rest.classes outer
  | _, .argument type rest => type.classes outer ++ rest.classes outer
  | _, .bounded _ bound rest => bound.classes outer ++ rest.classes outer

def pieces (outer : String) : {kind : Kind} → Tree kind → List Piece
  | _, .base type => [.text [type.letter]]
  | _, .ofReference reference => reference.pieces outer
  | _, .object name rest => .text ['L'] :: .outer name :: rest.pieces name
  | _, .typeVariable name => [.text ('T' :: name.chars ++ [';'])]
  | _, .array element => .text ['['] :: element.pieces outer
  | _, .close => [.text [';']]
  | _, .apply arguments rest => .text ['<'] :: (arguments.pieces outer ++ rest.pieces outer)
  | _, .inner segment rest =>
      .text ['.'] :: .nested segment s!"{outer}${segment.val}" ::
        rest.pieces s!"{outer}${segment.val}"
  | _, .last => [.text ['>']]
  | _, .any rest => .text ['*'] :: rest.pieces outer
  | _, .argument type rest => type.pieces outer ++ rest.pieces outer
  | _, .bounded wildcard bound rest =>
      .text [wildcard.char] :: (bound.pieces outer ++ rest.pieces outer)

end Tree

/-- A type parameter, whose bound by a class comes before its bounds by interfaces. -/
structure Parameter where
  name : Identifier ':'
  classBound : Option (Tree .reference)
  interfaceBounds : List (Tree .reference)

namespace Parameter

def Bounded (parameter : Parameter) : Prop :=
  parameter.classBound.isSome ∨ parameter.interfaceBounds ≠ []

/-- Only the last parameter may have no bound, and only the first one a name that starts like the
end of the parameters. -/
def Precedes (earlier later : Parameter) : Prop :=
  earlier.Bounded ∧ later.name.chars.head? ≠ some '>'

def bounds (parameter : Parameter) : List (Tree .reference) :=
  parameter.classBound.toList ++ parameter.interfaceBounds

def chars (f : String → String) (parameter : Parameter) : List Char :=
  parameter.name.chars ++ ':' :: (parameter.classBound.toList.flatMap (Tree.chars f) ++
    parameter.interfaceBounds.flatMap fun bound => ':' :: bound.chars f)

def pieces (parameter : Parameter) : List Piece :=
  .text (parameter.name.chars ++ [':']) ::
    (parameter.classBound.toList.flatMap (Tree.pieces "") ++
      parameter.interfaceBounds.flatMap fun bound => .text [':'] :: bound.pieces "")

end Parameter

inductive Body where
  | method (parameters : List (Tree .type)) (result : Option (Tree .type))
      (thrown : List (Tree .reference))
  | plain (type : Tree .type) (supertypes : List (Tree .reference))

namespace Body

def types : Body → List (Tree .type)
  | .method parameters result thrown => parameters ++ result.toList ++ thrown.map .ofReference
  | .plain type supertypes => type :: supertypes.map .ofReference

def chars (f : String → String) : Body → List Char
  | .method parameters result thrown =>
      '(' :: (parameters.flatMap (Tree.chars f) ++ ')' :: (result.elim ['V'] (Tree.chars f) ++
        thrown.flatMap fun type => '^' :: type.chars f))
  | .plain type supertypes => type.chars f ++ supertypes.flatMap (Tree.chars f)

def pieces : Body → List Piece
  | .method parameters result thrown =>
      .text ['('] :: (parameters.flatMap (Tree.pieces "") ++
        .text [')'] :: (result.elim [.text ['V']] (Tree.pieces "") ++
          thrown.flatMap fun type => .text ['^'] :: type.pieces ""))
  | .plain type supertypes => type.pieces "" ++ supertypes.flatMap (Tree.pieces "")

end Body

structure Sentence where
  parameters : List Parameter
  precede : parameters.IsChain Parameter.Precedes
  body : Body

namespace Sentence

variable (sentence : Sentence)

def types : List (Tree .type) :=
  (sentence.parameters.flatMap Parameter.bounds).map .ofReference ++ sentence.body.types

def leading : List String :=
  sentence.types.flatMap Tree.leading

def classes : List String :=
  sentence.types.flatMap (Tree.classes "")

def chars (f : String → String) : List Char :=
  match sentence.parameters with
  | [] => sentence.body.chars f
  | parameters => '<' :: (parameters.flatMap (Parameter.chars f) ++ '>' :: sentence.body.chars f)

def pieces : List Piece :=
  match sentence.parameters with
  | [] => sentence.body.pieces
  | parameters =>
      .text ['<'] :: (parameters.flatMap Parameter.pieces ++ .text ['>'] :: sentence.body.pieces)

/-- The text with a new name for each class that is not nested. -/
def rename (f : String → String) : String :=
  String.ofList (sentence.chars f)

def text : String :=
  sentence.rename id

end Sentence

section Pieces

variable {f : String → String}

@[simp] theorem renamed_nil : renamed f [] = [] := rfl

@[simp] theorem renamed_cons (piece : Piece) (pieces : List Piece) :
    renamed f (piece :: pieces) = (piece.rename f).chars ++ renamed f pieces := by
  simp [renamed]

theorem renamed_flatMap {α : Type} {cut : α → List Piece} {spelled : α → List Char}
    (h : ∀ part, renamed f (cut part) = spelled part) (parts : List α) :
    renamed f (parts.flatMap cut) = parts.flatMap spelled := by
  induction parts with
  | nil => rfl
  | cons part parts ih => rw [List.flatMap_cons, renamed_append, h, ih, List.flatMap_cons]

theorem Tree.renamed_pieces {kind : Kind} (tree : Tree kind) (outer : String) :
    renamed f (tree.pieces outer) = tree.chars f := by
  induction tree generalizing outer with
  | base | typeVariable | close | last => simp [pieces, chars, Piece.rename, Piece.chars]
  | ofReference reference ih => exact ih outer
  | object name rest ih => simp [pieces, chars, Piece.rename, Piece.chars, ih]
  | array element ih => simp [pieces, chars, Piece.rename, Piece.chars, ih]
  | apply arguments rest iharguments ihrest =>
      simp [pieces, chars, Piece.rename, Piece.chars, renamed_append, iharguments, ihrest]
  | inner segment rest ih => simp [pieces, chars, Piece.rename, Piece.chars, ih]
  | any rest ih => simp [pieces, chars, Piece.rename, Piece.chars, ih]
  | argument type rest ihtype ihrest => simp [pieces, chars, renamed_append, ihtype, ihrest]
  | bounded wildcard bound rest ihbound ihrest =>
      simp [pieces, chars, Piece.rename, Piece.chars, renamed_append, ihbound, ihrest]

theorem renamed_after (c : Char) (type : Tree .reference) :
    renamed f (.text [c] :: type.pieces "") = c :: type.chars f := by
  simp [Piece.rename, Piece.chars, type.renamed_pieces]

theorem Parameter.renamed_pieces (parameter : Parameter) :
    renamed f parameter.pieces = parameter.chars f := by
  rw [pieces, renamed_cons, renamed_append,
    renamed_flatMap (fun bound : Tree .reference => bound.renamed_pieces ""),
    renamed_flatMap (renamed_after ':')]
  simp [chars, Piece.rename, Piece.chars]

theorem Body.renamed_pieces (body : Body) : renamed f body.pieces = body.chars f := by
  cases body with
  | method parameters result thrown =>
      have hresult : renamed f (result.elim [.text ['V']] (Tree.pieces "")) =
          result.elim ['V'] (Tree.chars f) := by
        cases result with
        | none => rfl
        | some type => exact type.renamed_pieces ""
      rw [pieces, renamed_cons, renamed_append, renamed_cons, renamed_append, hresult,
        renamed_flatMap (fun type : Tree .type => type.renamed_pieces ""),
        renamed_flatMap (renamed_after '^')]
      rfl
  | plain type supertypes =>
      rw [pieces, renamed_append, type.renamed_pieces,
        renamed_flatMap (fun type : Tree .reference => type.renamed_pieces ""), chars]

theorem Sentence.renamed_pieces (sentence : Sentence) :
    renamed f sentence.pieces = sentence.chars f := by
  unfold pieces chars
  split
  · exact sentence.body.renamed_pieces
  · rw [renamed_cons, renamed_append, renamed_cons, sentence.body.renamed_pieces,
      renamed_flatMap Parameter.renamed_pieces]
    rfl

theorem Sentence.spell_rename (sentence : Sentence) :
    spell (sentence.pieces.map (Piece.rename f)) = sentence.rename f :=
  congrArg String.ofList sentence.renamed_pieces

end Pieces

/-- The names of pieces that are not nested. -/
def Piece.leading? : Piece → Option String
  | .outer name => some name
  | .text _ => none
  | .nested _ _ => none

def leadingNames (pieces : List Piece) : List String :=
  pieces.filterMap Piece.leading?

theorem Tree.leadingNames_pieces {kind : Kind} (tree : Tree kind) (outer : String) :
    leadingNames (tree.pieces outer) = tree.leading := by
  induction tree generalizing outer with
  | base | typeVariable | close | last => rfl
  | ofReference reference ih => exact ih outer
  | object name rest ih => exact congrArg _ (ih name)
  | array element ih => exact ih outer
  | inner segment rest ih => exact ih _
  | any rest ih => exact ih outer
  | apply first rest ihfirst ihrest =>
      exact List.filterMap_append.trans (congrArg₂ _ (ihfirst outer) (ihrest outer))
  | argument first rest ihfirst ihrest =>
      exact List.filterMap_append.trans (congrArg₂ _ (ihfirst outer) (ihrest outer))
  | bounded wildcard first rest ihfirst ihrest =>
      exact List.filterMap_append.trans (congrArg₂ _ (ihfirst outer) (ihrest outer))

theorem Tree.classNames_pieces {kind : Kind} (tree : Tree kind) (outer : String) :
    classNames (tree.pieces outer) = tree.classes outer := by
  induction tree generalizing outer with
  | base | typeVariable | close | last => rfl
  | ofReference reference ih => exact ih outer
  | object name rest ih => exact congrArg _ (ih name)
  | array element ih => exact ih outer
  | inner segment rest ih => exact congrArg _ (ih _)
  | any rest ih => exact ih outer
  | apply first rest ihfirst ihrest =>
      exact List.filterMap_append.trans (congrArg₂ _ (ihfirst outer) (ihrest outer))
  | argument first rest ihfirst ihrest =>
      exact List.filterMap_append.trans (congrArg₂ _ (ihfirst outer) (ihrest outer))
  | bounded wildcard first rest ihfirst ihrest =>
      exact List.filterMap_append.trans (congrArg₂ _ (ihfirst outer) (ihrest outer))

section Told

variable {told : Piece → Option String} (htext : ∀ chars, told (.text chars) = none)

include htext

theorem filterMap_cons_text (chars : List Char) (pieces : List Piece) :
    (Piece.text chars :: pieces).filterMap told = pieces.filterMap told :=
  List.filterMap_cons_none (htext chars)

theorem Parameter.filterMap_pieces (parameter : Parameter) :
    parameter.pieces.filterMap told =
      (parameter.bounds.flatMap (Tree.pieces "")).filterMap told := by
  have hinterfaces : (parameter.interfaceBounds.flatMap fun bound =>
      Piece.text [':'] :: bound.pieces "").filterMap told =
        (parameter.interfaceBounds.flatMap (Tree.pieces "")).filterMap told := by
    simp only [List.filterMap_flatMap, filterMap_cons_text htext]
  rw [pieces, filterMap_cons_text htext, List.filterMap_append, hinterfaces, bounds,
    List.flatMap_append, List.filterMap_append]

theorem Body.filterMap_pieces (body : Body) :
    body.pieces.filterMap told = (body.types.flatMap (Tree.pieces "")).filterMap told := by
  cases body with
  | method parameters result thrown =>
      have hresult : (result.elim [.text ['V']] (Tree.pieces "")).filterMap told =
          (result.toList.flatMap (Tree.pieces "")).filterMap told := by
        cases result with
        | none => exact filterMap_cons_text htext _ _
        | some type => simp
      have hthrown :
          (thrown.flatMap fun type => Piece.text ['^'] :: type.pieces "").filterMap told =
          ((thrown.map Tree.ofReference).flatMap (Tree.pieces "")).filterMap told := by
        simp only [List.filterMap_flatMap, filterMap_cons_text htext, List.flatMap_map]
        rfl
      rw [pieces, filterMap_cons_text htext, List.filterMap_append, filterMap_cons_text htext,
        List.filterMap_append, hresult, hthrown, types, List.flatMap_append, List.flatMap_append,
        List.filterMap_append, List.filterMap_append, List.append_assoc]
  | plain type supertypes =>
      rw [pieces, types, List.flatMap_cons, List.flatMap_map]
      rfl

/-- What the pieces of a sentence tell is told by the types in it. -/
theorem Sentence.filterMap_pieces (sentence : Sentence) :
    sentence.pieces.filterMap told =
      (sentence.types.flatMap (Tree.pieces "")).filterMap told := by
  have hbounds : (sentence.parameters.flatMap Parameter.pieces).filterMap told =
      (((sentence.parameters.flatMap Parameter.bounds).map Tree.ofReference).flatMap
        (Tree.pieces "")).filterMap told := by
    simp only [List.filterMap_flatMap, Parameter.filterMap_pieces htext, List.flatMap_map,
      List.flatMap_assoc]
    rfl
  have hpieces : sentence.pieces.filterMap told =
      (sentence.parameters.flatMap Parameter.pieces).filterMap told ++
        sentence.body.pieces.filterMap told := by
    unfold pieces
    split
    · next hnone => rw [hnone, List.flatMap_nil, List.filterMap_nil, List.nil_append]
    · rw [filterMap_cons_text htext, List.filterMap_append, filterMap_cons_text htext]
  rw [hpieces, hbounds, sentence.body.filterMap_pieces htext, types, List.flatMap_append,
    List.filterMap_append]

end Told

theorem Sentence.leadingNames_pieces (sentence : Sentence) :
    leadingNames sentence.pieces = sentence.leading := by
  have htext : ∀ chars, Piece.leading? (.text chars) = none := fun _ => rfl
  rw [leadingNames, sentence.filterMap_pieces htext, List.filterMap_flatMap, leading]
  exact congrFun (congrArg _ (funext fun type => type.leadingNames_pieces "")) _

theorem Sentence.classNames_pieces (sentence : Sentence) :
    classNames sentence.pieces = sentence.classes := by
  have htext : ∀ chars, Piece.className? (.text chars) = none := fun _ => rfl
  rw [classNames, sentence.filterMap_pieces htext, List.filterMap_flatMap, classes]
  exact congrFun (congrArg _ (funext fun type => type.classNames_pieces "")) _

end JarTailor.Signature
