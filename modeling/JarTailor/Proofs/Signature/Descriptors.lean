import JarTailor.Edit.Renaming
import JarTailor.Proofs.Descriptor.Grammar
import JarTailor.Proofs.Signature.Recognized

/-!
# Descriptors read as signatures

A descriptor is a signature without type arguments and nested classes, if a signature can hold the
names of its classes and it is not that of no type. Read as a signature, it is cut into the pieces
that it is written from. So its classes are shown to a function one by one in the same order, and
the text that comes out is the same, whichever way it is read. Both are shown by rewriting pieces:
the rewriting of a row of pieces is that of its parts, one after the other, in any lawful monad.
-/

namespace JarTailor

open Signature

section Pieces

def ElementType.pieces : ElementType → List Piece
  | .base type => [.text [type.letter]]
  | .object name => [.text ['L'], .outer name, .text [';']]

def FieldType.pieces (type : FieldType) : List Piece :=
  List.replicate type.rank (.text ['[']) ++ type.element.pieces

namespace MethodType

def resultPieces : Option FieldType → List Piece
  | some type => type.pieces
  | none => [.text ['V']]

def pieces (type : MethodType) : List Piece :=
  .text ['('] :: (type.parameters.flatMap FieldType.pieces ++
    .text [')'] :: resultPieces type.result)

end MethodType

def Descriptor.pieces : Descriptor → List Piece
  | .void => [.text ['V']]
  | .field type => type.pieces
  | .method type => type.pieces

theorem FieldType.pieces_succ (rank : Nat) (element : ElementType) :
    FieldType.pieces ⟨rank + 1, element⟩ = .text ['['] :: FieldType.pieces ⟨rank, element⟩ := rfl

theorem FieldType.classNames_pieces (type : FieldType) :
    classNames type.pieces = type.className?.toList := by
  obtain ⟨rank, element⟩ := type
  induction rank with
  | zero => cases element <;> rfl
  | succ rank ih => exact ih

theorem Descriptor.classNames_pieces (descriptor : Descriptor) :
    Signature.classNames descriptor.pieces = descriptor.classNames := by
  cases descriptor with
  | void => rfl
  | field type => exact type.classNames_pieces
  | method type =>
      have hparameters : Signature.classNames (type.parameters.flatMap FieldType.pieces) =
          type.parameters.filterMap FieldType.className? := by
        generalize type.parameters = types
        induction types with
        | nil => rfl
        | cons type types ih =>
            rw [Signature.classNames, List.flatMap_cons, List.filterMap_append]
            change Signature.classNames _ ++ Signature.classNames _ = _
            rw [type.classNames_pieces, ih, List.filterMap_cons]
            cases type.className? <;> rfl
      have hresult : Signature.classNames (MethodType.resultPieces type.result) =
          (type.result.bind FieldType.className?).toList := by
        cases type.result with
        | none => rfl
        | some result => exact result.classNames_pieces
      rw [classNames, MethodType.classNames, ← hparameters, ← hresult]
      exact List.filterMap_append

theorem FieldType.renamed_pieces {f : String → String} (type : FieldType) :
    renamed f type.pieces = (type.rename f).chars := by
  obtain ⟨rank, element⟩ := type
  induction rank with
  | zero =>
      cases element with
      | base type => rfl
      | object name =>
          simp [pieces, ElementType.pieces, rename, chars, ElementType.chars, Piece.rename,
            Piece.chars]
  | succ rank ih =>
      rw [pieces_succ, renamed_cons, ih]
      cases element <;> rfl

theorem Descriptor.spell_rename_pieces {f : String → String} (descriptor : Descriptor) :
    spell (descriptor.pieces.map (Piece.rename f)) = (descriptor.rename f).text := by
  cases descriptor with
  | void => rfl
  | field type => exact congrArg String.ofList type.renamed_pieces
  | method type =>
      have hresult : renamed f (MethodType.resultPieces type.result) =
          MethodType.resultChars (type.result.map (FieldType.rename f)) := by
        cases type.result with
        | none => rfl
        | some result => exact result.renamed_pieces
      refine congrArg String.ofList ?_
      change renamed f type.pieces = _
      rw [MethodType.pieces, renamed_cons, renamed_append, renamed_cons,
        renamed_flatMap (fun type : FieldType => type.renamed_pieces), hresult,
        MethodType.chars_eq, MethodType.rename, List.flatMap_map]
      rfl

/-- The class that a type names, if any, has a name that a signature can hold. -/
theorem FieldType.exists_tree (type : FieldType)
    (hnamed : ∀ name, type.className? = some name → Named name) :
    ∃ tree : Tree .type, ∀ outer, tree.pieces outer = type.pieces := by
  obtain ⟨rank, element⟩ := type
  induction rank with
  | zero =>
      cases element with
      | base type => exact ⟨.base type, fun _ => rfl⟩
      | object name =>
          exact ⟨.ofReference (.object ⟨name, hnamed name rfl⟩ .close), fun _ => rfl⟩
  | succ rank ih =>
      obtain ⟨tree, htree⟩ := ih hnamed
      exact ⟨.ofReference (.array tree), fun outer => congrArg _ (htree outer)⟩

theorem FieldType.exists_trees (types : List FieldType)
    (hnamed : ∀ type ∈ types, ∀ name, type.className? = some name → Named name) :
    ∃ trees : List (Tree .type),
      trees.flatMap (Tree.pieces "") = types.flatMap FieldType.pieces := by
  induction types with
  | nil => exact ⟨[], rfl⟩
  | cons type types ih =>
      obtain ⟨tree, htree⟩ := type.exists_tree (hnamed type List.mem_cons_self)
      obtain ⟨trees, htrees⟩ := ih fun other hother => hnamed other (List.mem_cons_of_mem _ hother)
      exact ⟨tree :: trees, by rw [List.flatMap_cons, List.flatMap_cons, htree, htrees]⟩

theorem Descriptor.exists_sentence {descriptor : Descriptor} (hvoid : descriptor ≠ .void)
    (hnamed : ∀ name ∈ descriptor.classNames, Named name) :
    ∃ sentence : Sentence, sentence.pieces = descriptor.pieces := by
  cases descriptor with
  | void => exact absurd rfl hvoid
  | field type =>
      obtain ⟨tree, htree⟩ := type.exists_tree fun name hname =>
        hnamed name (Option.mem_toList.2 hname)
      exact ⟨⟨[], .nil, .plain tree []⟩, (List.append_nil _).trans (htree "")⟩
  | method type =>
      obtain ⟨trees, htrees⟩ := FieldType.exists_trees type.parameters
        fun parameter hparameter name hname => hnamed name
          (List.mem_append_left _ (List.mem_filterMap.2 ⟨parameter, hparameter, hname⟩))
      have hresult : ∃ result : Option (Tree .type),
          result.elim [.text ['V']] (Tree.pieces "") = MethodType.resultPieces type.result := by
        cases htype : type.result with
        | none => exact ⟨none, rfl⟩
        | some result =>
            obtain ⟨tree, htree⟩ := result.exists_tree fun name hname =>
              hnamed name (List.mem_append_right _ (by simp [htype, hname]))
            exact ⟨some tree, htree ""⟩
      obtain ⟨result, hresult⟩ := hresult
      refine ⟨⟨[], .nil, .method trees result []⟩, ?_⟩
      change (Body.method trees result []).pieces = type.pieces
      rw [Body.pieces, MethodType.pieces, htrees, hresult, List.flatMap_nil, List.append_nil]

/-- A descriptor of names that a signature can hold is cut into its pieces, unless it is that of no
type. -/
theorem Descriptor.pieces_text {descriptor : Descriptor} (hvoid : descriptor ≠ .void)
    (hnamed : ∀ name ∈ descriptor.classNames, Named name) :
    Signature.pieces descriptor.text = .ok descriptor.pieces := by
  obtain ⟨sentence, hsentence⟩ := exists_sentence hvoid hnamed
  refine pieces_eq_ok_iff.2 ⟨sentence, ?_, hsentence⟩
  rw [Sentence.text, ← sentence.spell_rename, hsentence, spell_rename_pieces, rename_id]

end Pieces

/-- What a part of a text becomes when its names are shown to a function: whether one of them
changes, and the characters that the part then has. -/
structure Rewritten where
  changed : Bool
  chars : List Char

namespace Rewritten

/-- Two parts, one after the other. -/
instance : Append Rewritten where
  append first second := ⟨first.changed || second.changed, first.chars ++ second.chars⟩

theorem append_assoc (first second third : Rewritten) :
    first ++ second ++ third = first ++ (second ++ third) :=
  congrArg₂ mk (Bool.or_assoc ..) (List.append_assoc ..)

/-- The new text, if it is another one. -/
def text? (part : Rewritten) : Option String :=
  if part.changed then some (String.ofList part.chars) else none

end Rewritten

section Rewriting

variable {m : Type → Type} [Monad m] (f : String → m (Option String))

/-- What pieces become, each shown to `f` in its turn. -/
def Signature.rewrite (pieces : List Piece) : m Rewritten := do
  let new ← pieces.mapM (mapNamesM.one f)
  return ⟨new.any Option.isSome,
    (List.zipWith (fun old new => new.getD old) pieces new).flatMap Piece.chars⟩

def FieldType.rewrite (type : FieldType) : m Rewritten := do
  let new ← type.mapNamesM f
  return ⟨new.isSome, (new.getD type).chars⟩

variable [LawfulMonad m]

theorem Signature.rewrite_nil : rewrite f [] = pure ⟨false, []⟩ := by
  simp [rewrite]

theorem Signature.rewrite_cons (piece : Piece) (pieces : List Piece) :
    rewrite f (piece :: pieces) = do
      let new ← mapNamesM.one f piece
      let later ← rewrite f pieces
      return ⟨new.isSome, (new.getD piece).chars⟩ ++ later := by
  simp only [rewrite, List.mapM_cons, bind_assoc, pure_bind]
  rfl

theorem Signature.rewrite_text (chars : List Char) (pieces : List Piece) :
    rewrite f (.text chars :: pieces) = do
      let later ← rewrite f pieces
      return ⟨false, chars⟩ ++ later := by
  rw [rewrite_cons]
  exact pure_bind ..

theorem Signature.rewrite_append (front back : List Piece) :
    rewrite f (front ++ back) = do
      let first ← rewrite f front
      let later ← rewrite f back
      return first ++ later := by
  induction front with
  | nil =>
      rw [rewrite_nil, pure_bind]
      exact (bind_pure _).symm
  | cons piece front ih =>
      simp only [List.cons_append, rewrite_cons, ih, bind_assoc, pure_bind,
        Rewritten.append_assoc]

theorem Signature.map_text?_rewrite (pieces : List Piece) :
    Rewritten.text? <$> rewrite f pieces = Option.map spell <$> mapNamesM f pieces := by
  simp only [rewrite, mapNamesM, map_eq_pure_bind, bind_assoc, pure_bind]
  refine bind_congr fun new => ?_
  cases hchanged : new.any Option.isSome with
  | true => simp [Rewritten.text?, spell]
  | false => simp [Rewritten.text?]

/-- A type is rewritten as its pieces are. -/
theorem FieldType.rewrite_pieces (type : FieldType) :
    Signature.rewrite f type.pieces = type.rewrite f := by
  obtain ⟨rank, element⟩ := type
  induction rank with
  | zero =>
      cases element with
      | base type =>
          have hpieces : FieldType.pieces ⟨0, .base type⟩ = [.text [type.letter]] := rfl
          have hmap : FieldType.mapNamesM f ⟨0, .base type⟩ = pure none := rfl
          rw [hpieces, Signature.rewrite_text, Signature.rewrite_nil, pure_bind, rewrite, hmap,
            pure_bind]
          rfl
      | object name =>
          have hpieces : FieldType.pieces ⟨0, .object name⟩ =
              [.text ['L'], .outer name, .text [';']] := rfl
          rw [hpieces, Signature.rewrite_text, Signature.rewrite_cons, Signature.rewrite_text,
            Signature.rewrite_nil, rewrite]
          simp only [mapNamesM.one, mapNamesM, bind_assoc, pure_bind]
          refine bind_congr fun new => ?_
          cases new <;> rfl
  | succ rank ih =>
      rw [pieces_succ, Signature.rewrite_text, ih, rewrite, rewrite]
      cases element with
      | base type =>
          have hmap : ∀ rank, FieldType.mapNamesM f ⟨rank, .base type⟩ = pure none := fun _ => rfl
          rw [hmap, hmap, pure_bind, pure_bind, pure_bind]
          rfl
      | object name =>
          simp only [mapNamesM, bind_assoc, pure_bind]
          refine bind_congr fun new => ?_
          cases new <;> rfl

/-- Types in a row. -/
theorem FieldType.rewrite_flatMap (types : List FieldType) :
    Signature.rewrite f (types.flatMap FieldType.pieces) = do
      let new ← types.mapM (FieldType.mapNamesM f)
      return ⟨new.any Option.isSome,
        (List.zipWith (fun old new => new.getD old) types new).flatMap FieldType.chars⟩ := by
  induction types with
  | nil =>
      rw [List.flatMap_nil, Signature.rewrite_nil, List.mapM_nil, pure_bind]
      rfl
  | cons type types ih =>
      rw [List.flatMap_cons, Signature.rewrite_append, ih, type.rewrite_pieces, rewrite,
        List.mapM_cons]
      simp only [bind_assoc, pure_bind]
      rfl

omit [Monad m] [LawfulMonad m] in
/-- The parts of a method type with new types in it make up its new text. -/
theorem MethodType.text?_parts (type : MethodType) (parameters : List (Option FieldType))
    (result : Option FieldType) :
    ((⟨false, ['(']⟩ : Rewritten) ++ (⟨parameters.any Option.isSome,
        (List.zipWith (fun old new => new.getD old) type.parameters parameters).flatMap
          FieldType.chars⟩ ++ ((⟨false, [')']⟩ : Rewritten) ++
            ⟨result.isSome, resultChars (result <|> type.result)⟩))).text? =
      Option.map MethodType.text (if parameters.any Option.isSome || result.isSome then
        some {
          parameters := List.zipWith (fun old new => new.getD old) type.parameters parameters
          result := result <|> type.result }
      else none) := by
  have hchanged : (false || (parameters.any Option.isSome || (false || result.isSome))) =
      (parameters.any Option.isSome || result.isSome) := by
    rw [Bool.false_or, Bool.false_or]
  change (if false || (parameters.any Option.isSome || (false || result.isSome)) then _ else _) = _
  rw [hchanged]
  split
  · rw [Option.map_some, text, chars_eq]
    rfl
  · rfl

theorem MethodType.map_text_mapNamesM (type : MethodType) :
    Option.map MethodType.text <$> type.mapNamesM f =
      Rewritten.text? <$> Signature.rewrite f type.pieces := by
  obtain ⟨types, result⟩ := type
  rw [pieces, Signature.rewrite_text, Signature.rewrite_append, FieldType.rewrite_flatMap,
    Signature.rewrite_text, mapNamesM]
  cases result with
  | none =>
      rw [resultPieces, Signature.rewrite_text, Signature.rewrite_nil]
      simp only [map_eq_pure_bind, bind_assoc, pure_bind]
      refine bind_congr fun parameters => ?_
      refine Eq.trans ?_ (congrArg pure (text?_parts ⟨types, none⟩ parameters none).symm)
      split <;> rw [pure_bind]
  | some result =>
      rw [resultPieces, result.rewrite_pieces, FieldType.rewrite]
      simp only [map_eq_pure_bind, bind_assoc, pure_bind]
      refine bind_congr fun parameters => bind_congr fun new => ?_
      have hresult : (new.getD result).chars = resultChars (new <|> some result) := by
        cases new <;> rfl
      rw [hresult]
      refine Eq.trans ?_ (congrArg pure (text?_parts ⟨types, some result⟩ parameters new).symm)
      split <;> rw [pure_bind]

/-- A descriptor is rewritten as its pieces are. -/
theorem Descriptor.rewrite_pieces (descriptor : Descriptor) :
    Option.map Descriptor.text <$> descriptor.mapNamesM f =
      Rewritten.text? <$> Signature.rewrite f descriptor.pieces := by
  cases descriptor with
  | void =>
      rw [pieces, Signature.rewrite_text, Signature.rewrite_nil, mapNamesM]
      simp only [map_eq_pure_bind, pure_bind]
      rfl
  | field type =>
      rw [pieces, type.rewrite_pieces, FieldType.rewrite, mapNamesM]
      simp only [map_eq_pure_bind, bind_assoc, pure_bind]
      refine bind_congr fun new => ?_
      cases new <;> rfl
  | method type =>
      rw [pieces, ← type.map_text_mapNamesM, mapNamesM]
      simp only [map_eq_pure_bind, bind_assoc, pure_bind, Option.map_map]
      rfl

end Rewriting

theorem Enclosable.named {name : String} (h : Enclosable name)
    (hname : '<' ∉ name.toList ∧ '.' ∉ name.toList) : Named name := by
  refine ⟨h.1, fun c hc => ?_⟩
  have hsemicolon : c ≠ ';' := fun heq => h.2 (heq ▸ hc)
  have hless : c ≠ '<' := fun heq => hname.1 (heq ▸ hc)
  have hdot : c ≠ '.' := fun heq => hname.2 (heq ▸ hc)
  simp [takeName.inName, hsemicolon, hless, hdot]

section Agreement

variable {m : Type → Type} [Monad m]

/-- Asks `f` for a name and keeps a record of it. -/
def recorded (f : String → m (Option String)) (name : String) :
    StateT (List String) m (Option String) := do
  modify (· ++ [name])
  f name

variable [LawfulMonad m]

theorem run_recorded (f : String → m (Option String)) (name : String) (asked : List String) :
    (recorded f name).run asked = (·, asked ++ [name]) <$> f name := by
  simp [recorded]

/-- The names of pieces are asked for in the order in which they are reported. -/
theorem Signature.run_rewrite_recorded (f : String → m (Option String)) (pieces : List Piece)
    (asked : List String) :
    (rewrite (recorded f) pieces).run asked =
      (·, asked ++ classNames pieces) <$> rewrite f pieces := by
  induction pieces generalizing asked with
  | nil => simp [rewrite_nil, classNames]
  | cons piece pieces ih =>
      cases piece with
      | text chars =>
          have hnames : classNames (.text chars :: pieces) = classNames pieces := rfl
          simp [rewrite_text, ih, hnames]
      | outer name =>
          simp [rewrite_cons, mapNamesM.one, run_recorded, ih, classNames, Piece.className?]
      | nested segment joined =>
          simp [rewrite_cons, mapNamesM.one, run_recorded, ih, classNames, Piece.className?]

end Agreement

namespace TypeRole

variable {descriptor : Descriptor} (hreadable : descriptor.Readable) (hvoid : descriptor ≠ .void)
  (hnamed : ∀ name ∈ descriptor.classNames, Named name) {role : TypeRole}
  (hrole : role ≠ .className)

include hreadable hvoid hnamed hrole

theorem classNames_text : role.classNames descriptor.text = .ok descriptor.classNames := by
  cases role with
  | className => exact absurd rfl hrole
  | descriptor =>
      exact Except.map_eq_ok_iff.2 ⟨_, Descriptor.parse_eq_ok_iff.2 ⟨hreadable, rfl⟩, rfl⟩
  | signature =>
      exact Except.map_eq_ok_iff.2
        ⟨_, Descriptor.pieces_text hvoid hnamed, descriptor.classNames_pieces⟩

/-- A descriptor of names that a signature can hold is rewritten piece by piece, in either role. -/
theorem mapNamesM_text {m : Type → Type} [Monad m] [LawfulMonad m]
    (f : String → m (Option String)) :
    role.mapNamesM descriptor.text f =
      .ok (Rewritten.text? <$> Signature.rewrite f descriptor.pieces) := by
  cases role with
  | className => exact absurd rfl hrole
  | descriptor =>
      refine Except.bind_eq_ok_iff.2 ⟨descriptor, Descriptor.parse_eq_ok_iff.2 ⟨hreadable, rfl⟩, ?_⟩
      rw [← descriptor.rewrite_pieces]
      rfl
  | signature =>
      refine Except.bind_eq_ok_iff.2 ⟨_, Descriptor.pieces_text hvoid hnamed, ?_⟩
      rw [Signature.map_text?_rewrite]
      rfl

end TypeRole

section Agreement

variable {m : Type → Type} [Monad m] [LawfulMonad m]

/-- A text that is accepted as a descriptor is also accepted as a signature, if a signature can hold
the names in it and it is not that of no type. Whatever `f` does when it is asked, it is asked for
the same names in the same order, and the new text in the end is the same. So an entry with such a
text is renamed in the same way and refers to the same classes in either role. -/
theorem mapNamesM_signature_eq (f : String → m (Option String)) {text : String}
    {action : m (Option String)} (haccepted : TypeRole.descriptor.mapNamesM text f = .ok action)
    (hvoid : text ≠ "V")
    (hnames : ∀ name ∈ namesIn text.toList, '<' ∉ name.toList ∧ '.' ∉ name.toList) :
    TypeRole.signature.mapNamesM text f = .ok action ∧
      (∀ role, role ≠ .className → ∃ recording,
        TypeRole.mapNamesM role text (recorded f) = .ok recording ∧
          ∀ asked, recording.run asked = (·, asked ++ namesIn text.toList) <$> action) ∧
      TypeRole.signature.classNames text = TypeRole.descriptor.classNames text ∧
      ∀ (names : Renaming) (literals : Std.ExtTreeSet Index) (pool : Pool) (index : Index),
        pool.text index = .ok text →
          names.renameEntry literals pool index .signature =
            names.renameEntry literals pool index .descriptor := by
  obtain ⟨descriptor, hparse, -⟩ := Except.bind_eq_ok_iff.1 haccepted
  obtain ⟨hreadable, rfl⟩ := Descriptor.parse_eq_ok_iff.1 hparse
  rw [Descriptor.namesIn_text hreadable] at hnames ⊢
  have hkind : descriptor ≠ .void := by
    rintro rfl
    exact hvoid rfl
  have hnamed : ∀ name ∈ descriptor.classNames, Named name := fun name hname =>
    (Descriptor.enclosable_of_mem hreadable hname).named (hnames name hname)
  have hdescriptor : TypeRole.descriptor ≠ .className := by decide
  have hsignature : TypeRole.signature ≠ .className := by decide
  obtain rfl : Rewritten.text? <$> Signature.rewrite f descriptor.pieces = action :=
    Except.ok.inj
      ((TypeRole.mapNamesM_text hreadable hkind hnamed hdescriptor f).symm.trans haccepted)
  refine ⟨TypeRole.mapNamesM_text hreadable hkind hnamed hsignature f, fun role hrole => ?_, ?_,
    fun names literals pool index htext => ?_⟩
  · refine ⟨_, TypeRole.mapNamesM_text hreadable hkind hnamed hrole (recorded f), fun asked => ?_⟩
    rw [StateT.run_map, Signature.run_rewrite_recorded, descriptor.classNames_pieces,
      Functor.map_map, Functor.map_map]
  · rw [TypeRole.classNames_text hreadable hkind hnamed hsignature,
      TypeRole.classNames_text hreadable hkind hnamed hdescriptor]
  · have hmap : names.mapText .signature descriptor.text =
        names.mapText .descriptor descriptor.text :=
      (TypeRole.mapNamesM_text (m := Id) hreadable hkind hnamed hsignature _).trans
        (TypeRole.mapNamesM_text (m := Id) hreadable hkind hnamed hdescriptor _).symm
    rw [Renaming.renameEntry, Renaming.renameEntry, htext]
    change Except.within _ (names.mapText .signature _) >>= _ =
      Except.within _ (names.mapText .descriptor _) >>= _
    rw [hmap]

/-- Renames every second class that it is asked for, and counts how often it is asked. -/
def everySecond (_ : String) : StateM Nat (Option String) := do
  let count ← getModify (· + 1)
  return if count % 2 = 0 then none else some "X"

/-- Of two parameters of one class, a function that counts renames the second one. It does so for a
descriptor and for a signature, and is asked for the class of the result as well. -/
theorem mapNamesM_signature_eq_everySecond :
    ∃ action, TypeRole.descriptor.mapNamesM "(LA;[LA;I)LB;" everySecond = .ok action ∧
      "(LA;[LA;I)LB;" ≠ "V" ∧
      (∀ name ∈ namesIn "(LA;[LA;I)LB;".toList, '<' ∉ name.toList ∧ '.' ∉ name.toList) ∧
      TypeRole.signature.mapNamesM "(LA;[LA;I)LB;" everySecond = .ok action ∧
      action.run 0 = (some "(LA;[LX;I)LB;", 3) ∧
      ∃ recording,
        TypeRole.signature.mapNamesM "(LA;[LA;I)LB;" (recorded everySecond) = .ok recording ∧
          (recording.run []).run 0 = ((some "(LA;[LX;I)LB;", ["A", "A", "B"]), 3) := by
  let descriptor : Descriptor :=
    .method ⟨[⟨0, .object "A"⟩, ⟨1, .object "A"⟩, ⟨0, .base .int⟩], some ⟨0, .object "B"⟩⟩
  have hreadable : descriptor.Readable := by
    simp [descriptor, Descriptor.Readable, MethodType.Readable, FieldType.Readable, Enclosable]
  have htext : descriptor.text = "(LA;[LA;I)LB;" := rfl
  have hnames : namesIn "(LA;[LA;I)LB;".toList = ["A", "A", "B"] :=
    Descriptor.namesIn_text hreadable
  have hheld : ∀ name ∈ namesIn "(LA;[LA;I)LB;".toList, '<' ∉ name.toList ∧ '.' ∉ name.toList := by
    rw [hnames]
    decide
  have haccepted : TypeRole.descriptor.mapNamesM "(LA;[LA;I)LB;" everySecond =
      .ok (Option.map Descriptor.text <$> descriptor.mapNamesM everySecond) :=
    Except.bind_eq_ok_iff.2 ⟨descriptor, Descriptor.parse_eq_ok_iff.2 ⟨hreadable, htext.symm⟩, rfl⟩
  obtain ⟨hsignature, hrecorded, -⟩ :=
    mapNamesM_signature_eq everySecond haccepted (by decide) hheld
  obtain ⟨recording, hrecording, hrun⟩ := hrecorded .signature (by decide)
  have haction : (Option.map Descriptor.text <$> descriptor.mapNamesM everySecond).run 0 =
      (some "(LA;[LX;I)LB;", 3) := rfl
  refine ⟨_, haccepted, by decide, hheld, hsignature, haction, recording, hrecording, ?_⟩
  rw [hrun, hnames, StateT.run_map, haction]
  rfl

end Agreement

end JarTailor
