import JarTailor.Proofs.Signature.Recognized
import JarTailor.TypeUse.Role

/-!
# Renaming as substitution

Rewriting a signature puts a new name in the place of each class that is not nested in another, and
keeps every other character. What comes out is a signature of the same shape, so that rewriting it
once more comes to rewriting the first one with both changes, one after the other.
-/

namespace JarTailor.Signature

/-- All new names are names that a signature can hold. -/
def GivesNamed (f : String → Option String) : Prop :=
  ∀ name renamed, f name = some renamed → Named renamed

/-- The name itself where `f` has no other. -/
def orSame (f : String → Option String) (name : String) : String :=
  (f name).getD name

/-- One change after another. -/
def after (g f : String → Option String) (name : String) : Option String :=
  (g (orSame f name)).or (f name)

theorem orSame_after (g f : String → Option String) : orSame (after g f) = orSame g ∘ orSame f := by
  funext name
  show ((g (orSame f name)).or (f name)).getD name = (g (orSame f name)).getD (orSame f name)
  cases g (orSame f name) <;> rfl

theorem GivesNamed.keepsNamed {f : String → Option String} (hf : GivesNamed f) :
    KeepsNamed (orSame f) := by
  intro name hname
  rw [orSame]
  cases hrenamed : f name with
  | none => exact hname
  | some renamed => exact hf name renamed hrenamed

/-- Nothing changes exactly when all classes that are not nested keep their names. -/
theorem mapNamesM_eq_none_iff {f : String → Option String} {pieces : List Piece} :
    (mapNamesM (m := Id) f pieces : Option (List Piece)) = none ↔
      ∀ name ∈ leadingNames pieces, f name = none := by
  have hone : ∀ piece, (mapNamesM.one (m := Id) f piece : Option Piece).isSome = false ↔
      ∀ name ∈ piece.leading?, f name = none := by
    intro piece
    cases piece with
    | text chars => exact iff_of_true rfl (by simp [Piece.leading?])
    | nested segment joined => exact iff_of_true rfl (by simp [Piece.leading?])
    | outer name =>
        show (Option.map Piece.outer (f name)).isSome = false ↔ _
        simp [Piece.leading?]
  have hany : (pieces.map fun piece => (mapNamesM.one (m := Id) f piece : Option Piece)).any
      Option.isSome = false ↔ ∀ name ∈ leadingNames pieces, f name = none := by
    simp only [List.any_map, List.any_eq_false, Function.comp_apply, Bool.not_eq_true, hone,
      leadingNames, List.mem_filterMap]
    constructor
    · rintro h name ⟨piece, hpiece, hname⟩
      exact h piece hpiece name hname
    · intro h piece hpiece name hname
      exact h name ⟨piece, hpiece, hname⟩
  rw [mapNamesM_id, ← hany]
  simp

theorem mapNames_eq {text : String} {found : List Piece} (h : pieces text = .ok found)
    (f : String → Option String) :
    TypeRole.signature.mapNames text f =
      .ok (Option.map spell (mapNamesM (m := Id) f found)) :=
  Except.bind_eq_ok_iff.2 ⟨found, h, rfl⟩

/-- What a signature becomes is spelled by its pieces with their new names. -/
theorem getD_mapNames {text : String} {found : List Piece} (h : pieces text = .ok found)
    {f : String → Option String} {result : Option String}
    (hresult : TypeRole.signature.mapNames text f = .ok result) :
    result.getD text = spell (found.map (Piece.rename (orSame f))) := by
  obtain rfl := Except.ok.inj ((mapNames_eq h f).symm.trans hresult)
  have hspell := getD_mapNamesM (g := f) found
  rwa [spell_pieces h] at hspell

theorem chars_rename_of_becomes {f g : String → String} {piece piece' : Piece}
    (h : Piece.Becomes f piece piece') :
    (piece'.rename g).chars = (piece.rename (g ∘ f)).chars := by
  cases h with
  | nested segment h => rfl
  | renamed => cases piece <;> rfl

/-- The pieces that a renamed signature is cut into spell the same under a second renaming. -/
theorem spell_rename_of_becomes {f g : String → String} {pieces pieces' : List Piece}
    (h : List.Forall₂ (Piece.Becomes f) pieces pieces') :
    spell (pieces'.map (Piece.rename g)) = spell (pieces.map (Piece.rename (g ∘ f))) := by
  apply congrArg String.ofList
  induction h with
  | nil => rfl
  | cons hpiece _ ih =>
      rw [List.map_cons, List.map_cons, List.flatMap_cons, List.flatMap_cons, ih,
        chars_rename_of_becomes hpiece]

/-- A signature is rewritten as a syntax tree is: each class that is not nested has its new name,
and everything else stays. What comes out can be rewritten again, which is the same as making both
changes at once. -/
theorem mapNames_signature_substitutes {f other : String → Option String} (hf : GivesNamed f)
    {text : String} {accepted : Option String}
    (h : TypeRole.signature.mapNames text other = .ok accepted) (g : String → Option String) :
    (∃ sentence : Sentence, sentence.text = text) ∧
      ∀ sentence : Sentence, sentence.text = text →
        ∃ result, TypeRole.signature.mapNames text f = .ok result ∧
          (result = none ↔ ∀ name ∈ sentence.leading, f name = none) ∧
          (∀ renamed, result = some renamed → renamed = sentence.rename (orSame f)) ∧
          ∃ again once, TypeRole.signature.mapNames (result.getD text) g = .ok again ∧
            TypeRole.signature.mapNames text (after g f) = .ok once ∧
              again.getD (result.getD text) = once.getD text := by
  obtain ⟨found, hfound, -⟩ := Except.bind_eq_ok_iff.1 h
  obtain ⟨written, hwritten, -⟩ := pieces_eq_ok_iff.1 hfound
  refine ⟨⟨written, hwritten⟩, fun sentence hsentence => ?_⟩
  have hpieces : pieces text = .ok sentence.pieces :=
    pieces_eq_ok_iff.2 ⟨sentence, hsentence, rfl⟩
  have hresult := mapNames_eq hpieces f
  have htext := getD_mapNames hpieces hresult
  obtain ⟨found', hbecomes, hpieces'⟩ := pieces_becomes hf.keepsNamed hpieces
  rw [← htext] at hpieces'
  have hagain := mapNames_eq hpieces' g
  have honce := mapNames_eq hpieces (after g f)
  refine ⟨_, hresult, ?_, ?_, _, _, hagain, honce, ?_⟩
  · rw [Option.map_eq_none_iff, mapNamesM_eq_none_iff, sentence.leadingNames_pieces]
  · intro renamed hrenamed
    rw [hrenamed, Option.getD_some, sentence.spell_rename] at htext
    exact htext
  · rw [getD_mapNames hpieces' hagain, getD_mapNames hpieces honce, orSame_after]
    exact spell_rename_of_becomes hbecomes

def outerName : ClassName := ⟨"A", by decide, List.all_eq_true.1 rfl⟩

def segmentName : ClassName := ⟨"B", by decide, List.all_eq_true.1 rfl⟩

/-- The nested class `B` of a class `A` with a type variable for an argument. -/
def nestedSentence : Sentence where
  parameters := []
  precede := .nil
  body := .plain (.ofReference (.object outerName (.apply
    (.argument (.typeVariable ⟨['X'], by decide, by decide⟩) .last)
    (.inner segmentName .close)))) []

def renameOuter (name : String) : Option String :=
  if name = "A" then some "D/C" else none

theorem mapNames_signature_substitutes_nested :
    GivesNamed renameOuter ∧
      TypeRole.signature.mapNames "LA<TX;>.B;" renameOuter = .ok (some "LD/C<TX;>.B;") := by
  have hnamed : GivesNamed renameOuter := by
    intro name renamed h
    have hrenamed : renamed = "D/C" := by
      unfold renameOuter at h
      split at h
      · exact (Option.some.inj h).symm
      · cases h
    rw [hrenamed]
    exact ⟨by decide, List.all_eq_true.1 rfl⟩
  have htext : nestedSentence.text = "LA<TX;>.B;" := by decide
  have haccepted := mapNames_eq (pieces_eq_ok_iff.2 ⟨nestedSentence, htext, rfl⟩) renameOuter
  obtain ⟨-, hsentence⟩ := mapNames_signature_substitutes hnamed haccepted renameOuter
  obtain ⟨result, hresult, hnone, hsome, -⟩ := hsentence nestedSentence htext
  refine ⟨hnamed, ?_⟩
  cases result with
  | none => exact absurd (hnone.1 rfl "A" (by decide)) (by decide)
  | some renamed =>
      rw [hresult, hsome renamed rfl]
      decide

end JarTailor.Signature
