import JarTailor.Glob
import Mathlib

/-!
# Which names a glob matches

A name matches if it is a row of pieces, one for each token. The table that matching fills tells
this of every end of the name.
-/

namespace JarTailor.Glob

/-- The pieces that a token stands for. -/
def Token.StandsFor (separator : Char) : Token → List Char → Prop
  | .literal c, piece => piece = [c]
  | .segmentRun, piece => separator ∉ piece
  | .anyRun, piece => '\n' ∉ piece

/-- The name is a row of pieces, one for each token. -/
def Spells (separator : Char) (tokens : List Token) (name : List Char) : Prop :=
  ∃ pieces, List.Forall₂ (Token.StandsFor separator) tokens pieces ∧ name = pieces.flatten

variable {separator : Char} {token : Token} {tokens : List Token} {name : List Char}

theorem spells_nil_iff : Spells separator [] name ↔ name = [] := by
  simp [Spells]

theorem spells_cons_iff : Spells separator (token :: tokens) name ↔
    ∃ piece rest, token.StandsFor separator piece ∧ Spells separator tokens rest ∧
      name = piece ++ rest := by
  constructor
  · rintro ⟨_, hpieces, rfl⟩
    obtain ⟨piece, pieces, hpiece, hrest, rfl⟩ := List.forall₂_cons_left_iff.1 hpieces
    exact ⟨piece, pieces.flatten, hpiece, ⟨pieces, hrest, rfl⟩, rfl⟩
  · rintro ⟨piece, _, hpiece, ⟨pieces, hrest, rfl⟩, rfl⟩
    exact ⟨piece :: pieces, .cons hpiece hrest, rfl⟩

theorem spells_literal_iff {c : Char} : Spells separator (.literal c :: tokens) name ↔
    ∃ rest, name = c :: rest ∧ Spells separator tokens rest := by
  rw [spells_cons_iff]
  constructor
  · rintro ⟨_, rest, rfl, hrest, rfl⟩
    exact ⟨rest, rfl, hrest⟩
  · rintro ⟨rest, rfl, hrest⟩
    exact ⟨[c], rest, rfl, hrest, rfl⟩

/-- The token stands for runs of characters. -/
def Token.IsRun (token : Token) : Prop :=
  ∀ c, token ≠ .literal c

theorem Token.isRun_segmentRun : Token.segmentRun.IsRun := fun _ h => nomatch h

theorem Token.isRun_anyRun : Token.anyRun.IsRun := fun _ h => nomatch h

theorem Token.standsFor_iff (hrun : token.IsRun) {piece : List Char} :
    token.StandsFor separator piece ↔ ∀ c ∈ piece, token.takes separator c = true := by
  cases token with
  | literal c => exact absurd rfl (hrun c)
  | segmentRun =>
      simp only [takes, ne_eq, decide_eq_true_eq]
      exact ⟨fun hpiece c hmem hc => hpiece (hc ▸ hmem), fun hall hmem => hall _ hmem rfl⟩
  | anyRun =>
      simp only [takes, ne_eq, decide_eq_true_eq]
      exact ⟨fun hpiece c hmem hc => hpiece (hc ▸ hmem), fun hall hmem => hall _ hmem rfl⟩

/-- A run ends where it stands, or it takes a character and goes on. -/
theorem spells_run_iff (hrun : token.IsRun) : Spells separator (token :: tokens) name ↔
    Spells separator tokens name ∨ ∃ c rest, name = c :: rest ∧
      token.takes separator c = true ∧ Spells separator (token :: tokens) rest := by
  simp only [spells_cons_iff, Token.standsFor_iff hrun]
  constructor
  · rintro ⟨_ | ⟨c, piece⟩, rest, hpiece, hrest, rfl⟩
    · exact Or.inl hrest
    · obtain ⟨hc, hpiece⟩ := List.forall_mem_cons.1 hpiece
      exact Or.inr ⟨c, piece ++ rest, rfl, hc, piece, rest, hpiece, hrest, rfl⟩
  · rintro (hname | ⟨c, _, rfl, hc, piece, rest, hpiece, hrest, rfl⟩)
    · exact ⟨[], name, List.forall_mem_nil _, hname, rfl⟩
    · exact ⟨c :: piece, rest, List.forall_mem_cons.2 ⟨hc, hpiece⟩, hrest, rfl⟩

/-! ## The table -/

/-- The marks tell which ends of the name the tokens spell. -/
def Tells (separator : Char) (tokens : List Token) (name : List Char) (marks : List Bool) : Prop :=
  List.Forall₂ (fun rest mark => mark = true ↔ Spells separator tokens rest) name.tails marks

theorem tells_nil_iff {marks : List Bool} : Tells separator tokens [] marks ↔
    ∃ mark, (mark = true ↔ Spells separator tokens []) ∧ marks = [mark] := by
  simp [Tells, List.forall₂_cons_left_iff]

theorem tells_cons_iff {c : Char} {marks : List Bool} : Tells separator tokens (c :: name) marks ↔
    ∃ mark later, (mark = true ↔ Spells separator tokens (c :: name)) ∧
      Tells separator tokens name later ∧ marks = mark :: later := by
  simp only [Tells, List.tails_cons, List.forall₂_cons_left_iff]

theorem Tells.head {marks : List Bool} (h : Tells separator tokens name marks) :
    marks.headD false = true ↔ Spells separator tokens name := by
  cases name with
  | nil =>
      obtain ⟨mark, hmark, rfl⟩ := tells_nil_iff.1 h
      exact hmark
  | cons c name =>
      obtain ⟨mark, later, hmark, -, rfl⟩ := tells_cons_iff.1 h
      exact hmark

/-- Behind the last token only the empty end is spelt. -/
theorem tells_nothing : Tells separator [] name (List.replicate name.length false ++ [true]) := by
  induction name with
  | nil => exact tells_nil_iff.2 ⟨true, by simp [spells_nil_iff], rfl⟩
  | cons c name ih => exact tells_cons_iff.2 ⟨false, _, by simp [spells_nil_iff], ih, rfl⟩

theorem Token.extend_nil_of_isRun (hrun : token.IsRun) {mark : Bool} :
    token.extend separator [] [mark] = [mark] := by
  cases token with
  | literal c => exact absurd rfl (hrun c)
  | segmentRun => rfl
  | anyRun => rfl

theorem Token.extend_cons_of_isRun (hrun : token.IsRun) {c : Char} {mark : Bool}
    {marks : List Bool} : token.extend separator (c :: name) (mark :: marks) =
      (mark || (token.takes separator c && (token.extend separator name marks).headD false)) ::
        token.extend separator name marks := by
  cases token with
  | literal c => exact absurd rfl (hrun c)
  | segmentRun => rfl
  | anyRun => rfl

theorem Tells.extend_run (hrun : token.IsRun) {marks : List Bool}
    (h : Tells separator tokens name marks) :
    Tells separator (token :: tokens) name (token.extend separator name marks) := by
  induction name generalizing marks with
  | nil =>
      obtain ⟨mark, hmark, rfl⟩ := tells_nil_iff.1 h
      rw [Token.extend_nil_of_isRun hrun]
      refine tells_nil_iff.2 ⟨mark, ?_, rfl⟩
      rw [spells_run_iff hrun, hmark]
      simp
  | cons c name ih =>
      obtain ⟨mark, later, hmark, hlater, rfl⟩ := tells_cons_iff.1 h
      rw [Token.extend_cons_of_isRun hrun]
      refine tells_cons_iff.2 ⟨_, _, ?_, ih hlater, rfl⟩
      rw [spells_run_iff hrun, Bool.or_eq_true, Bool.and_eq_true, hmark, (ih hlater).head]
      simp

theorem Tells.extend_literal {wanted : Char} {marks : List Bool}
    (h : Tells separator tokens name marks) : Tells separator (.literal wanted :: tokens) name
      ((Token.literal wanted).extend separator name marks) := by
  induction name generalizing marks with
  | nil =>
      obtain ⟨mark, -, rfl⟩ := tells_nil_iff.1 h
      exact tells_nil_iff.2 ⟨false, by simp [spells_literal_iff], rfl⟩
  | cons c name ih =>
      obtain ⟨mark, later, -, hlater, rfl⟩ := tells_cons_iff.1 h
      refine tells_cons_iff.2 ⟨_, _, ?_, ih hlater, rfl⟩
      rw [spells_literal_iff, Bool.and_eq_true, beq_iff_eq, hlater.head]
      simp

theorem Tells.extend {marks : List Bool} (h : Tells separator tokens name marks) :
    Tells separator (token :: tokens) name (token.extend separator name marks) := by
  cases token with
  | literal c => exact h.extend_literal
  | segmentRun => exact h.extend_run Token.isRun_segmentRun
  | anyRun => exact h.extend_run Token.isRun_anyRun

theorem tells_table : Tells separator tokens name (table separator name tokens) := by
  induction tokens with
  | nil => exact tells_nothing
  | cons token tokens ih => exact ih.extend

theorem isMatch_iff (glob : Glob) (name : String) :
    glob.isMatch name = true ↔ Spells glob.separator glob.tokensOf name.toList :=
  tells_table.head

end JarTailor.Glob
