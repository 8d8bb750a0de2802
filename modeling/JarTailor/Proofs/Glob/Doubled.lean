import JarTailor.Proofs.Glob.Spelled

/-!
# Two stars in the place of one

Two stars put in the place of a star that stands alone leave the other tokens as they are. So both
globs cut a name in the same way around the star, and differ in the piece that it stands for: one
star takes everything but the separator, two stars take everything but a newline. Hence two stars
match whatever one star matches, as long as the piece has no newline in it.
-/

namespace JarTailor.Glob

theorem tokens_append {front : List Char} (back : List Char) (h : front.getLast? ≠ some '*') :
    tokens (front ++ back) = tokens front ++ tokens back := by
  fun_induction tokens front with
  | case1 => rfl
  | case2 rest ih =>
      have hrest : rest.getLast? ≠ some '*' := by
        cases rest with
        | nil => exact absurd rfl h
        | cons c rest => simpa using h
      exact congrArg (.anyRun :: ·) (ih hrest)
  | case3 rest hnext ih =>
      -- the star is not the last character, and what comes after it keeps it alone
      cases rest with
      | nil => exact absurd rfl h
      | cons c rest =>
          have hc : ∀ others, c :: (rest ++ back) = '*' :: others → False := by
            rintro others ⟨⟩
            exact hnext rest rfl
          have hrest : (c :: rest).getLast? ≠ some '*' := by simpa using h
          rw [List.cons_append, List.cons_append, tokens]
          · exact congrArg (.segmentRun :: ·) (ih hrest)
          · exact hc
  | case4 c rest hdouble hsingle ih =>
      have hc : c ≠ '*' := by
        rintro rfl
        exact hsingle rfl
      have hrest : rest.getLast? ≠ some '*' := by
        cases rest with
        | nil => simp
        | cons d rest => simpa using h
      rw [List.cons_append, tokens]
      · exact congrArg (.literal c :: ·) (ih hrest)
      · rintro others rfl
        exact absurd rfl hc
      · exact hc

theorem spells_append_iff {separator : Char} {front back : List Token} {name : List Char} :
    Spells separator (front ++ back) name ↔ ∃ first rest,
      Spells separator front first ∧ Spells separator back rest ∧ name = first ++ rest := by
  induction front generalizing name with
  | nil => simp [spells_nil_iff]
  | cons token front ih =>
      simp only [List.cons_append, spells_cons_iff, ih]
      constructor
      · rintro ⟨piece, _, hpiece, ⟨first, rest, hfirst, hrest, rfl⟩, rfl⟩
        exact ⟨piece ++ first, rest, ⟨piece, first, hpiece, hfirst, rfl⟩, hrest,
          (List.append_assoc ..).symm⟩
      · rintro ⟨_, rest, ⟨piece, first, hpiece, hfirst, rfl⟩, hrest, rfl⟩
        exact ⟨piece, first ++ rest, hpiece, ⟨first, rest, hfirst, hrest, rfl⟩,
          List.append_assoc ..⟩

/-- A star of the pattern that has no star next to it. -/
structure LoneStar (glob : Glob) where
  front : List Char
  back : List Char
  spelled : glob.pattern.toList = front ++ '*' :: back
  front_ne : front.getLast? ≠ some '*'
  back_ne : back.head? ≠ some '*'

namespace LoneStar

variable {glob : Glob} (star : glob.LoneStar)

/-- The glob with two stars in the place of the star. -/
def doubled : Glob where
  pattern := String.ofList (star.front ++ '*' :: '*' :: star.back)
  separator := glob.separator

/-- The piece may fall to the star: what comes before and after it in the name is spelt by what
comes before and after the star. -/
def Covers (name : String) (piece : List Char) : Prop :=
  ∃ first rest, Spells glob.separator (tokens star.front) first ∧
    Spells glob.separator (tokens star.back) rest ∧ name.toList = first ++ (piece ++ rest)

theorem tokensOf_eq : glob.tokensOf = tokens star.front ++ .segmentRun :: tokens star.back := by
  have hstar : tokens ('*' :: star.back) = .segmentRun :: tokens star.back := by
    rw [tokens]
    intro rest hrest
    exact star.back_ne (by rw [hrest]; rfl)
  rw [tokensOf, star.spelled, tokens_append _ star.front_ne, hstar]

theorem tokensOf_doubled :
    star.doubled.tokensOf = tokens star.front ++ .anyRun :: tokens star.back := by
  rw [tokensOf, doubled, String.toList_ofList, tokens_append _ star.front_ne, tokens]

/-- Between two rows of tokens, a token stands for what may fall to the star. -/
theorem spells_between_iff {token : Token} {name : String} :
    Spells glob.separator (tokens star.front ++ token :: tokens star.back) name.toList ↔
      ∃ piece, star.Covers name piece ∧ token.StandsFor glob.separator piece := by
  simp only [spells_append_iff, spells_cons_iff]
  constructor
  · rintro ⟨first, _, hfirst, ⟨piece, rest, hpiece, hrest, rfl⟩, hname⟩
    exact ⟨piece, ⟨first, rest, hfirst, hrest, hname⟩, hpiece⟩
  · rintro ⟨piece, ⟨first, rest, hfirst, hrest, hname⟩, hpiece⟩
    exact ⟨first, _, hfirst, ⟨piece, rest, hpiece, hrest, rfl⟩, hname⟩

theorem Covers.subset {star : glob.LoneStar} {name : String} {piece : List Char}
    (h : star.Covers name piece) : piece ⊆ name.toList := by
  obtain ⟨first, rest, -, -, hname⟩ := h
  rw [hname]
  exact fun c hc => List.mem_append_right _ (List.mem_append_left _ hc)

/-- One star matches where a piece without the separator may fall to it, two stars where a piece
without a newline may. So two stars match every name without a newline that one star matches. -/
theorem isMatch_doubled (name : String) :
    (glob.isMatch name = true ↔ ∃ piece, star.Covers name piece ∧ glob.separator ∉ piece) ∧
      (star.doubled.isMatch name = true ↔ ∃ piece, star.Covers name piece ∧ '\n' ∉ piece) ∧
      ('\n' ∉ name.toList → glob.isMatch name = true → star.doubled.isMatch name = true) := by
  have hone : glob.isMatch name = true ↔
      ∃ piece, star.Covers name piece ∧ glob.separator ∉ piece := by
    rw [isMatch_iff, star.tokensOf_eq]
    exact star.spells_between_iff
  have htwo : star.doubled.isMatch name = true ↔
      ∃ piece, star.Covers name piece ∧ '\n' ∉ piece := by
    rw [isMatch_iff, star.tokensOf_doubled]
    exact star.spells_between_iff
  refine ⟨hone, htwo, fun hname hmatch => ?_⟩
  obtain ⟨piece, hcovers, -⟩ := hone.1 hmatch
  exact htwo.2 ⟨piece, hcovers, fun hmem => hname (hcovers.subset hmem)⟩

/-- The classes of a package whose names end in `s`. -/
def ofPlurals : (ofClass "a.*s").LoneStar where
  front := ['a', '.']
  back := ['s']
  spelled := by decide
  front_ne := by decide
  back_ne := by decide

theorem isMatch_doubled_ofPlurals :
    '\n' ∉ "a.Items".toList ∧ (ofClass "a.*s").isMatch "a.Items" = true ∧
      ofPlurals.doubled.isMatch "a.Items" = true := by
  have hname : '\n' ∉ "a.Items".toList := by decide
  have hmatch : (ofClass "a.*s").isMatch "a.Items" = true := by decide
  exact ⟨hname, hmatch, (ofPlurals.isMatch_doubled "a.Items").2.2 hname hmatch⟩

/-- A newline in the name falls to one star, but not to two. -/
theorem not_isMatch_doubled_ofPlurals :
    (ofClass "a.*s").isMatch "a.B\nCs" = true ∧ ofPlurals.doubled.isMatch "a.B\nCs" = false := by
  decide

end LoneStar

end JarTailor.Glob
