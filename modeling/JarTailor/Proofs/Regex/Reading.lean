import JarTailor.Glob
import JarTailor.Regex.Meaning
import Mathlib

/-!
# Reading patterns

What single steps of the reader make of characters that mean themselves, of the complement of a
character, of points, anchors and stars.
-/

namespace JarTailor.Regex.Reader

open Glob (metaChars escaped)

theorem run_bind {α β : Type} {reader : Reader α} {next : α → Reader β} {before after : Cursor}
    {result : α} (h : reader before = .ok (result, after)) :
    (reader >>= next) before = next result after := by
  change (reader before >>= fun (result, after) => next result after) = _
  rw [h]
  rfl

variable {c : Char} {tail : List Char} {start : Spot} {progress : Progress}

theorem run_spot {cursor : Cursor} : spot cursor = .ok (cursor.spot, cursor) := rfl

theorem run_next? {cursor : Cursor} : next? cursor = .ok (cursor.rest.head?, cursor) := rfl

theorem run_get {cursor : Cursor} : (get : Reader Cursor) cursor = .ok (cursor, cursor) := rfl

theorem run_take : take ⟨c :: tail, start, false⟩ = .ok ((), ⟨tail, start.after c, false⟩) := rfl

/-! ## Escapes -/

theorem shortEscape_metaChar (h : c ∈ metaChars) (span : Span) :
    shortEscape span c = pure (.literal { span, char := c }) := by
  have hplain : metaChars.all isPlainEscape = true := by decide
  rw [shortEscape, if_pos (List.all_eq_true.1 hplain c h)]

theorem escape_metaChar (h : c ∈ metaChars) : escape ⟨'\\' :: c :: tail, start, false⟩ =
    .ok (.literal { span := ⟨start, (start.after '\\').after c⟩, char := c },
      ⟨tail, (start.after '\\').after c, false⟩) := by
  have hsigns : metaChars.all (fun c => !c.isDigit && !(c = 'x' || c = 'u' || c = 'U') &&
      !(c = 'p' || c = 'P') && c ≠ 'b') = true := by
    decide
  have hsign := List.all_eq_true.1 hsigns c h
  simp only [Bool.and_eq_true, Bool.not_eq_true', decide_eq_true_eq] at hsign
  obtain ⟨⟨⟨hdigit, hnumber⟩, hproperty⟩, hboundary⟩ := hsign
  unfold escape
  rw [run_bind run_spot, run_bind run_take, run_bind run_next?]
  simp only [List.head?_cons, hdigit, hnumber, hproperty, hboundary, shortEscape_metaChar h,
    Bool.false_eq_true, if_false, ne_eq, not_false_eq_true, if_true]
  rfl

/-- An escaped character begins with a backslash or with a character without another meaning. -/
theorem exists_escaped (c : Char) : ∃ first rest, escaped c = first :: rest ∧
    ∀ other ∈ metaChars, other ≠ '\\' → first ≠ other := by
  unfold escaped
  split
  · exact ⟨'\\', [c], rfl, fun _ _ hother => hother.symm⟩
  · next hnot =>
      rw [List.contains_iff_mem] at hnot
      exact ⟨c, [], rfl, fun other hmem _ heq => hnot (heq ▸ hmem)⟩

/-! ## Single steps -/

theorem step_char (h : c ∉ metaChars) : step progress c ⟨c :: tail, start, false⟩ =
    .ok (progress.push (.literal { span := ⟨start, start.after c⟩, char := c }),
      ⟨tail, start.after c, false⟩) := by
  have hsingle : single c ⟨c :: tail, start, false⟩ =
      .ok (.literal { span := ⟨start, start.after c⟩, char := c },
        ⟨tail, start.after c, false⟩) := by
    unfold single
    split
    · exact absurd (by decide) h
    · exact absurd (by decide) h
    · exact absurd (by decide) h
    · rfl
  unfold step
  split
  case h_10 =>
    rw [run_bind hsingle]
    rfl
  all_goals exact absurd (by decide) h

theorem step_escape (h : c ∈ metaChars) : step progress '\\' ⟨'\\' :: c :: tail, start, false⟩ =
    .ok (progress.push (.literal
        { span := ⟨start, (start.after '\\').after c⟩, char := c }),
      ⟨tail, (start.after '\\').after c, false⟩) :=
  run_bind (escape_metaChar h)

theorem step_dot : step progress '.' ⟨'.' :: tail, start, false⟩ =
    .ok (progress.push (.dot ⟨start, start.after '.'⟩), ⟨tail, start.after '.', false⟩) := rfl

theorem step_lineStart : step progress '^' ⟨'^' :: tail, start, false⟩ =
    .ok (progress.push (.assertion ⟨start, start.after '^'⟩ .lineStart),
      ⟨tail, start.after '^', false⟩) := rfl

theorem step_lineEnd : step progress '$' ⟨'$' :: tail, start, false⟩ =
    .ok (progress.push (.assertion ⟨start, start.after '$'⟩ .lineEnd),
      ⟨tail, start.after '$', false⟩) := rfl

/-- A star is about the part before it, if no question mark follows. -/
theorem step_star {body : Pattern} (hbody : body.isRepeatable = true)
    (htail : tail.head? ≠ some '?') :
    step (progress.push body) '*' ⟨'*' :: tail, start, false⟩ =
      .ok (progress.push (.repeated ⟨body.span.start, start.after '*'⟩ body 0 none),
        ⟨tail, start.after '*', false⟩) := by
  have hrepeatable : repeatable (progress.push body) = pure (body, progress) := if_pos hbody
  have hlaziness : passLaziness ⟨tail, start.after '*', false⟩ =
      .ok ((), ⟨tail, start.after '*', false⟩) := by
    rw [passLaziness, run_bind run_next?, if_neg (by simpa using htail)]
    rfl
  change repetition (progress.push body) 0 none _ = _
  rw [repetition, hrepeatable, pure_bind]
  change (take >>= _) _ = _
  rw [run_bind run_take, run_bind hlaziness]
  rfl

/-! ## The complement of a character -/

section Brackets

variable {first : Char} {rest : List Char}

theorem run_stillOpen {opened : Spot} :
    stillOpen opened ⟨first :: rest, start, false⟩ = .ok ((), ⟨first :: rest, start, false⟩) := rfl

theorem leadingItems_of_ne {opened : Spot} (hhyphen : first ≠ '-') (hbracket : first ≠ ']') :
    leadingItems opened ⟨first :: rest, start, false⟩ =
      .ok ([], ⟨first :: rest, start, false⟩) := by
  have hhyphens : hyphens opened (first :: rest) ⟨first :: rest, start, false⟩ =
      .ok ([], ⟨first :: rest, start, false⟩) := by
    rw [hyphens, run_bind run_next?, if_pos (by simpa using hhyphen)]
    rfl
  rw [leadingItems, run_bind run_get, run_bind hhyphens, run_bind run_next?,
    if_neg (by simpa using hbracket)]
  rfl

theorem openClass_negated (start : Spot) (rest : List Char) (hhyphen : first ≠ '-')
    (hbracket : first ≠ ']') :
    openClass ⟨[], start, []⟩ ⟨'[' :: '^' :: first :: rest, start, false⟩ =
      .ok (⟨[.brackets start [] ⟨start, (start.after '[').after '^'⟩ true],
        (start.after '[').after '^', []⟩,
          ⟨first :: rest, (start.after '[').after '^', false⟩) := by
  have hadvance : advance ⟨'[' :: '^' :: first :: rest, start, false⟩ =
    .ok ((), ⟨'^' :: first :: rest, start.after '[', false⟩) := rfl
  have hnegation : negation ⟨'^' :: first :: rest, start.after '[', false⟩ =
    .ok (true, ⟨first :: rest, (start.after '[').after '^', false⟩) := rfl
  rw [openClass, run_bind run_spot, run_bind hadvance, run_bind run_stillOpen, run_bind hnegation,
    run_bind run_stillOpen, run_bind run_spot, run_bind (leadingItems_of_ne hhyphen hbracket)]
  rfl

theorem classOperator?_cons {text : String} {operator : ClassOperator}
    {others : List (String × ClassOperator)} {cursor : Cursor}
    (h : accept text cursor = .ok (false, cursor)) :
    classOperator? ((text, operator) :: others) cursor = classOperator? others cursor := by
  rw [classOperator?, run_bind h]
  rfl

theorem classOperator?_of_ne (start : Spot) (rest : List Char) (hand : first ≠ '&')
    (hhyphen : first ≠ '-') (htilde : first ≠ '~') :
    classOperator? classOperators ⟨first :: rest, start, false⟩ =
      .ok (none, ⟨first :: rest, start, false⟩) := by
  have haccept {text : String} {front : Char} (htext : text.toList = [front, front])
      (hne : first ≠ front) : accept text ⟨first :: rest, start, false⟩ =
        .ok (false, ⟨first :: rest, start, false⟩) := by
    rw [accept, run_bind run_get, if_neg (by simp [htext, List.isPrefixOf, hne.symm])]
    rfl
  rw [classOperators, classOperator?_cons (haccept rfl hand),
    classOperator?_cons (haccept rfl hhyphen), classOperator?_cons (haccept rfl htilde)]
  rfl

end Brackets

theorem classAtom_escaped (start : Spot) (c : Char) (tail : List Char) : ∃ span stop,
    classAtom ⟨escaped c ++ tail, start, false⟩ =
      .ok (.literal { span, char := c }, ⟨tail, stop, false⟩) := by
  unfold escaped
  split
  · next hmeta => exact ⟨_, _, escape_metaChar (List.contains_iff_mem.1 hmeta)⟩
  · next hnot =>
      rw [List.contains_iff_mem] at hnot
      refine ⟨⟨start, start.after c⟩, start.after c, ?_⟩
      -- what decides which arm of the match is taken
      have hslash : c ≠ '\\' := fun heq => hnot (heq ▸ by decide)
      change classAtom ⟨c :: tail, start, false⟩ = _
      rw [classAtom, run_bind run_next?]
      simp only [List.head?_cons]
      rfl

/-- Between brackets an escaped character is read up to the bracket. -/
theorem classItem_escaped (progress : ClassProgress) (start : Spot) (c : Char)
    (tail : List Char) : ∃ span stop, classItem progress ⟨escaped c ++ ']' :: tail, start, false⟩ =
      .ok (.literal { span, char := c }, ⟨']' :: tail, stop, false⟩) := by
  obtain ⟨span, stop, hatom⟩ := classAtom_escaped start c (']' :: tail)
  have hblanks : skipBlanks ⟨']' :: tail, stop, false⟩ = .ok ((), ⟨']' :: tail, stop, false⟩) := rfl
  refine ⟨span, stop, ?_⟩
  rw [classItem, run_bind hatom, run_bind hblanks, run_bind run_get, run_bind run_next?]
  rfl

theorem classRest_item {first bounding : Char} {bound rest : List Char} {progress : ClassProgress}
    {item : ClassTree} {after : Cursor}
    (hfirst : ∀ other ∈ metaChars, other ≠ '\\' → first ≠ other)
    (h : classItem progress ⟨first :: rest, start, false⟩ = .ok (item, after)) :
    classRest (bounding :: bound) progress ⟨first :: rest, start, false⟩ =
      classRest bound (progress.push item) after := by
  have hblanks : skipBlanks ⟨first :: rest, start, false⟩ =
    .ok ((), ⟨first :: rest, start, false⟩) := rfl
  -- what decides which arm of the match is taken
  have hopen : first ≠ '[' := hfirst '[' (by decide) (by decide)
  have hclose : first ≠ ']' := hfirst ']' (by decide) (by decide)
  have hoperator := classOperator?_of_ne start rest
    (hfirst '&' (by decide) (by decide)) (hfirst '-' (by decide) (by decide))
    (hfirst '~' (by decide) (by decide))
  rw [classRest, run_bind hblanks, run_bind run_next?]
  simp only [List.head?_cons]
  rw [run_bind hoperator]
  simp only
  rw [run_bind h]

theorem classRest_close {bounding : Char} {bound : List Char} {outer inner : Spot} {span : Span}
    {negated : Bool} {item : ClassTree} :
    classRest (bounding :: bound) ⟨[.brackets outer [] span negated], inner, [item]⟩
      ⟨']' :: tail, start, false⟩ =
        .ok (.bracketed ⟨span.start, start.after ']'⟩ negated item,
          ⟨tail, start.after ']', false⟩) := rfl

/-- The complement of one character. -/
theorem step_negated (progress : Progress) (start : Spot) (c : Char) (tail : List Char) :
    ∃ outer inner stop, step progress '[' ⟨'[' :: '^' :: (escaped c ++ ']' :: tail), start, false⟩ =
      .ok (progress.push (.bracketed outer true (.literal { span := inner, char := c })),
        ⟨tail, stop, false⟩) := by
  obtain ⟨first, rest, hescaped, hfirst⟩ := exists_escaped c
  obtain ⟨inner, stop, hitem⟩ := classItem_escaped
    ⟨[.brackets start [] ⟨start, (start.after '[').after '^'⟩ true],
      (start.after '[').after '^', []⟩ ((start.after '[').after '^') c tail
  rw [hescaped, List.cons_append] at hitem ⊢
  have hopen := openClass_negated start (rest ++ ']' :: tail)
    (hfirst '-' (by decide) (by decide)) (hfirst ']' (by decide) (by decide))
  refine ⟨⟨start, stop.after ']'⟩, inner, stop.after ']', ?_⟩
  change (bracketed >>= _) _ = _
  have hread : bracketed ⟨'[' :: '^' :: first :: (rest ++ ']' :: tail), start, false⟩ =
      .ok (.bracketed ⟨start, stop.after ']'⟩ true (.literal { span := inner, char := c }),
        ⟨tail, stop.after ']', false⟩) := by
    rw [bracketed, run_bind run_spot, run_bind hopen, run_bind run_get, classRest_item hfirst hitem]
    exact classRest_close
  rw [run_bind hread]
  rfl

/-! ## Rows of steps -/

/-- With enough steps left, reading comes from one state to the other and goes on there. -/
def Leads (progress : Progress) (before : Cursor) (progress' : Progress) (after : Cursor) : Prop :=
  ∀ bound : List Char, before.rest.length ≤ bound.length →
    ∃ bound' : List Char, after.rest.length ≤ bound'.length ∧
      steps bound progress before = steps bound' progress' after

theorem Leads.refl (progress : Progress) (cursor : Cursor) :
    Leads progress cursor progress cursor :=
  fun bound hbound => ⟨bound, hbound, rfl⟩

theorem Leads.trans {first second third : Progress} {before middle after : Cursor}
    (hfirst : Leads first before second middle) (hsecond : Leads second middle third after) :
    Leads first before third after := by
  intro bound hbound
  obtain ⟨bound, hbound, hsteps⟩ := hfirst bound hbound
  obtain ⟨bound', hbound', hsteps'⟩ := hsecond bound hbound
  exact ⟨bound', hbound', hsteps.trans hsteps'⟩

theorem leads_step {rest : List Char} {progress' : Progress} {after : Cursor}
    (h : step progress c ⟨c :: rest, start, false⟩ = .ok (progress', after))
    (hlength : after.rest.length ≤ rest.length) :
    Leads progress ⟨c :: rest, start, false⟩ progress' after := by
  intro bound hbound
  obtain ⟨first, bound, rfl⟩ : ∃ first rest, bound = first :: rest :=
    List.exists_cons_of_length_pos (Nat.lt_of_lt_of_le (Nat.succ_pos _) hbound)
  exact ⟨bound, hlength.trans (Nat.le_of_succ_le_succ hbound), run_bind h⟩

theorem whole_of_leads {text : List Char} {stop : Spot}
    (h : Leads ⟨.startAt .first, [], []⟩ ⟨text, .first, false⟩ progress ⟨[], stop, false⟩)
    (hgroups : progress.groups = []) :
    whole text ⟨text, .first, false⟩ = .ok (progress.level.close stop, ⟨[], stop, false⟩) := by
  obtain ⟨bound, -, hsteps⟩ := h text le_rfl
  have hend : steps bound progress ⟨[], stop, false⟩ = .ok (progress, ⟨[], stop, false⟩) := by
    cases bound <;> rfl
  have hblanks : skipBlanks ⟨[], stop, false⟩ = .ok ((), ⟨[], stop, false⟩) := rfl
  rw [whole, run_bind run_spot, run_bind (hsteps.trans hend), run_bind hblanks, hgroups]
  rfl

end JarTailor.Regex.Reader
