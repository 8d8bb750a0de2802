import JarTailor.Proofs.Glob.Spelled
import JarTailor.Proofs.Regex.Matches
import JarTailor.Proofs.Regex.Reading
import JarTailor.Proofs.Success
import Mathlib

/-!
# Globs as regular expressions

The regular expression that is written for a glob is read without a fault, token by token, and is
found in exactly the names that the tokens spell.
-/

namespace JarTailor.Glob

open Regex (CharSet Pattern Span Spot)
open Regex.Reader

/-- What is written for a token. -/
def Token.expression (separator : Char) : Token → List Char
  | .literal c => escaped c
  | .segmentRun => ['[', '^'] ++ escaped separator ++ [']', '*']
  | .anyRun => ['.', '*']

theorem expressionOf_eq (separator : Char) (pattern : List Char) :
    expressionOf separator pattern = (tokens pattern).flatMap (Token.expression separator) := by
  induction pattern using tokens.induct with
  | case1 => rfl
  | case2 rest ih => rw [expressionOf, tokens, List.flatMap_cons, ih, Token.expression]
  | case3 rest hrest ih =>
      rw [expressionOf, tokens, List.flatMap_cons, ih, Token.expression]
      · exact hrest
      · exact hrest
  | case4 c rest hpair hstar ih =>
      rw [expressionOf, tokens, List.flatMap_cons, ih, Token.expression]
      · exact hpair
      · exact hstar
      · exact hpair
      · exact hstar

example : (Glob.ofClass "a.***").expression = "^a\\..*[^\\.]*$" := by cbv

/-- The part of a pattern that a token is read as, wherever it stands. -/
inductive Token.ReadAs (separator : Char) : Token → Pattern → Prop
  | literal (c : Char) (span : Span) :
      ReadAs separator (.literal c) (.literal { span, char := c })
  | segmentRun (whole brackets inner : Span) :
      ReadAs separator .segmentRun (.repeated whole
        (.bracketed brackets true (.literal { span := inner, char := separator })) 0 none)
  | anyRun (whole inner : Span) : ReadAs separator .anyRun (.repeated whole (.dot inner) 0 none)

variable {separator : Char}

/-- After no token a question mark follows, which would be read as a part of a star. -/
theorem head?_expressions {tail : List Char} (htail : tail.head? ≠ some '?')
    (tokens : List Token) :
    (tokens.flatMap (Token.expression separator) ++ tail).head? ≠ some '?' := by
  cases tokens with
  | nil => exact htail
  | cons token tokens =>
      rw [List.flatMap_cons, List.append_assoc]
      cases token with
      | literal c =>
          obtain ⟨first, rest, hescaped, hfirst⟩ := exists_escaped c
          rw [Token.expression, hescaped]
          exact fun heq => hfirst '?' (by decide) (by decide) (Option.some.inj heq)
      | segmentRun => exact fun heq => absurd (Option.some.inj heq) (by decide)
      | anyRun => exact fun heq => absurd (Option.some.inj heq) (by decide)

theorem leads_token (separator : Char) (start : Spot) (progress : Progress) {tail : List Char}
    (htail : tail.head? ≠ some '?') (token : Token) : ∃ item stop, token.ReadAs separator item ∧
      Leads progress ⟨token.expression separator ++ tail, start, false⟩
        (progress.push item) ⟨tail, stop, false⟩ := by
  cases token with
  | literal c =>
      rw [Token.expression]
      by_cases hmeta : c ∈ metaChars
      · rw [escaped, if_pos (List.contains_iff_mem.2 hmeta)]
        exact ⟨_, _, .literal c _, leads_step (step_escape hmeta) (Nat.le_succ _)⟩
      · rw [escaped, if_neg fun h => hmeta (List.contains_iff_mem.1 h)]
        exact ⟨_, _, .literal c _, leads_step (step_char hmeta) le_rfl⟩
  | segmentRun =>
      have hexpression : Token.segmentRun.expression separator ++ tail =
          '[' :: '^' :: (escaped separator ++ ']' :: '*' :: tail) := by
        simp [Token.expression]
      have hlength : ('*' :: tail).length ≤
          ('^' :: (escaped separator ++ ']' :: '*' :: tail)).length := by
        simp only [List.length_cons, List.length_append]
        omega
      obtain ⟨brackets, inner, stop, hstep⟩ := step_negated progress start separator ('*' :: tail)
      rw [hexpression]
      exact ⟨_, _, .segmentRun _ brackets inner,
        (leads_step hstep hlength).trans (leads_step (step_star rfl htail) le_rfl)⟩
  | anyRun =>
      exact ⟨_, _, .anyRun _ _, (leads_step step_dot le_rfl).trans
        (leads_step (step_star rfl htail) le_rfl)⟩

theorem leads_tokens (separator : Char) (start : Spot) (progress : Progress) {tail : List Char}
    (htail : tail.head? ≠ some '?') (tokens : List Token) :
    ∃ items stop, List.Forall₂ (Token.ReadAs separator) tokens items ∧
      Leads progress ⟨tokens.flatMap (Token.expression separator) ++ tail, start, false⟩
        (items.foldl Progress.push progress) ⟨tail, stop, false⟩ := by
  induction tokens generalizing start progress with
  | nil => exact ⟨[], start, .nil, Leads.refl _ _⟩
  | cons token tokens ih =>
      obtain ⟨item, middle, hitem, hfirst⟩ := leads_token separator start progress
        (head?_expressions htail tokens) token
      obtain ⟨items, stop, hitems, hrest⟩ := ih middle (progress.push item)
      rw [List.flatMap_cons, List.append_assoc]
      exact ⟨item :: items, stop, .cons hitem hitems, hfirst.trans hrest⟩

theorem foldl_push (items : List Pattern) (progress : Progress) :
    items.foldl Progress.push progress = { progress with
      level := { progress.level with items := items.reverse ++ progress.level.items } } := by
  induction items generalizing progress with
  | nil => rfl
  | cons item items ih =>
      rw [List.foldl_cons, ih]
      simp [Progress.push, Level.push]

theorem checkDepth_item {token : Token} {item : Pattern} (h : token.ReadAs separator item) :
    item.checkDepth 1 = .ok () := by
  cases h <;> rfl

theorem checkDepths_items {tokens : List Token} {items : List Pattern}
    (h : List.Forall₂ (Token.ReadAs separator) tokens items) (last : Span) :
    Pattern.checkDepths 1 (items ++ [.assertion last .lineEnd]) = .ok () := by
  induction h with
  | nil => rfl
  | cons hitem _ ih =>
      rw [List.cons_append, Pattern.checkDepths, checkDepth_item hitem]
      exact ih

theorem close_items (items : List Pattern) (first last : Pattern) (start stop : Spot) :
    ((items.foldl Progress.push (Progress.push ⟨.startAt start, [], []⟩ first)).push
      last).level.close stop = .concat ⟨start, stop⟩ (first :: (items ++ [last])) := by
  rw [foldl_push]
  change Pattern.ofItems ⟨start, stop⟩ (last :: (items.reverse ++ [first])).reverse = _
  rw [List.reverse_cons, List.reverse_append, List.reverse_reverse]
  cases items with
  | nil => rfl
  | cons item items => rfl

theorem patternOfText_expression (glob : Glob) : ∃ whole first last items,
    List.Forall₂ (Token.ReadAs glob.separator) glob.tokensOf items ∧
      Pattern.ofText glob.expression = .ok (.concat whole
        (.assertion first .lineStart :: (items ++ [.assertion last .lineEnd]))) := by
  have htext : glob.expression.toList = '^' ::
      (glob.tokensOf.flatMap (Token.expression glob.separator) ++ ['$']) := by
    rw [expression, String.toList_ofList, expressionOf_eq, tokensOf]
  have hend : ['$'].head? ≠ some '?' := by decide
  obtain ⟨items, stop, hitems, hleads⟩ := leads_tokens glob.separator (Spot.first.after '^')
    (Progress.push ⟨.startAt .first, [], []⟩
      (.assertion ⟨.first, Spot.first.after '^'⟩ .lineStart)) hend glob.tokensOf
  have hwhole := whole_of_leads ((leads_step step_lineStart le_rfl).trans
    (hleads.trans (leads_step step_lineEnd le_rfl))) (by rw [foldl_push]; rfl)
  rw [close_items, ← htext] at hwhole
  exact ⟨_, _, ⟨stop, stop.after '$'⟩, items, hitems, Except.bind_eq_ok_iff.2 ⟨_, hwhole,
    Except.bind_eq_ok_iff.2 ⟨(), checkDepths_items hitems ⟨stop, stop.after '$'⟩, rfl⟩⟩⟩

/-! ## The meaning of the expression -/

/-- The expression that a token means. -/
def Token.regex (separator : Char) : Token → Regex
  | .literal c => .chars (.single c)
  | .segmentRun => .repeated (.chars (.complement (.single separator))) 0 none
  | .anyRun => .repeated (.chars (.complement (.single '\n'))) 0 none

/-- The expressions of the tokens in a row, up to the end of the text. -/
def rowOf (separator : Char) (tokens : List Token) : Regex :=
  tokens.foldr (fun token rest => .concat (token.regex separator) rest)
    (.concat (.look .textEnd) .empty)

def regex (glob : Glob) : Regex :=
  .concat (.look .textStart) (rowOf glob.separator glob.tokensOf)

theorem meaning_item {token : Token} {item : Pattern} (h : token.ReadAs separator item) :
    item.meaning {} = .ok (token.regex separator, {}) := by
  cases h <;> rfl

theorem inTurn_items {tokens : List Token} {items : List Pattern}
    (h : List.Forall₂ (Token.ReadAs separator) tokens items) (last : Span) :
    Pattern.inTurn .concat .empty {} (items ++ [.assertion last .lineEnd]) =
      .ok (rowOf separator tokens, {}) := by
  induction h with
  | nil => rfl
  | cons hitem _ ih =>
      rw [List.cons_append, Pattern.inTurn, meaning_item hitem]
      exact Except.bind_eq_ok_iff.2 ⟨_, rfl, Except.bind_eq_ok_iff.2 ⟨_, ih, rfl⟩⟩

/-- The expression of a glob is taken if it is not too large. -/
theorem ofText_expression (glob : Glob) : Regex.ofText glob.expression =
    if Regex.sizeLimit < glob.regex.size then .error .tooLarge else .ok glob.regex := by
  obtain ⟨whole, first, last, items, hitems, hpattern⟩ := patternOfText_expression glob
  have hmeaning : Pattern.meaning {} (.concat whole
      (.assertion first .lineStart :: (items ++ [.assertion last .lineEnd]))) =
        .ok (glob.regex, {}) := by
    rw [Pattern.meaning, Pattern.inTurn]
    exact Except.bind_eq_ok_iff.2 ⟨_, rfl,
      Except.bind_eq_ok_iff.2 ⟨_, inTurn_items hitems last, rfl⟩⟩
  rw [Regex.ofText, hpattern]
  change ((Pattern.meaning {} _).mapError Regex.Refusal.fault >>= _) = _
  rw [hmeaning]
  change (if Regex.sizeLimit < glob.regex.size then _ else _) = _
  split <;> rfl

/-! ## Matching -/

section Matching

variable {text : List Char} {start stop : Nat}

theorem drop_eq_cons_iff {c : Char} {rest : List Char} :
    text.drop start = c :: rest ↔ text[start]? = some c ∧ rest = text.drop (start + 1) := by
  rcases Nat.lt_or_ge start text.length with hlt | hge
  · rw [List.drop_eq_getElem_cons hlt, List.getElem?_eq_getElem hlt, List.cons.injEq,
      Option.some.injEq, eq_comm (a := rest)]
  · simp [List.drop_eq_nil_of_le hge, List.getElem?_eq_none hge]

/-- If what follows a star is found where the tokens spell the end of the text, so is the star and
what follows it. -/
theorem matches_star_iff_spells {token : Token} {tokens : List Token} (hrun : token.IsRun)
    {set : CharSet} (hset : ∀ c, set.mem c = token.takes separator c) {rest : Regex}
    (hrest : ∀ start ≤ text.length, rest.Matches text start stop ↔
      stop = text.length ∧ Spells separator tokens (text.drop start))
    (hstart : start ≤ text.length) :
    (Regex.concat (.repeated (.chars set) 0 none) rest).Matches text start stop ↔
      stop = text.length ∧ Spells separator (token :: tokens) (text.drop start) := by
  -- both sides read the rest of the text character by character
  induction hleft : text.length - start using Nat.strong_induction_on generalizing start with
  | _ left ih =>
      rw [Regex.matches_star_iff, spells_run_iff hrun, hrest start hstart, and_or_left]
      refine or_congr_right ?_
      simp only [drop_eq_cons_iff]
      constructor
      · rintro ⟨c, hc, hmem, hmatches⟩
        obtain ⟨hlt, -⟩ := List.getElem?_eq_some_iff.1 hc
        obtain ⟨hstop, hspells⟩ := (ih _ (by omega) hlt rfl).1 hmatches
        exact ⟨hstop, c, _, ⟨hc, rfl⟩, hset c ▸ hmem, hspells⟩
      · rintro ⟨hstop, c, _, ⟨hc, rfl⟩, htakes, hspells⟩
        obtain ⟨hlt, -⟩ := List.getElem?_eq_some_iff.1 hc
        exact ⟨c, hc, hset c ▸ htakes, (ih _ (by omega) hlt rfl).2 ⟨hstop, hspells⟩⟩

theorem matches_rowOf_iff (tokens : List Token) (hstart : start ≤ text.length) :
    (rowOf separator tokens).Matches text start stop ↔
      stop = text.length ∧ Spells separator tokens (text.drop start) := by
  induction tokens generalizing start with
  | nil =>
      simp only [rowOf, List.foldr_nil, Regex.Matches, Regex.Look.holds, Regex.placeAt,
        spells_nil_iff, List.drop_eq_nil_iff, Option.isNone_iff_eq_none, List.getElem?_eq_none_iff]
      constructor
      · rintro ⟨_, ⟨hend, rfl⟩, rfl⟩
        exact ⟨le_antisymm hstart hend, hend⟩
      · rintro ⟨rfl, hend⟩
        exact ⟨start, ⟨hend, rfl⟩, le_antisymm hend hstart⟩
  | cons token tokens ih =>
      cases token with
      | literal c =>
          simp only [spells_literal_iff, drop_eq_cons_iff]
          constructor
          · rintro ⟨_, ⟨⟨found, hfound, hmem⟩, rfl⟩, hrest⟩
            obtain ⟨hlt, -⟩ := List.getElem?_eq_some_iff.1 hfound
            obtain ⟨hstop, hspells⟩ := (ih hlt).1 hrest
            exact ⟨hstop, _, ⟨CharSet.mem_single.1 hmem ▸ hfound, rfl⟩, hspells⟩
          · rintro ⟨hstop, _, ⟨hc, rfl⟩, hspells⟩
            obtain ⟨hlt, -⟩ := List.getElem?_eq_some_iff.1 hc
            exact ⟨start + 1, ⟨⟨c, hc, CharSet.mem_single.2 rfl⟩, rfl⟩, (ih hlt).2 ⟨hstop, hspells⟩⟩
      | segmentRun =>
          exact matches_star_iff_spells Token.isRun_segmentRun CharSet.mem_complement_single
            (fun _ => ih) hstart
      | anyRun =>
          exact matches_star_iff_spells Token.isRun_anyRun CharSet.mem_complement_single
            (fun _ => ih) hstart

end Matching

/-- The expression of a glob is found in exactly the names that the tokens spell. -/
theorem isFoundIn_regex_iff (glob : Glob) (name : String) : glob.regex.isFoundIn name = true ↔
    Spells glob.separator glob.tokensOf name.toList := by
  rw [Regex.isFoundIn_iff]
  simp only [regex, Regex.Matches, Regex.Look.holds, Regex.placeAt]
  constructor
  · rintro ⟨_, stop, hstart, start, ⟨hfront, rfl⟩, hrow⟩
    obtain rfl : start = 0 := by
      rw [Option.isNone_iff_eq_none, List.getLast?_eq_none_iff, List.take_eq_nil_iff] at hfront
      rcases hfront with hzero | hempty
      · exact hzero
      · rw [hempty] at hstart
        exact Nat.le_zero.1 hstart
    exact ((matches_rowOf_iff glob.tokensOf hstart).1 hrow).2
  · intro hspells
    exact ⟨0, name.toList.length, Nat.zero_le _, 0, ⟨rfl, rfl⟩,
      (matches_rowOf_iff glob.tokensOf (Nat.zero_le _)).2 ⟨rfl, hspells⟩⟩

/-- A glob matches the names that its tokens spell, and so does the regular expression that is
written for it, which is read without a fault. -/
theorem isMatch_iff_spells (glob : Glob) :
    (∀ name, glob.isMatch name = true ↔ Spells glob.separator glob.tokensOf name.toList) ∧
      ∃ regex, Regex.ofText glob.expression =
          (if Regex.sizeLimit < regex.size then .error .tooLarge else .ok regex) ∧
        ∀ name, regex.isFoundIn name = true ↔
          Spells glob.separator glob.tokensOf name.toList :=
  ⟨glob.isMatch_iff, glob.regex, glob.ofText_expression, glob.isFoundIn_regex_iff⟩

end JarTailor.Glob
