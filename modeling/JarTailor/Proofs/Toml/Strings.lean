import JarTailor.Toml.Text

/-!
# Written strings are read back

Each of the four forms of strings is read as the text that it was written for. What follows it must
not go on with quotes or apostrophes, since these would count as part of the string.
-/

namespace JarTailor.Toml

/-! ## Escapes -/

/-- What a character is written as between quotes: itself, a letter, or its number. -/
inductive Escapes (c : Char) : List Char → Prop
  | plain (hquote : c ≠ '"') (hslash : c ≠ '\\') (hcontrol : Lex.isControl c = false) :
      Escapes c [c]
  | letter {letter : Char} (h : Lex.escaped? letter = some c) : Escapes c ['\\', letter]
  | number {first second third fourth : Char}
      (h : Lex.scalar? [first, second, third, fourth] = some c) :
      Escapes c ['\\', 'u', first, second, third, fourth]

theorem hexDigit?_upperHexDigit : ∀ value < 16,
    Text.hexDigit? (upperHexDigit value) = some value := by
  decide

theorem lt_of_isControl {c : Char} (h : Lex.isControl c = true) : c.toNat < 128 := by
  simp only [Lex.isControl, Bool.or_eq_true, Bool.and_eq_true, decide_eq_true_eq] at h
  omega

theorem scalar?_of_isControl {c : Char} (h : Lex.isControl c = true) :
    Lex.scalar? ['0', '0', upperHexDigit (c.toNat / 16), upperHexDigit (c.toNat % 16)] =
      some c := by
  have hlt := lt_of_isControl h
  have hzero : Text.hexDigit? '0' = some 0 := by decide
  have hhigh := hexDigit?_upperHexDigit (c.toNat / 16) (by omega)
  have hlow := hexDigit?_upperHexDigit (c.toNat % 16) (by omega)
  have hnumber : c.toNat / 16 * 16 + c.toNat % 16 = c.toNat := Nat.div_add_mod' _ _
  have hvalid : c.toNat.isValidChar := c.valid
  simp [Lex.scalar?, hzero, hhigh, hlow, Text.numbered?, hnumber, hvalid]

theorem escapes_escapeBasic (c : Char) : Escapes c (escapeBasic c) := by
  unfold escapeBasic
  iterate 7
    split
    · next h =>
        subst h
        exact .letter rfl
  split
  · next hcontrol => exact .number (scalar?_of_isControl hcontrol)
  · next hquote hslash hcontrol => exact .plain hquote hslash (Bool.not_eq_true _ ▸ hcontrol)

theorem Escapes.exists_cons {c : Char} {text : List Char} (h : Escapes c text) :
    ∃ first others, text = first :: others ∧ first ≠ '"' ∧ Lex.isControl first = false := by
  cases h with
  | plain hquote _ hcontrol => exact ⟨c, [], rfl, hquote, hcontrol⟩
  | letter _ => exact ⟨'\\', _, rfl, by decide, by decide⟩
  | number _ => exact ⟨'\\', _, rfl, by decide, by decide⟩

namespace Lex

attribute [local simp] between basic literal longBasic longLiteral

variable {c d : Char} {content taken rest : List Char}

theorem ne_of_escaped? {letter : Char} (h : escaped? letter = some c) (hd : escaped? d = none) :
    letter ≠ d := by
  rintro rfl
  exact nomatch h.symm.trans hd

theorem ne_of_isControl (h : isControl c = false) (hd : isControl d = true) : c ≠ d := by
  rintro rfl
  exact nomatch h.symm.trans hd

theorem basic_of_escapes {text : List Char} (h : Escapes c text) (taken rest : List Char) :
    basic taken (text ++ rest) = basic (c :: taken) rest := by
  cases h with
  | plain hquote hslash hcontrol => simp [hslash, hcontrol]
  | letter h =>
      have hu := ne_of_escaped? h (d := 'u') rfl
      have hU := ne_of_escaped? h (d := 'U') rfl
      simp [hu, hU, h]
  | number h => simp [h]

theorem longBasic_of_escapes {text : List Char} (h : Escapes c text) (taken rest : List Char) :
    longBasic taken (text ++ rest) = longBasic (c :: taken) rest := by
  cases h with
  | plain hquote hslash hcontrol =>
      -- the characters for which the reader has other cases
      have hline := ne_of_isControl hcontrol (d := '\n') rfl
      have hreturn := ne_of_isControl hcontrol (d := '\r') rfl
      simp [hquote, hslash, hreturn, hcontrol]
  | letter h =>
      have hu := ne_of_escaped? h (d := 'u') rfl
      have hU := ne_of_escaped? h (d := 'U') rfl
      have hspace := ne_of_escaped? h (d := ' ') rfl
      have htab := ne_of_escaped? h (d := '\t') rfl
      have hline := ne_of_escaped? h (d := '\n') rfl
      have hreturn := ne_of_escaped? h (d := '\r') rfl
      simp [hu, hU, hreturn, h]
  | number h => simp [h]

/-! ## Strings on one line -/

theorem basic_content :
    basic taken (content.flatMap escapeBasic ++ '"' :: rest) =
      (.string false (spell (content.reverse ++ taken)) :: ·) <$> between rest := by
  induction content generalizing taken with
  | nil => simp
  | cons c content ih =>
      rw [List.flatMap_cons, List.append_assoc, basic_of_escapes (escapes_escapeBasic c), ih,
        List.reverse_cons, List.append_assoc, List.singleton_append]

theorem literal_content (hcontent : ∀ c ∈ content, isControl c = false ∧ c ≠ '\'') :
    literal taken (content ++ '\'' :: rest) =
      (.string false (spell (content.reverse ++ taken)) :: ·) <$> between rest := by
  induction content generalizing taken with
  | nil => simp
  | cons c content ih =>
      obtain ⟨⟨hcontrol, hquote⟩, hcontent⟩ := List.forall_mem_cons.1 hcontent
      have hstep : literal taken (c :: (content ++ '\'' :: rest)) =
          literal (c :: taken) (content ++ '\'' :: rest) := by
        simp [hcontrol]
      rw [List.cons_append, hstep, ih hcontent, List.reverse_cons, List.append_assoc,
        List.singleton_append]

/-! ## Strings on several lines -/

theorem isControl_quote : isControl '"' = false := by decide

theorem isControl_apostrophe : isControl '\'' = false := by decide

/-- Quotes are part of the string if no three of them follow one another. -/
theorem longBasic_replicate {quotes : Nat} (hquotes : quotes ≤ 2) (hd : d ≠ '"') :
    longBasic taken (List.replicate quotes '"' ++ d :: rest) =
      longBasic (List.replicate quotes '"' ++ taken) (d :: rest) := by
  match quotes with
  | 0 => rfl
  | 1 => simp [hd, isControl_quote]
  | 2 => simp [hd, isControl_quote]

theorem longLiteral_replicate {quotes : Nat} (hquotes : quotes ≤ 2) (hd : d ≠ '\'') :
    longLiteral taken (List.replicate quotes '\'' ++ d :: rest) =
      longLiteral (List.replicate quotes '\'' ++ taken) (d :: rest) := by
  match quotes with
  | 0 => rfl
  | 1 => simp [hd, isControl_apostrophe]
  | 2 => simp [hd, isControl_apostrophe]

/-- Three quotes end the string, and up to two before them are part of it. -/
theorem longBasic_close {quotes : Nat} (hquotes : quotes ≤ 2)
    (hrest : ∀ others, rest ≠ '"' :: others) :
    longBasic taken (List.replicate quotes '"' ++ '"' :: '"' :: '"' :: rest) =
      (.string true (spell (List.replicate quotes '"' ++ taken)) :: ·) <$> between rest := by
  match quotes with
  | 0 => simp [hrest]
  | 1 => simp
  | 2 => simp

theorem longLiteral_close {quotes : Nat} (hquotes : quotes ≤ 2)
    (hrest : ∀ others, rest ≠ '\'' :: others) :
    longLiteral taken (List.replicate quotes '\'' ++ '\'' :: '\'' :: '\'' :: rest) =
      (.string true (spell (List.replicate quotes '\'' ++ taken)) :: ·) <$> between rest := by
  match quotes with
  | 0 => simp [hrest]
  | 1 => simp
  | 2 => simp

theorem longBasic_pending {text : List Char} (h : Escapes c text) {quotes : Nat}
    (hquotes : quotes ≤ 2) :
    longBasic taken (List.replicate quotes '"' ++ (text ++ rest)) =
      longBasic (c :: (List.replicate quotes '"' ++ taken)) rest := by
  rw [← longBasic_of_escapes h]
  obtain ⟨first, others, rfl, hquote, -⟩ := h.exists_cons
  exact longBasic_replicate hquotes hquote

/-- The quotes in front are those that the content goes on from. -/
theorem longBasic_content {quotes : Nat} (hquotes : quotes ≤ 2)
    (hrest : ∀ others, rest ≠ '"' :: others) :
    longBasic taken (List.replicate quotes '"' ++ (escapeLong quotes content ++
        '"' :: '"' :: '"' :: rest)) =
      (.string true (spell (content.reverse ++ (List.replicate quotes '"' ++ taken))) :: ·) <$>
        between rest := by
  induction content generalizing quotes taken with
  | nil => exact longBasic_close hquotes hrest
  | cons c content ih =>
      have hnext (taken : List Char) :
          longBasic taken (escapeLong 0 content ++ '"' :: '"' :: '"' :: rest) =
            (.string true (spell (content.reverse ++ taken)) :: ·) <$> between rest :=
        ih (Nat.zero_le _)
      rw [escapeLong, List.reverse_cons, List.append_assoc, List.singleton_append]
      split
      · next hquote =>
          subst hquote
          split
          · exact (longBasic_pending (.letter rfl) hquotes).trans (hnext _)
          · next hne =>
              rw [List.cons_append, List.append_cons, ← List.replicate_succ',
                ih (by omega), List.replicate_succ, List.cons_append]
      · next hquote =>
          split
          · next hline =>
              subst hline
              have hstep : longBasic (List.replicate quotes '"' ++ taken)
                  ('\n' :: (escapeLong 0 content ++ '"' :: '"' :: '"' :: rest)) =
                longBasic ('\n' :: (List.replicate quotes '"' ++ taken))
                  (escapeLong 0 content ++ '"' :: '"' :: '"' :: rest) := by
                simp
              exact ((longBasic_replicate hquotes (by decide)).trans hstep).trans (hnext _)
          · rw [List.append_assoc]
            exact (longBasic_pending (escapes_escapeBasic c) hquotes).trans (hnext _)

theorem hasTriple_of_append {before : List Char} (h : hasTriple c (before ++ content) = false) :
    hasTriple c content = false := by
  induction before with
  | nil => exact h
  | cons first before ih =>
      refine ih ?_
      rw [List.cons_append] at h
      match before ++ content, h with
      | [], _ => rfl
      | [_], _ => rfl
      | _ :: _ :: _, h => exact (Bool.or_eq_false_iff.1 h).2

theorem isControl_of_allowed (hallowed : isForbidden c = false) (hline : c ≠ '\n') :
    isControl c = false := by
  simpa [isForbidden, hline] using hallowed

theorem longLiteral_allowed (hallowed : isForbidden c = false) (hquote : c ≠ '\'') :
    longLiteral taken (c :: rest) = longLiteral (c :: taken) rest := by
  by_cases hline : c = '\n'
  · subst hline
    simp
  · have hcontrol := isControl_of_allowed hallowed hline
    have hreturn := ne_of_isControl hcontrol (d := '\r') rfl
    simp [hreturn, hquote, hcontrol]

/-- The apostrophes in front are those that the content goes on from. -/
theorem longLiteral_content {quotes : Nat} (hquotes : quotes ≤ 2)
    (hcontent : ∀ c ∈ content, isForbidden c = false)
    (htriple : hasTriple '\'' (List.replicate quotes '\'' ++ content) = false)
    (hrest : ∀ others, rest ≠ '\'' :: others) :
    longLiteral taken (List.replicate quotes '\'' ++ (content ++ '\'' :: '\'' :: '\'' :: rest)) =
      (.string true (spell (content.reverse ++ (List.replicate quotes '\'' ++ taken))) :: ·) <$>
        between rest := by
  induction content generalizing quotes taken with
  | nil => exact longLiteral_close hquotes hrest
  | cons c content ih =>
      obtain ⟨hallowed, hothers⟩ := List.forall_mem_cons.1 hcontent
      rw [List.reverse_cons, List.append_assoc, List.singleton_append]
      by_cases hquote : c = '\''
      · subst hquote
        rw [List.append_cons, ← List.replicate_succ'] at htriple
        have hone : quotes + 1 ≤ 2 := by
          rcases Nat.lt_or_eq_of_le hquotes with hlt | rfl
          · exact hlt
          · exact nomatch htriple
        rw [List.cons_append, List.append_cons, ← List.replicate_succ',
          ih hone hothers htriple, List.replicate_succ, List.cons_append]
      · have hstep : longLiteral (List.replicate quotes '\'' ++ taken)
              (c :: (content ++ '\'' :: '\'' :: '\'' :: rest)) =
            longLiteral (c :: (List.replicate quotes '\'' ++ taken))
              (content ++ '\'' :: '\'' :: '\'' :: rest) := longLiteral_allowed hallowed hquote
        have hnext := @ih (c :: (List.replicate quotes '\'' ++ taken)) 0 (Nat.zero_le _) hothers
          (hasTriple_of_append (List.append_cons .. ▸ htriple))
        exact ((longLiteral_replicate hquotes hquote).trans hstep).trans hnext

/-! ## The forms -/

theorem spell_reverse (content : List Char) :
    spell (content.reverse ++ []) = String.ofList content := by
  rw [List.append_nil, spell, List.reverse_reverse]

theorem between_quote {input : List Char} (h : ∀ others, input ≠ '"' :: '"' :: others) :
    between ('"' :: input) = basic [] input := by
  simp [h]

theorem between_apostrophe {input : List Char} (h : ∀ others, input ≠ '\'' :: '\'' :: others) :
    between ('\'' :: input) = literal [] input := by
  simp [h]

theorem ne_cons_of_head? {input : List Char} (h : ∀ c ∈ input.head?, isControl c = false)
    (hd : isControl d = true) (others : List Char) : input ≠ d :: others := by
  rintro rfl
  exact nomatch (h d rfl).symm.trans hd

theorem between_quotes {input : List Char} (h : ∀ c ∈ input.head?, isControl c = false) :
    between ('"' :: '"' :: '"' :: input) = longBasic [] input := by
  have hline := ne_cons_of_head? h (d := '\n') rfl
  have hreturn := ne_cons_of_head? h (d := '\r') rfl
  simp [hreturn]

theorem between_apostrophes {input : List Char} (h : ∀ c ∈ input.head?, isControl c = false) :
    between ('\'' :: '\'' :: '\'' :: input) = longLiteral [] input := by
  have hline := ne_cons_of_head? h (d := '\n') rfl
  have hreturn := ne_cons_of_head? h (d := '\r') rfl
  simp [hreturn]

theorem longForm_append (quote : Char) (content inside rest : List Char) :
    longForm quote content inside ++ rest = quote :: quote :: quote ::
      ((if content.contains '\n' then ['\n'] else []) ++
        (inside ++ quote :: quote :: quote :: rest)) := by
  simp only [longForm, List.append_assoc, List.cons_append, List.nil_append]

theorem between_basicForm (hrest : ∀ others, rest ≠ '"' :: others) :
    between (basicForm content ++ rest) =
      (.string false (String.ofList content) :: ·) <$> between rest := by
  have hopen : between ('"' :: (content.flatMap escapeBasic ++ '"' :: rest)) =
      basic [] (content.flatMap escapeBasic ++ '"' :: rest) := by
    refine between_quote fun others h => ?_
    cases content with
    | nil => exact hrest others (List.cons.inj h).2
    | cons c content =>
        obtain ⟨first, tail, hescape, hquote, -⟩ := (escapes_escapeBasic c).exists_cons
        rw [List.flatMap_cons, hescape] at h
        exact hquote (List.cons.inj h).1
  rw [basicForm, List.append_assoc, List.cons_append, List.singleton_append, hopen, basic_content,
    spell_reverse]

theorem between_literalForm (hcontent : ∀ c ∈ content, isControl c = false ∧ c ≠ '\'')
    (hne : content ≠ []) :
    between (literalForm content ++ rest) =
      (.string false (String.ofList content) :: ·) <$> between rest := by
  have hopen : between ('\'' :: (content ++ '\'' :: rest)) =
      literal [] (content ++ '\'' :: rest) := by
    refine between_apostrophe fun others h => ?_
    obtain ⟨c, content, rfl⟩ := List.exists_cons_of_ne_nil hne
    exact (hcontent c List.mem_cons_self).2 (List.cons.inj h).1
  rw [literalForm, List.append_assoc, List.cons_append, List.singleton_append, hopen,
    literal_content hcontent, spell_reverse]

theorem isControl_of_escapeLong {others : List Char} (hlines : '\n' ∉ content)
    (h : c ∈ (escapeLong 0 content ++ '"' :: others).head?) : isControl c = false := by
  cases content with
  | nil => exact Option.some.inj h ▸ isControl_quote
  | cons first content =>
      rw [escapeLong] at h
      split at h
      · exact Option.some.inj h ▸ isControl_quote
      · have hline : first ≠ '\n' := fun hline => hlines (hline ▸ List.mem_cons_self)
        rw [if_neg hline] at h
        obtain ⟨letter, tail, hescape, -, hcontrol⟩ := (escapes_escapeBasic first).exists_cons
        rw [hescape] at h
        exact Option.some.inj h ▸ hcontrol

theorem between_longBasicForm (hrest : ∀ others, rest ≠ '"' :: others) :
    between (longForm '"' content (escapeLong 0 content) ++ rest) =
      (.string true (String.ofList content) :: ·) <$> between rest := by
  have hread : longBasic [] (escapeLong 0 content ++ '"' :: '"' :: '"' :: rest) =
      (.string true (String.ofList content) :: ·) <$> between rest := by
    rw [← spell_reverse]
    exact longBasic_content (Nat.zero_le 2) hrest
  rw [longForm_append, ← hread]
  split
  · rw [List.singleton_append, between]
  · next hlines =>
      rw [List.contains_iff_mem] at hlines
      exact between_quotes fun c => isControl_of_escapeLong hlines

theorem between_longLiteralForm (hcontent : ∀ c ∈ content, isForbidden c = false)
    (htriple : hasTriple '\'' content = false) (hrest : ∀ others, rest ≠ '\'' :: others) :
    between (longForm '\'' content content ++ rest) =
      (.string true (String.ofList content) :: ·) <$> between rest := by
  have hread : longLiteral [] (content ++ '\'' :: '\'' :: '\'' :: rest) =
      (.string true (String.ofList content) :: ·) <$> between rest := by
    rw [← spell_reverse]
    exact longLiteral_content (Nat.zero_le 2) hcontent htriple hrest
  rw [longForm_append, ← hread]
  split
  · rw [List.singleton_append, between]
  · next hlines =>
      rw [List.contains_iff_mem] at hlines
      refine between_apostrophes fun c hc => ?_
      cases content with
      | nil => exact Option.some.inj hc ▸ isControl_apostrophe
      | cons first content =>
          obtain rfl : first = c := Option.some.inj hc
          exact isControl_of_allowed (hcontent first List.mem_cons_self)
            fun hline => hlines (hline ▸ List.mem_cons_self)

end Lex

/-- A string may stand in front of this: a quote or an apostrophe would go on with it. -/
structure Ends (rest : List Char) : Prop where
  quote : ∀ others, rest ≠ '"' :: others
  apostrophe : ∀ others, rest ≠ '\'' :: others

/-- A written string is one token, which holds its text. -/
theorem exists_between_writeString (text : String) {rest : List Char} (hrest : Ends rest) :
    ∃ isLong, Lex.between ((writeString text).toList ++ rest) =
      (.string isLong text :: ·) <$> Lex.between rest := by
  have hbasic : Lex.between (basicForm text.toList ++ rest) =
      (.string false text :: ·) <$> Lex.between rest := by
    rw [Lex.between_basicForm hrest.quote, String.ofList_toList]
  have hlongBasic : Lex.between (longForm '"' text.toList (escapeLong 0 text.toList) ++ rest) =
      (.string true text :: ·) <$> Lex.between rest := by
    rw [Lex.between_longBasicForm hrest.quote, String.ofList_toList]
  simp only [writeString, String.toList_ofList]
  split
  · exact ⟨false, hbasic⟩
  next hplain =>
  split
  · next hform =>
      simp only [Bool.and_eq_true, Bool.not_eq_true', List.any_eq_false, Bool.not_eq_true,
        List.contains_eq_mem, decide_eq_false_iff_not] at hform
      obtain ⟨⟨hclean, hlines⟩, hquotes⟩ := hform
      refine ⟨false, ?_⟩
      rw [Lex.between_literalForm, String.ofList_toList]
      · exact fun c hc => ⟨Lex.isControl_of_allowed (hclean c hc) fun hline => hlines (hline ▸ hc),
          fun hquote => hquotes (hquote ▸ hc)⟩
      · intro hnil
        rw [hnil] at hplain
        exact hplain rfl
  split
  · exact ⟨true, hlongBasic⟩
  split
  · next hform =>
      simp only [Bool.and_eq_true, Bool.not_eq_true', List.any_eq_false, Bool.not_eq_true] at hform
      refine ⟨true, ?_⟩
      rw [Lex.between_longLiteralForm hform.1 hform.2 hrest.apostrophe, String.ofList_toList]
  split
  · exact ⟨true, hlongBasic⟩
  · exact ⟨false, hbasic⟩

end JarTailor.Toml
