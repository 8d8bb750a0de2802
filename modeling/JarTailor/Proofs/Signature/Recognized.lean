import JarTailor.Proofs.Signature.Grammar

/-!
# What is recognized

A text is cut into pieces exactly when it is a sentence, and then into the pieces of the sentence:
the goals of a run are met by syntax trees, one after the other.
-/

namespace JarTailor.Signature

section Complete

/-- Goals that take the same step are met alike. -/
theorem run_congr_step {goal other : Goal} {goals : List Goal} {input : List Char}
    {taken : List Piece} (h : step goal input = step other input) :
    run (goal :: goals) input taken = run (other :: goals) input taken := by
  cases hstep : step other input with
  | error fault => rw [run_cons_of_error (h.trans hstep), run_cons_of_error hstep]
  | ok found =>
      obtain ⟨pieces, next, rest⟩ := found
      rw [run_cons_of_step (h.trans hstep), run_cons_of_step hstep]

/-- The goal that a tree meets. -/
def Kind.goal (outer : String) : Kind → Goal
  | .type => .type
  | .reference => .reference
  | .classRest => .classRest outer
  | .arguments => .arguments

/-- A reference starts with a letter that starts nothing else. -/
theorem Tree.exists_chars_reference (reference : Tree .reference) :
    ∃ c tail, reference.chars id = c :: tail ∧ (c = 'L' ∨ c = 'T' ∨ c = '[') := by
  cases reference with
  | object name rest => exact ⟨'L', _, rfl, .inl rfl⟩
  | typeVariable name => exact ⟨'T', _, rfl, .inr (.inl rfl)⟩
  | array element => exact ⟨'[', _, rfl, .inr (.inr rfl)⟩

/-- The rest of a class starts with a character that ends a name. -/
theorem Tree.head?_chars_classRest (rest : Tree .classRest) (more : List Char) :
    ∃ c, (rest.chars id ++ more).head? = some c ∧ takeName.inName c = false := by
  cases rest with
  | close => exact ⟨';', rfl, by decide⟩
  | apply arguments rest => exact ⟨'<', rfl, by decide⟩
  | inner segment rest => exact ⟨'.', rfl, by decide⟩

theorem Tree.takeName_chars (name : ClassName) (rest : Tree .classRest) (more : List Char) :
    takeName (name.val.toList ++ (rest.chars id ++ more)) = .ok (name.val, rest.chars id ++ more) :=
  takeName_eq_ok_iff.2 ⟨name.property, rfl, rest.head?_chars_classRest more⟩

theorem takeIdentifier_chars {terminator : Char} (name : Identifier terminator)
    (more : List Char) :
    takeIdentifier terminator (name.chars ++ terminator :: more) = .ok (name.chars, more) :=
  takeIdentifier_eq_ok_iff.2 ⟨name.ne_nil, name.notMem, rfl⟩

theorem step_type_reference (reference : Tree .reference) (more : List Char) :
    step .type (reference.chars id ++ more) = step .reference (reference.chars id ++ more) := by
  obtain ⟨c, tail, hchars, hc⟩ := reference.exists_chars_reference
  have hletter : ¬ (BaseType.ofLetter? c).isSome := by
    rcases hc with rfl | rfl | rfl <;> decide
  rw [hchars]
  show (if _ then _ else _) = _
  rw [if_neg hletter]
  rfl

theorem step_arguments_reference (reference : Tree .reference) (more : List Char) :
    step .arguments (reference.chars id ++ more) =
      Step.before .arguments <$> step .reference (reference.chars id ++ more) := by
  obtain ⟨c, tail, hchars, hc⟩ := reference.exists_chars_reference
  rw [hchars]
  rcases hc with rfl | rfl | rfl <;> rfl

theorem step_reference_object (name : ClassName) (rest : Tree .classRest) (more : List Char) :
    step .reference ((Tree.object name rest).chars id ++ more) =
      .ok ([.text ['L'], .outer name], [.classRest name], rest.chars id ++ more) := by
  rw [Tree.chars, List.cons_append, List.append_assoc, step, stepReference]
  exact Except.bind_eq_ok_iff.2 ⟨_, Tree.takeName_chars name rest more, rfl⟩

theorem step_reference_typeVariable (name : Identifier ';') (more : List Char) :
    step .reference ((Tree.typeVariable name).chars id ++ more) =
      .ok ([.text ('T' :: name.chars ++ [';'])], [], more) := by
  rw [Tree.chars, List.cons_append, List.append_assoc, step, stepReference]
  exact Except.bind_eq_ok_iff.2 ⟨_, takeIdentifier_chars name more, rfl⟩

/-- A tree is taken piece by piece, whatever follows it. -/
theorem run_tree {kind : Kind} (tree : Tree kind) (outer : String) (goals : List Goal)
    (more : List Char) (taken : List Piece) :
    run (kind.goal outer :: goals) (tree.chars id ++ more) taken =
      run goals more ((tree.pieces outer).reverse ++ taken) := by
  induction tree generalizing outer goals more taken with
  | base type =>
      have hstep : step .type (type.letter :: more) = .ok ([.text [type.letter]], [], more) := by
        rw [step, stepType, if_pos (by rw [BaseType.ofLetter?_letter]; rfl)]
        rfl
      exact run_cons_of_step hstep
  | ofReference reference ih =>
      rw [Tree.pieces, ← ih outer]
      exact run_congr_step (step_type_reference reference more)
  | object name rest ih =>
      apply (run_cons_of_step (step_reference_object name rest more)).trans
      apply (ih name.val goals more _).trans
      simp [Tree.pieces]
  | typeVariable name => exact run_cons_of_step (step_reference_typeVariable name more)
  | array element ih =>
      have hstep : step .reference ('[' :: (element.chars id ++ more)) =
          .ok ([.text ['[']], [.type], element.chars id ++ more) := rfl
      apply (run_cons_of_step hstep).trans
      apply (ih outer goals more _).trans
      simp [Tree.pieces]
  | close =>
      have hstep : step (.classRest outer) (';' :: more) = .ok ([.text [';']], [], more) := rfl
      exact run_cons_of_step hstep
  | apply arguments rest iharguments ihrest =>
      have hstep : step (.classRest outer)
          ('<' :: (arguments.chars id ++ (rest.chars id ++ more))) =
          .ok ([.text ['<']], [.arguments, .classRest outer],
            arguments.chars id ++ (rest.chars id ++ more)) := rfl
      have hlist : (Tree.apply arguments rest).chars id ++ more =
          '<' :: (arguments.chars id ++ (rest.chars id ++ more)) := by
        simp [Tree.chars]
      rw [hlist]
      apply (run_cons_of_step hstep).trans
      apply (iharguments outer _ _ _).trans
      apply (ihrest outer goals more _).trans
      simp [Tree.pieces]
  | inner segment rest ih =>
      have hstep : step (.classRest outer)
          ('.' :: (segment.val.toList ++ (rest.chars id ++ more))) =
          .ok ([.text ['.'], .nested segment s!"{outer}${segment.val}"],
            [.classRest s!"{outer}${segment.val}"], rest.chars id ++ more) := by
        rw [step, stepClassRest, Tree.takeName_chars]
        rfl
      have hlist : (Tree.inner segment rest).chars id ++ more =
          '.' :: (segment.val.toList ++ (rest.chars id ++ more)) := by
        simp [Tree.chars]
      rw [hlist]
      apply (run_cons_of_step hstep).trans
      apply (ih s!"{outer}${segment.val}" goals more _).trans
      simp [Tree.pieces]
  | last =>
      have hstep : step .arguments ('>' :: more) = .ok ([.text ['>']], [], more) := rfl
      exact run_cons_of_step hstep
  | any rest ih =>
      have hstep : step .arguments ('*' :: (rest.chars id ++ more)) =
          .ok ([.text ['*']], [.arguments], rest.chars id ++ more) := rfl
      apply (run_cons_of_step hstep).trans
      apply (ih outer goals more _).trans
      simp [Tree.pieces]
  | argument type rest ihtype ihrest =>
      have hlist : (Tree.argument type rest).chars id ++ more =
          type.chars id ++ (rest.chars id ++ more) := by
        simp [Tree.chars]
      rw [hlist]
      apply (run_before (step_arguments_reference type _)).trans
      apply (ihtype outer _ _ _).trans
      apply (ihrest outer goals more _).trans
      simp [Tree.pieces]
  | bounded wildcard bound rest ihbound ihrest =>
      have hstep : step .arguments (wildcard.char :: (bound.chars id ++ (rest.chars id ++ more))) =
          .ok ([.text [wildcard.char]], [.reference, .arguments],
            bound.chars id ++ (rest.chars id ++ more)) := by
        cases wildcard <;> rfl
      have hlist : (Tree.bounded wildcard bound rest).chars id ++ more =
          wildcard.char :: (bound.chars id ++ (rest.chars id ++ more)) := by
        simp [Tree.chars]
      rw [hlist]
      apply (run_cons_of_step hstep).trans
      apply (ihbound outer _ _ _).trans
      apply (ihrest outer goals more _).trans
      simp [Tree.pieces]

theorem exists_step_of_run {goal : Goal} {goals : List Goal} {input : List Char}
    {taken found : List Piece} (h : run (goal :: goals) input taken = .ok found) :
    ∃ pieces next rest, step goal input = .ok (pieces, next, rest) := by
  cases hstep : step goal input with
  | error fault =>
      rw [run_cons_of_error hstep] at h
      cases h
  | ok result => exact ⟨_, _, _, rfl⟩

theorem step_supertypes_reference (reference : Tree .reference) (more : List Char) :
    step .supertypes (reference.chars id ++ more) =
      Step.before .supertypes <$> step .reference (reference.chars id ++ more) := by
  obtain ⟨c, tail, hchars, -⟩ := reference.exists_chars_reference
  rw [hchars]
  rfl

theorem run_supertypes (types : List (Tree .reference)) (taken : List Piece) :
    run [.supertypes] (types.flatMap (Tree.chars id)) taken =
      .ok (taken.reverse ++ types.flatMap (Tree.pieces "")) := by
  induction types generalizing taken with
  | nil =>
      have hstep : step .supertypes [] = .ok ([], [], []) := rfl
      apply (run_cons_of_step hstep).trans
      simp [run_nil]
  | cons type types ih =>
      rw [List.flatMap_cons]
      apply (run_before (step_supertypes_reference type _)).trans
      apply (run_tree type "" _ _ _).trans
      rw [ih]
      simp

theorem run_thrown (types : List (Tree .reference)) (taken : List Piece) :
    run [.thrown] (types.flatMap fun type => '^' :: type.chars id) taken =
      .ok (taken.reverse ++ types.flatMap fun type => .text ['^'] :: type.pieces "") := by
  induction types generalizing taken with
  | nil =>
      have hstep : step .thrown [] = .ok ([], [], []) := rfl
      apply (run_cons_of_step hstep).trans
      simp [run_nil]
  | cons type types ih =>
      have hstep : ∀ more : List Char, step .thrown ('^' :: more) =
          .ok ([.text ['^']], [.reference, .thrown], more) := fun _ => rfl
      rw [List.flatMap_cons, List.cons_append]
      apply (run_cons_of_step (hstep _)).trans
      apply (run_tree type "" _ _ _).trans
      apply (ih _).trans
      simp

/-- A type starts like nothing else that may stand in its place. -/
theorem Tree.exists_chars_type (type : Tree .type) :
    ∃ c tail, type.chars id = c :: tail ∧ c ≠ ')' ∧ c ≠ 'V' ∧ c ≠ '(' ∧ c ≠ '<' := by
  cases type with
  | base type => exact ⟨type.letter, [], rfl, by cases type <;> decide⟩
  | ofReference reference =>
      obtain ⟨c, tail, hchars, hc⟩ := reference.exists_chars_reference
      refine ⟨c, tail, hchars, ?_⟩
      rcases hc with rfl | rfl | rfl <;> decide

theorem step_parameters_tree (type : Tree .type) (more : List Char) :
    step .parameters (type.chars id ++ more) =
      Step.before .parameters <$> step .type (type.chars id ++ more) := by
  obtain ⟨c, tail, hchars, hc, -⟩ := type.exists_chars_type
  rw [hchars]
  show stepParameters (c :: (tail ++ more)) = _
  rw [stepParameters]
  · rfl
  · simp
  · rintro rest ⟨⟩
    exact hc rfl

theorem run_parameter_types (types : List (Tree .type)) (behind : List Char)
    (taken : List Piece) :
    run [.parameters] (types.flatMap (Tree.chars id) ++ ')' :: behind) taken =
      run [.result] behind
        (.text [')'] :: ((types.flatMap (Tree.pieces "")).reverse ++ taken)) := by
  induction types generalizing taken with
  | nil =>
      have hstep : step .parameters (')' :: behind) = .ok ([.text [')']], [.result], behind) := rfl
      exact run_cons_of_step hstep
  | cons type types ih =>
      rw [List.flatMap_cons, List.append_assoc]
      apply (run_before (step_parameters_tree type _)).trans
      apply (run_tree type "" _ _ _).trans
      rw [ih]
      simp

theorem step_result_tree (type : Tree .type) (more : List Char) :
    step .result (type.chars id ++ more) =
      Step.before .thrown <$> step .type (type.chars id ++ more) := by
  obtain ⟨c, tail, hchars, -, hc, -⟩ := type.exists_chars_type
  rw [hchars]
  show stepResult (c :: (tail ++ more)) = _
  rw [stepResult]
  · rfl
  · simp
  · rintro rest ⟨⟩
    exact hc rfl

theorem run_result_thrown (result : Option (Tree .type)) (thrown : List (Tree .reference))
    (taken : List Piece) :
    run [.result] (result.elim ['V'] (Tree.chars id) ++
        thrown.flatMap fun type => '^' :: type.chars id) taken =
      .ok (taken.reverse ++ (result.elim [.text ['V']] (Tree.pieces "") ++
        thrown.flatMap fun type => .text ['^'] :: type.pieces "")) := by
  cases result with
  | none =>
      have hstep : ∀ more : List Char,
          step .result ('V' :: more) = .ok ([.text ['V']], [.thrown], more) := fun _ => rfl
      apply (run_cons_of_step (hstep _)).trans
      apply (run_thrown thrown _).trans
      simp
  | some type =>
      apply (run_before (step_result_tree type _)).trans
      apply (run_tree type "" _ _ _).trans
      apply (run_thrown thrown _).trans
      simp

/-- The step at the start of a body leads to the end of the signature. -/
theorem stepBody_chars (body : Body) :
    ∃ pieces next rest, stepBody (body.chars id) = .ok (pieces, next, rest) ∧
      ∀ taken, run next rest (pieces.reverse ++ taken) = .ok (taken.reverse ++ body.pieces) := by
  cases body with
  | method parameters result thrown =>
      refine ⟨_, _, _, rfl, fun taken => ?_⟩
      apply (run_parameter_types parameters _ _).trans
      apply (run_result_thrown result thrown _).trans
      simp [Body.pieces]
  | plain type supertypes =>
      have hrun : ∀ taken, run [.type, .supertypes] (Body.chars id (.plain type supertypes)) taken =
          .ok (taken.reverse ++ Body.pieces (.plain type supertypes)) := by
        intro taken
        apply (run_tree type "" _ _ _).trans
        apply (run_supertypes supertypes _).trans
        simp [Body.pieces]
      obtain ⟨pieces, next, rest, hstep⟩ := exists_step_of_run (hrun [])
      refine ⟨pieces, next ++ [.supertypes], rest, ?_, fun taken => ?_⟩
      · obtain ⟨c, tail, hchars, -, -, hc, -⟩ := type.exists_chars_type
        rw [Body.chars, hchars, List.cons_append] at hstep ⊢
        rw [stepBody]
        · change Step.before .supertypes <$> step .type (c :: (tail ++ _)) = _
          rw [hstep]
          rfl
        · rintro rest ⟨⟩
          exact hc rfl
      · rw [← run_cons_of_step hstep]
        exact hrun taken

theorem Body.head?_chars (body : Body) : (body.chars id).head? ≠ some '<' := by
  cases body with
  | method parameters result thrown => simp [chars]
  | plain type supertypes =>
      obtain ⟨c, tail, hchars, -, -, -, hc⟩ := type.exists_chars_type
      rw [chars, hchars]
      exact fun h => hc (Option.some.inj h)

theorem exists_step_reference (reference : Tree .reference) (more : List Char) :
    ∃ pieces next rest,
      step .reference (reference.chars id ++ more) = .ok (pieces, next, rest) := by
  cases reference with
  | object name rest => exact ⟨_, _, _, step_reference_object name rest more⟩
  | typeVariable name => exact ⟨_, _, _, step_reference_typeVariable name more⟩
  | array element => exact ⟨_, _, _, rfl⟩

theorem run_bounds_interfaces (bounds : List (Tree .reference)) (goals : List Goal)
    (more : List Char) (taken : List Piece) :
    run (.bounds :: goals) ((bounds.flatMap fun bound => ':' :: bound.chars id) ++ more) taken =
      run (.bounds :: goals) more
        ((bounds.flatMap fun bound => .text [':'] :: bound.pieces "").reverse ++ taken) := by
  induction bounds generalizing taken with
  | nil => rfl
  | cons bound bounds ih =>
      have hstep : ∀ more : List Char, step .bounds (':' :: more) =
          .ok ([.text [':']], [.reference, .bounds], more) := fun _ => rfl
      rw [List.flatMap_cons, List.append_assoc, List.cons_append]
      apply (run_cons_of_step (hstep _)).trans
      apply (run_tree bound "" _ _ _).trans
      apply (ih _).trans
      simp

/-- A parameter is taken up to its first bound, and the goal for the bounds takes the others. -/
theorem stepParameter_chars (parameter : Parameter) (more : List Char)
    (hmore : parameter.Bounded ∨ more.head? = some '>') :
    ∃ pieces next rest, stepParameter (parameter.chars id ++ more) = .ok (pieces, next, rest) ∧
      ∀ goals taken, run (next ++ goals) rest (pieces.reverse ++ taken) =
        run (.bounds :: goals) more (parameter.pieces.reverse ++ taken) := by
  obtain ⟨name, classBound, interfaceBounds⟩ := parameter
  cases classBound with
  | some bound =>
      have hlist : Parameter.chars id ⟨name, some bound, interfaceBounds⟩ ++ more =
          name.chars ++ ':' :: (bound.chars id ++
            ((interfaceBounds.flatMap fun bound => ':' :: bound.chars id) ++ more)) := by
        simp [Parameter.chars]
      obtain ⟨inner, next, rest, hstep⟩ := exists_step_reference bound
        ((interfaceBounds.flatMap fun bound => ':' :: bound.chars id) ++ more)
      refine ⟨.text (name.chars ++ [':']) :: inner, next ++ [.bounds], rest, ?_,
        fun goals taken => ?_⟩
      · obtain ⟨c, tail, hchars, hc⟩ := bound.exists_chars_reference
        have hnot : ¬ (c = ':' || c = '>') := by
          rcases hc with rfl | rfl | rfl <;> decide
        rw [hlist, stepParameter, takeIdentifier_chars]
        rw [hchars] at hstep ⊢
        change (if c = ':' || c = '>' then _ else _) = _
        rw [if_neg hnot]
        exact Except.bind_eq_ok_iff.2 ⟨_, hstep, rfl⟩
      · rw [List.append_assoc, List.reverse_cons, List.append_assoc]
        apply (run_cons_of_step hstep).symm.trans
        apply (run_tree bound "" _ _ _).trans
        apply (run_bounds_interfaces interfaceBounds goals more _).trans
        simp [Parameter.pieces]
  | none =>
      have hlist : Parameter.chars id ⟨name, none, interfaceBounds⟩ ++ more =
          name.chars ++ ':' ::
            ((interfaceBounds.flatMap fun bound => ':' :: bound.chars id) ++ more) := by
        simp [Parameter.chars]
      have hnext : ∃ c tail, (interfaceBounds.flatMap fun bound => ':' :: bound.chars id) ++ more =
          c :: tail ∧ (c = ':' || c = '>') := by
        cases interfaceBounds with
        | nil =>
            have hlast : more.head? = some '>' := by
              rcases hmore with hbounded | hlast
              · simp [Parameter.Bounded] at hbounded
              · exact hlast
            obtain ⟨tail, rfl⟩ := List.head?_eq_some_iff.1 hlast
            exact ⟨'>', tail, rfl, rfl⟩
        | cons bound bounds => exact ⟨':', _, rfl, rfl⟩
      refine ⟨[.text (name.chars ++ [':'])], [.bounds],
        (interfaceBounds.flatMap fun bound => ':' :: bound.chars id) ++ more, ?_,
        fun goals taken => ?_⟩
      · obtain ⟨c, tail, hchars, hc⟩ := hnext
        rw [hlist, stepParameter, takeIdentifier_chars, hchars]
        change (if c = ':' || c = '>' then _ else _) = _
        rw [if_pos hc, ← hchars]
        rfl
      · apply (run_bounds_interfaces interfaceBounds goals more _).trans
        simp [Parameter.pieces]

/-- What stands in front of a parameter's first bound is not read as the end of the parameters. -/
theorem step_bounds_parameter (parameter : Parameter)
    (hname : parameter.name.chars.head? ≠ some '>') (more : List Char) :
    step .bounds (parameter.chars id ++ more) = stepParameter (parameter.chars id ++ more) := by
  obtain ⟨c, tail, hchars⟩ := List.exists_cons_of_ne_nil parameter.name.ne_nil
  have hcolon : c ≠ ':' := by
    rintro rfl
    exact parameter.name.notMem (hchars ▸ List.mem_cons_self)
  have hend : c ≠ '>' := by
    rintro rfl
    exact hname (by rw [hchars]; rfl)
  rw [Parameter.chars, hchars, List.cons_append]
  change stepBounds _ = _
  rw [List.cons_append, stepBounds]
  · simp
  · rintro rest ⟨⟩
    exact hcolon rfl
  · rintro rest ⟨⟩
    exact hend rfl

/-- The step at the start of a list of parameters leads to the end of the signature. -/
theorem stepParameter_parameters (first : Parameter) (others : List Parameter)
    (hchain : (first :: others).IsChain Parameter.Precedes) (body : Body) :
    ∃ pieces next rest, stepParameter (first.chars id ++
        (others.flatMap (Parameter.chars id) ++ '>' :: body.chars id)) = .ok (pieces, next, rest) ∧
      ∀ taken, run next rest (pieces.reverse ++ taken) =
        .ok (taken.reverse ++
          ((first :: others).flatMap Parameter.pieces ++ .text ['>'] :: body.pieces)) := by
  induction others generalizing first with
  | nil =>
      obtain ⟨inner, after, rest', hbody, hend⟩ := stepBody_chars body
      have hstep : step .bounds ('>' :: body.chars id) =
          .ok (.text ['>'] :: inner, after, rest') := by
        rw [step, stepBounds, hbody]
        rfl
      obtain ⟨pieces, next, rest, hparameter, hrun⟩ :=
        stepParameter_chars first ('>' :: body.chars id) (.inr rfl)
      refine ⟨pieces, next ++ [], rest, by rw [List.append_nil]; exact hparameter, fun taken => ?_⟩
      apply (hrun [] taken).trans
      apply (run_cons_of_step hstep).trans
      rw [List.append_nil, List.reverse_cons, List.append_assoc, hend]
      simp
  | cons second others ih =>
      obtain ⟨⟨hbounded, hname⟩, hothers⟩ := List.isChain_cons_cons.1 hchain
      obtain ⟨inner, after, rest', hsecond, hend⟩ := ih second hothers
      have hstep := (step_bounds_parameter second hname _).trans hsecond
      obtain ⟨pieces, next, rest, hparameter, hrun⟩ := stepParameter_chars first
        ((second :: others).flatMap (Parameter.chars id) ++ '>' :: body.chars id) (.inl hbounded)
      refine ⟨pieces, next ++ [], rest, by rw [List.append_nil]; exact hparameter, fun taken => ?_⟩
      apply (hrun [] taken).trans
      rw [List.flatMap_cons, List.append_assoc]
      apply (run_cons_of_step hstep).trans
      rw [List.append_nil, hend]
      simp

/-- A sentence is cut into its pieces. -/
theorem run_sentence (sentence : Sentence) :
    run [.whole] (sentence.chars id) [] = .ok sentence.pieces := by
  obtain ⟨parameters, hprecede, body⟩ := sentence
  cases parameters with
  | nil =>
      obtain ⟨pieces, next, rest, hbody, hrun⟩ := stepBody_chars body
      have hstep : step .whole (body.chars id) = .ok (pieces, next, rest) := by
        rw [← hbody, step]
        unfold stepWhole
        split
        · next heq =>
            have hhead := body.head?_chars
            rw [heq] at hhead
            exact absurd rfl hhead
        · rfl
      apply (run_cons_of_step hstep).trans
      rw [List.append_nil, hrun []]
      rfl
  | cons first others =>
      obtain ⟨pieces, next, rest, hfirst, hrun⟩ :=
        stepParameter_parameters first others hprecede body
      have hlist : (⟨first :: others, hprecede, body⟩ : Sentence).chars id =
          '<' :: (first.chars id ++
            (others.flatMap (Parameter.chars id) ++ '>' :: body.chars id)) := by
        simp [Sentence.chars]
      have hstep : step .whole ('<' :: (first.chars id ++
          (others.flatMap (Parameter.chars id) ++ '>' :: body.chars id))) =
            .ok (.text ['<'] :: pieces, next, rest) := by
        rw [step, stepWhole, hfirst]
        rfl
      rw [hlist]
      apply (run_cons_of_step hstep).trans
      rw [List.append_nil, List.reverse_cons, List.append_assoc, hrun]
      rfl

end Complete

section Sound

/-- The pieces that a goal may come to. -/
def Goal.Met : Goal → List Piece → Prop
  | .whole, found => ∃ sentence : Sentence, found = sentence.pieces
  | .type, found => ∃ tree : Tree .type, ∀ outer, found = tree.pieces outer
  | .reference, found => ∃ tree : Tree .reference, ∀ outer, found = tree.pieces outer
  | .classRest outer, found => ∃ tree : Tree .classRest, found = tree.pieces outer
  | .arguments, found => ∃ tree : Tree .arguments, ∀ outer, found = tree.pieces outer
  | .bounds, found =>
      ∃ (bounds : List (Tree .reference)) (parameters : List Parameter) (body : Body),
      parameters.IsChain Parameter.Precedes ∧
        (∀ first ∈ parameters.head?, first.name.chars.head? ≠ some '>') ∧
          found = (bounds.flatMap fun bound => .text [':'] :: bound.pieces "") ++
            (parameters.flatMap Parameter.pieces ++ .text ['>'] :: body.pieces)
  | .parameters, found => ∃ parameters result thrown,
      .text ['('] :: found = (Body.method parameters result thrown).pieces
  | .result, found => ∃ (result : Option (Tree .type)) (thrown : List (Tree .reference)),
      found = result.elim [.text ['V']] (Tree.pieces "") ++
        thrown.flatMap fun type => .text ['^'] :: type.pieces ""
  | .thrown, found => ∃ thrown : List (Tree .reference),
      found = thrown.flatMap fun type => .text ['^'] :: type.pieces ""
  | .supertypes, found => ∃ types : List (Tree .reference), found = types.flatMap (Tree.pieces "")

/-- The pieces that goals come to, one after the other. -/
inductive Meets : List Goal → List Piece → Prop
  | nil : Meets [] []
  | cons {goal : Goal} {goals : List Goal} {found later : List Piece} (hgoal : goal.Met found)
      (hgoals : Meets goals later) : Meets (goal :: goals) (found ++ later)

theorem Meets.eq_nil {found : List Piece} (h : Meets [] found) : found = [] := by
  cases h
  rfl

theorem Meets.of_cons {goal : Goal} {goals : List Goal} {found : List Piece}
    (h : Meets (goal :: goals) found) :
    ∃ first later, found = first ++ later ∧ goal.Met first ∧ Meets goals later := by
  cases h with
  | cons hgoal hgoals => exact ⟨_, _, rfl, hgoal, hgoals⟩

theorem Meets.of_singleton {goal : Goal} {found : List Piece} (h : Meets [goal] found) :
    goal.Met found := by
  obtain ⟨first, later, rfl, hgoal, hnil⟩ := h.of_cons
  rw [hnil.eq_nil, List.append_nil]
  exact hgoal

theorem Meets.of_append {goals others : List Goal} {found : List Piece}
    (h : Meets (goals ++ others) found) :
    ∃ first later, found = first ++ later ∧ Meets goals first ∧ Meets others later := by
  induction goals generalizing found with
  | nil => exact ⟨[], found, rfl, .nil, h⟩
  | cons goal goals ih =>
      obtain ⟨front, back, rfl, hgoal, hback⟩ := Meets.of_cons h
      obtain ⟨first, later, rfl, hfirst, hlater⟩ := ih hback
      exact ⟨front ++ first, later, (List.append_assoc ..).symm, .cons hgoal hfirst, hlater⟩

variable {input rest : List Char} {pieces later : List Piece} {next : List Goal}

theorem stepReference_met (h : stepReference input = .ok (pieces, next, rest))
    (hnext : Meets next later) : Goal.reference.Met (pieces ++ later) := by
  unfold stepReference at h
  split at h
  · cases h
  · obtain ⟨⟨name, tail⟩, htake, h⟩ := Except.bind_eq_ok_iff.1 h
    cases h
    obtain ⟨tree, rfl⟩ := hnext.of_singleton
    exact ⟨.object ⟨name, (takeName_eq_ok_iff.1 htake).1⟩ tree, fun _ => rfl⟩
  · obtain ⟨⟨name, tail⟩, htake, h⟩ := Except.bind_eq_ok_iff.1 h
    cases h
    obtain ⟨hne, hname, -⟩ := takeIdentifier_eq_ok_iff.1 htake
    obtain rfl := hnext.eq_nil
    exact ⟨.typeVariable ⟨name, hne, hname⟩, fun _ => rfl⟩
  · cases h
    obtain ⟨tree, htree⟩ := hnext.of_singleton
    exact ⟨.array tree, fun outer => congrArg _ (htree outer)⟩
  · cases h

theorem stepType_met (h : stepType input = .ok (pieces, next, rest)) (hnext : Meets next later) :
    Goal.type.Met (pieces ++ later) := by
  unfold stepType at h
  split at h
  · cases h
  · next c tail =>
      split at h
      · next hletter =>
          cases h
          obtain ⟨type, htype⟩ := Option.isSome_iff_exists.1 hletter
          obtain rfl := BaseType.ofLetter?_eq_some_iff.1 htype
          obtain rfl := hnext.eq_nil
          exact ⟨.base type, fun _ => rfl⟩
      · obtain ⟨tree, htree⟩ := stepReference_met h hnext
        exact ⟨.ofReference tree, htree⟩

/-- A goal that begins with another goal. -/
theorem before_met {take : List Char → Except SignatureFault Step} {goal first : Goal}
    (hfirst : ∀ {pieces later : List Piece} {next : List Goal},
      take input = .ok (pieces, next, rest) → Meets next later → first.Met (pieces ++ later))
    (h : Step.before goal <$> take input = .ok (pieces, next, rest)) (hnext : Meets next later) :
    ∃ front back, pieces ++ later = front ++ back ∧ first.Met front ∧ goal.Met back := by
  obtain ⟨⟨found, goals, tail⟩, htake, heq⟩ := Except.map_eq_ok_iff.1 h
  cases heq
  obtain ⟨front, back, rfl, hgoals, hgoal⟩ := hnext.of_append
  exact ⟨found ++ front, back, (List.append_assoc ..).symm, hfirst htake hgoals,
    hgoal.of_singleton⟩

theorem stepBody_met (h : stepBody input = .ok (pieces, next, rest)) (hnext : Meets next later) :
    ∃ body : Body, pieces ++ later = body.pieces := by
  unfold stepBody at h
  split at h
  · cases h
    obtain ⟨parameters, result, thrown, hfound⟩ := hnext.of_singleton
    exact ⟨.method parameters result thrown, hfound⟩
  · obtain ⟨front, back, hfound, ⟨type, htype⟩, types, rfl⟩ := before_met stepType_met h hnext
    exact ⟨.plain type types, by rw [hfound, htype ""]; rfl⟩

/-- The pieces of parameters and of what follows them. -/
def parameterPieces (parameters : List Parameter) (body : Body) : List Piece :=
  parameters.flatMap Parameter.pieces ++ .text ['>'] :: body.pieces

/-- A parameter comes before others where its first bound or another one follows it. -/
theorem isChain_cons {first : Parameter} {others : List Parameter}
    (hothers : others.IsChain Parameter.Precedes)
    (hnames : ∀ second ∈ others.head?, second.name.chars.head? ≠ some '>')
    (hbounded : others ≠ [] → first.Bounded) : (first :: others).IsChain Parameter.Precedes := by
  cases others with
  | nil => exact .singleton first
  | cons second others =>
      apply List.isChain_cons_cons.2
      exact ⟨⟨hbounded (List.cons_ne_nil _ _), hnames second rfl⟩, hothers⟩

/-- Where no bound follows the name of a parameter, its parameters end. -/
theorem eq_nil_of_head {parameters : List Parameter} {body : Body} {more tail : List Char}
    {c : Char} (hnames : ∀ first ∈ parameters.head?, first.name.chars.head? ≠ some '>')
    (hc : c = ':' ∨ c = '>')
    (h : (parameterPieces parameters body).flatMap Piece.chars ++ more = c :: tail) :
    parameters = [] := by
  cases parameters with
  | nil => rfl
  | cons first others =>
      obtain ⟨d, others, hchars⟩ := List.exists_cons_of_ne_nil first.name.ne_nil
      have hd : d = c := by
        simp only [parameterPieces, List.flatMap_cons, Parameter.pieces, Piece.chars, hchars,
          List.cons_append] at h
        exact (List.cons.inj h).1
      have hname := hnames first rfl
      have hcolon := first.name.notMem
      rw [hchars, hd] at hname hcolon
      rcases hc with rfl | rfl
      · exact absurd List.mem_cons_self hcolon
      · exact absurd rfl hname

theorem stepParameter_met (h : stepParameter input = .ok (pieces, next, rest))
    (hnext : Meets next later) {more : List Char}
    (hrest : rest = later.flatMap Piece.chars ++ more) :
    ∃ first others body, (first :: others).IsChain Parameter.Precedes ∧
      pieces ++ later = parameterPieces (first :: others) body ∧
        first.name.chars.head? = input.head? := by
  obtain ⟨⟨name, tail⟩, htake, hresult⟩ := Except.bind_eq_ok_iff.1 h
  obtain ⟨hne, hname, rfl⟩ := takeIdentifier_eq_ok_iff.1 htake
  have hhead : name.head? = (name ++ ':' :: tail).head? := by
    obtain ⟨c, others, rfl⟩ := List.exists_cons_of_ne_nil hne
    rfl
  simp only at hresult
  split at hresult
  · cases hresult
  · next c behind =>
      split at hresult
      · next hc =>
          cases hresult
          obtain ⟨bounds, parameters, body, hchain, hnames, rfl⟩ := hnext.of_singleton
          refine ⟨⟨⟨name, hne, hname⟩, none, bounds⟩, parameters, body,
            isChain_cons hchain hnames fun hmore => .inr ?_, ?_, hhead⟩
          · rintro rfl
            exact hmore (eq_nil_of_head hnames (by simpa using hc) hrest.symm)
          · simp [parameterPieces, Parameter.pieces]
      · obtain ⟨⟨inner, goals, after⟩, hstep, hdone⟩ := Except.bind_eq_ok_iff.1 hresult
        cases hdone
        obtain ⟨front, back, rfl, hgoals, hbounds⟩ := hnext.of_append
        obtain ⟨tree, htree⟩ := stepReference_met hstep hgoals
        obtain ⟨bounds, parameters, body, hchain, hnames, rfl⟩ := hbounds.of_singleton
        refine ⟨⟨⟨name, hne, hname⟩, some tree, bounds⟩, parameters, body,
          isChain_cons hchain hnames fun _ => .inl rfl, ?_, hhead⟩
        have hfront := htree ""
        simp [parameterPieces, Parameter.pieces, ← hfront]

theorem stepWhole_met (h : stepWhole input = .ok (pieces, next, rest)) (hnext : Meets next later)
    {more : List Char} (hrest : rest = later.flatMap Piece.chars ++ more) :
    Goal.whole.Met (pieces ++ later) := by
  unfold stepWhole at h
  split at h
  · obtain ⟨⟨inner, goals, after⟩, hstep, h⟩ := Except.bind_eq_ok_iff.1 h
    cases h
    obtain ⟨first, others, body, hchain, hfound, -⟩ := stepParameter_met hstep hnext hrest
    exact ⟨⟨first :: others, hchain, body⟩, congrArg _ hfound⟩
  · obtain ⟨body, hfound⟩ := stepBody_met h hnext
    exact ⟨⟨[], .nil, body⟩, hfound⟩

theorem stepBounds_met (h : stepBounds input = .ok (pieces, next, rest)) (hnext : Meets next later)
    {more : List Char} (hrest : rest = later.flatMap Piece.chars ++ more) :
    Goal.bounds.Met (pieces ++ later) := by
  unfold stepBounds at h
  split at h
  · cases h
  · cases h
    obtain ⟨front, back, rfl, ⟨tree, htree⟩, hback⟩ := hnext.of_cons
    obtain ⟨bounds, parameters, body, hchain, hnames, rfl⟩ := hback.of_singleton
    refine ⟨tree :: bounds, parameters, body, hchain, hnames, ?_⟩
    have hfront := htree ""
    simp [hfront]
  · obtain ⟨⟨inner, goals, after⟩, hstep, h⟩ := Except.bind_eq_ok_iff.1 h
    cases h
    obtain ⟨body, hfound⟩ := stepBody_met hstep hnext
    exact ⟨[], [], body, .nil, by simp, congrArg _ hfound⟩
  · next hend =>
      obtain ⟨first, others, body, hchain, hfound, hhead⟩ := stepParameter_met h hnext hrest
      refine ⟨[], first :: others, body, hchain, ?_, hfound⟩
      rintro _ ⟨⟩ hname
      rw [hhead] at hname
      obtain ⟨tail, htail⟩ := List.head?_eq_some_iff.1 hname
      exact hend tail htail

theorem stepClassRest_met {outer : String}
    (h : stepClassRest outer input = .ok (pieces, next, rest)) (hnext : Meets next later) :
    (Goal.classRest outer).Met (pieces ++ later) := by
  unfold stepClassRest at h
  split at h
  · cases h
  · cases h
    obtain ⟨front, back, rfl, ⟨arguments, harguments⟩, hback⟩ := hnext.of_cons
    obtain ⟨tree, rfl⟩ := hback.of_singleton
    exact ⟨.apply arguments tree, by rw [harguments outer]; rfl⟩
  · obtain ⟨⟨segment, tail⟩, htake, h⟩ := Except.bind_eq_ok_iff.1 h
    cases h
    obtain ⟨tree, rfl⟩ := hnext.of_singleton
    exact ⟨.inner ⟨segment, (takeName_eq_ok_iff.1 htake).1⟩ tree, rfl⟩
  · cases h
    obtain rfl := hnext.eq_nil
    exact ⟨.close, rfl⟩
  · cases h

theorem stepArguments_met (h : stepArguments input = .ok (pieces, next, rest))
    (hnext : Meets next later) : Goal.arguments.Met (pieces ++ later) := by
  have hwildcard : ∀ wildcard : Wildcard, Meets [.reference, .arguments] later →
      Goal.arguments.Met (.text [wildcard.char] :: later) := by
    intro wildcard hlater
    obtain ⟨front, back, rfl, ⟨bound, hbound⟩, hback⟩ := hlater.of_cons
    obtain ⟨tree, htree⟩ := hback.of_singleton
    exact ⟨.bounded wildcard bound tree, fun outer => by rw [hbound outer, htree outer]; rfl⟩
  unfold stepArguments at h
  split at h
  · cases h
  · cases h
    obtain rfl := hnext.eq_nil
    exact ⟨.last, fun _ => rfl⟩
  · cases h
    obtain ⟨tree, htree⟩ := hnext.of_singleton
    exact ⟨.any tree, fun outer => congrArg _ (htree outer)⟩
  · cases h
    exact hwildcard .upper hnext
  · cases h
    exact hwildcard .lower hnext
  · obtain ⟨front, back, hfound, ⟨type, htype⟩, tree, htree⟩ :=
      before_met stepReference_met h hnext
    exact ⟨.argument type tree, fun outer => by rw [hfound, htype outer, htree outer]; rfl⟩

theorem stepParameters_met (h : stepParameters input = .ok (pieces, next, rest))
    (hnext : Meets next later) : Goal.parameters.Met (pieces ++ later) := by
  unfold stepParameters at h
  split at h
  · cases h
  · cases h
    obtain ⟨result, thrown, rfl⟩ := hnext.of_singleton
    exact ⟨[], result, thrown, rfl⟩
  · obtain ⟨front, back, hfound, ⟨type, htype⟩, parameters, result, thrown, hback⟩ :=
      before_met stepType_met h hnext
    refine ⟨type :: parameters, result, thrown, ?_⟩
    rw [hfound, htype ""]
    simp only [Body.pieces, List.flatMap_cons, List.append_assoc, List.cons.injEq,
      true_and] at hback ⊢
    rw [hback]

theorem stepResult_met (h : stepResult input = .ok (pieces, next, rest))
    (hnext : Meets next later) : Goal.result.Met (pieces ++ later) := by
  unfold stepResult at h
  split at h
  · cases h
  · cases h
    obtain ⟨thrown, rfl⟩ := hnext.of_singleton
    exact ⟨none, thrown, rfl⟩
  · obtain ⟨front, back, hfound, ⟨type, htype⟩, thrown, rfl⟩ := before_met stepType_met h hnext
    exact ⟨some type, thrown, by rw [hfound, htype ""]; rfl⟩

theorem stepThrown_met (h : stepThrown input = .ok (pieces, next, rest))
    (hnext : Meets next later) : Goal.thrown.Met (pieces ++ later) := by
  unfold stepThrown at h
  split at h
  · cases h
    obtain ⟨front, back, rfl, ⟨type, htype⟩, hback⟩ := hnext.of_cons
    obtain ⟨thrown, rfl⟩ := hback.of_singleton
    exact ⟨type :: thrown, by rw [htype ""]; rfl⟩
  · cases h
    obtain rfl := hnext.eq_nil
    exact ⟨[], rfl⟩

theorem stepSupertypes_met (h : stepSupertypes input = .ok (pieces, next, rest))
    (hnext : Meets next later) : Goal.supertypes.Met (pieces ++ later) := by
  unfold stepSupertypes at h
  split at h
  · cases h
    obtain rfl := hnext.eq_nil
    exact ⟨[], rfl⟩
  · obtain ⟨front, back, hfound, ⟨type, htype⟩, types, rfl⟩ :=
      before_met stepReference_met h hnext
    exact ⟨type :: types, by rw [hfound, htype ""]; rfl⟩

/-- A goal is met when the goals that replace it are, by what stands behind the step. -/
theorem step_met {goal : Goal} (h : step goal input = .ok (pieces, next, rest))
    (hnext : Meets next later) {more : List Char}
    (hrest : rest = later.flatMap Piece.chars ++ more) : goal.Met (pieces ++ later) := by
  cases goal with
  | whole => exact stepWhole_met h hnext hrest
  | type => exact stepType_met h hnext
  | reference => exact stepReference_met h hnext
  | classRest outer => exact stepClassRest_met h hnext
  | arguments => exact stepArguments_met h hnext
  | bounds => exact stepBounds_met h hnext hrest
  | parameters => exact stepParameters_met h hnext
  | result => exact stepResult_met h hnext
  | thrown => exact stepThrown_met h hnext
  | supertypes => exact stepSupertypes_met h hnext

/-- The pieces that a run takes meet its goals. -/
theorem run_meets {goals : List Goal} {taken found : List Piece}
    (h : run goals input taken = .ok found) :
    ∃ later, Meets goals later ∧ found = taken.reverse ++ later := by
  fun_induction run goals input taken with
  | case1 input taken hempty =>
      cases h
      exact ⟨[], .nil, (List.append_nil _).symm⟩
  | case2 => cases h
  | case3 => cases h
  | case4 input taken goal goals pieces next rest hstep ih =>
      obtain ⟨later, hlater, rfl⟩ := ih h
      have hrest : rest = later.flatMap Piece.chars := by
        have hspell := run_spells h
        rw [List.flatMap_append] at hspell
        exact (List.append_cancel_left hspell).symm
      obtain ⟨front, back, rfl, hnext, hgoals⟩ := hlater.of_append
      rw [List.flatMap_append] at hrest
      refine ⟨pieces ++ front ++ back, .cons (step_met hstep hnext hrest) hgoals, by simp⟩

end Sound

/-- Exactly the texts of sentences are cut into pieces, which are those of the sentence. -/
theorem pieces_eq_ok_iff {text : String} {found : List Piece} :
    pieces text = .ok found ↔
      ∃ sentence : Sentence, sentence.text = text ∧ sentence.pieces = found := by
  constructor
  · intro h
    obtain ⟨later, hlater, rfl⟩ := run_meets (pieces_eq_ok_iff_run.1 h)
    obtain ⟨sentence, rfl⟩ := hlater.of_singleton
    refine ⟨sentence, ?_, rfl⟩
    rw [Sentence.text, ← sentence.spell_rename, Piece.rename_id, List.map_id]
    exact spell_pieces h
  · rintro ⟨sentence, rfl, rfl⟩
    apply pieces_eq_ok_iff_run.2
    rw [Sentence.text, Sentence.rename, String.toList_ofList, run_sentence]

end JarTailor.Signature
