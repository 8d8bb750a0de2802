import JarTailor.Proofs.Descriptor
import JarTailor.Signature
import Mathlib.Data.List.Forall2

/-!
# Signatures with other names in them

What a signature is cut into depends on the names of its classes only in that they are there. With
other names in it, it is cut into the same pieces with these names. Only the leading name of a class
is exchanged: the classes nested in it follow it, whatever is to become of them elsewhere.
-/

namespace JarTailor.Signature

/-- A class name that a signature can hold. -/
def Named (name : String) : Prop :=
  name ≠ "" ∧ ∀ c ∈ name.toList, takeName.inName c = true

/-- New names that a signature can hold. -/
def KeepsNamed (f : String → String) : Prop :=
  ∀ name, Named name → Named (f name)

/-- New names that a signature can hold, where nested classes follow their outer class. -/
structure Follows (f : String → String) : Prop where
  named : KeepsNamed f
  nested : ∀ name segment, f (name ++ "$" ++ segment) = f name ++ "$" ++ segment

/-- What may become of a class that a signature names: it has its new name, or it follows the class
that it is nested in. -/
inductive Becomes (f : String → String) : String → String → Prop
  | renamed (name : String) : Becomes f name (f name)
  | nested {old new : String} (segment : String) (h : Becomes f old new) :
      Becomes f (old ++ "$" ++ segment) (new ++ "$" ++ segment)

theorem Follows.eq_of_becomes {f : String → String} (hf : Follows f) {old new : String}
    (h : Becomes f old new) : new = f old := by
  induction h with
  | renamed name => rfl
  | nested segment _ ih => rw [ih, hf.nested]

def Piece.rename (f : String → String) : Piece → Piece
  | .text chars => .text chars
  | .outer name => .outer (f name)
  | .nested segment joined => .nested segment (f joined)

theorem Piece.rename_id : Piece.rename id = id := by
  funext piece
  cases piece <;> rfl

def Goal.rename (f : String → String) : Goal → Goal
  | .classRest name => .classRest (f name)
  | goal => goal

inductive Piece.Becomes (f : String → String) : Piece → Piece → Prop
  | renamed (piece : Piece) : Piece.Becomes f piece (piece.rename f)
  | nested (segment : String) {old new : String} (h : Signature.Becomes f old new) :
      Piece.Becomes f (.nested segment old) (.nested segment new)

inductive Goal.Becomes (f : String → String) : Goal → Goal → Prop
  | renamed (goal : Goal) : Goal.Becomes f goal (goal.rename f)
  | classRest {old new : String} (h : Signature.Becomes f old new) :
      Goal.Becomes f (.classRest old) (.classRest new)

/-- The characters of pieces with other names. -/
def renamed (f : String → String) (pieces : List Piece) : List Char :=
  (pieces.map (Piece.rename f)).flatMap Piece.chars

theorem takeName_eq_ok_iff {input rest : List Char} {name : String} :
    takeName input = .ok (name, rest) ↔
      Named name ∧ input = name.toList ++ rest ∧
        ∃ c, rest.head? = some c ∧ takeName.inName c = false := by
  constructor
  · intro h
    have hspell := takeName_spells h
    unfold takeName at h
    split at h
    · cases h
    · cases h
    · next hname hrest =>
        cases h
        refine ⟨⟨?_, ?_⟩, hspell.symm, ?_⟩
        · intro hempty
          exact hname (String.ofList_eq_empty_iff.1 hempty)
        · intro c hc
          rw [String.toList_ofList] at hc
          exact List.mem_takeWhile_imp hc
        · have hfirst := List.head?_dropWhile_not takeName.inName input
          cases hdrop : input.dropWhile takeName.inName with
          | nil => exact absurd hdrop hrest
          | cons c tail =>
              rw [hdrop] at hfirst
              exact ⟨c, rfl, by simpa using hfirst⟩
  · rintro ⟨⟨hne, hall⟩, rfl, c, hc, hend⟩
    obtain ⟨tail, rfl⟩ := List.head?_eq_some_iff.1 hc
    have htake : (name.toList ++ c :: tail).takeWhile takeName.inName = name.toList := by
      rw [List.takeWhile_append_of_pos hall, List.takeWhile_cons_of_neg (by simp [hend]),
        List.append_nil]
    have hdrop : (name.toList ++ c :: tail).dropWhile takeName.inName = c :: tail := by
      rw [List.dropWhile_append_of_pos hall, List.dropWhile_cons_of_neg (by simp [hend])]
    unfold takeName
    rw [htake, hdrop]
    split
    · next hnil => cases hnil
    · next hnil _ => exact absurd (String.toList_eq_nil_iff.1 hnil) hne
    · rw [String.ofList_toList]
      rfl

theorem takeIdentifier_eq_ok_iff {terminator : Char} {input name rest : List Char} :
    takeIdentifier terminator input = .ok (name, rest) ↔
      name ≠ [] ∧ terminator ∉ name ∧ input = name ++ terminator :: rest := by
  constructor
  · intro h
    have hspell := takeIdentifier_spells h
    unfold takeIdentifier at h
    split at h
    · cases h
    · cases h
    · next _ hname =>
        cases h
        refine ⟨hname, ?_, hspell.symm⟩
        intro hmem
        simpa using List.mem_takeWhile_imp hmem
  · rintro ⟨hne, hname, rfl⟩
    have hall : ∀ c ∈ name, decide (c ≠ terminator) = true := by
      intro c hc
      rw [decide_eq_true_eq]
      rintro rfl
      exact hname hc
    have htake : (name ++ terminator :: rest).takeWhile (· ≠ terminator) = name := by
      rw [List.takeWhile_append_of_pos hall]
      simp
    have hdrop : (name ++ terminator :: rest).dropWhile (· ≠ terminator) =
        terminator :: rest := by
      rw [List.dropWhile_append_of_pos hall]
      simp
    unfold takeIdentifier
    rw [htake, hdrop]
    split
    · next hnil => cases hnil
    · exact absurd rfl hne
    · next heq =>
        cases heq
        rfl

/-- The second step takes what the first takes with other names in it, whatever follows, as long as
it starts in the same way. -/
def Carries (f : String → String) (first second : List Char → Except SignatureFault Step) : Prop :=
  ∀ ⦃input rest : List Char⦄ ⦃pieces : List Piece⦄ ⦃goals : List Goal⦄,
    first input = .ok (pieces, goals, rest) → ∀ more : List Char, more.head? = rest.head? →
      (renamed f pieces ++ more).head? = input.head? ∧
        second (renamed f pieces ++ more) =
          .ok (pieces.map (Piece.rename f), goals.map (Goal.rename f), more)

section Steps

variable {f : String → String}

theorem stepReference_carries (hf : KeepsNamed f) : Carries f stepReference stepReference := by
  intro input rest pieces goals h more hmore
  unfold stepReference at h
  split at h
  · cases h
  · obtain ⟨⟨name, tail⟩, htake, h⟩ := Except.bind_eq_ok_iff.1 h
    cases h
    obtain ⟨hname, -, hend⟩ := takeName_eq_ok_iff.1 htake
    have hrenamed : takeName ((f name).toList ++ more) = .ok (f name, more) :=
      takeName_eq_ok_iff.2 ⟨hf name hname, rfl, hmore ▸ hend⟩
    have hlist : renamed f [.text ['L'], .outer name] ++ more =
        'L' :: ((f name).toList ++ more) := by
      simp [renamed, Piece.rename, Piece.chars]
    rw [hlist, stepReference, hrenamed]
    exact ⟨rfl, rfl⟩
  · obtain ⟨⟨name, tail⟩, htake, h⟩ := Except.bind_eq_ok_iff.1 h
    cases h
    obtain ⟨hne, hname, -⟩ := takeIdentifier_eq_ok_iff.1 htake
    have hagain : takeIdentifier ';' (name ++ ';' :: more) = .ok (name, more) :=
      takeIdentifier_eq_ok_iff.2 ⟨hne, hname, rfl⟩
    have hlist : renamed f [.text ('T' :: name ++ [';'])] ++ more =
        'T' :: (name ++ ';' :: more) := by
      simp [renamed, Piece.rename, Piece.chars]
    rw [hlist, stepReference, hagain]
    exact ⟨rfl, rfl⟩
  · cases h
    exact ⟨rfl, rfl⟩
  · cases h

theorem stepType_carries (hf : KeepsNamed f) : Carries f stepType stepType := by
  intro input rest pieces goals h more hmore
  unfold stepType at h
  split at h
  · cases h
  · next c tail =>
      split at h
      · next hletter =>
          cases h
          refine ⟨rfl, ?_⟩
          show stepType (c :: more) = _
          rw [stepType, if_pos hletter]
          rfl
      · next hletter =>
          obtain ⟨hhead, hstep⟩ := stepReference_carries hf h more hmore
          refine ⟨hhead, ?_⟩
          obtain ⟨others, hothers⟩ := List.head?_eq_some_iff.1 hhead
          rw [hothers] at hstep ⊢
          rw [stepType, if_neg hletter]
          exact hstep

theorem Carries.before {first second : List Char → Except SignatureFault Step}
    (h : Carries f first second) (goal : Goal) (hgoal : goal.rename f = goal) :
    Carries f (fun input => Step.before goal <$> first input)
      (fun input => Step.before goal <$> second input) := by
  intro input rest pieces goals hstep more hmore
  obtain ⟨⟨found, next, tail⟩, hfirst, hbefore⟩ := Except.map_eq_ok_iff.1 hstep
  cases hbefore
  obtain ⟨hhead, hsecond⟩ := h hfirst more hmore
  refine ⟨hhead, ?_⟩
  show Step.before goal <$> second _ = _
  rw [hsecond]
  show Except.ok (_, next.map (Goal.rename f) ++ [goal], more) = _
  rw [List.map_append, List.map_singleton, hgoal]

theorem stepParameter_carries (hf : KeepsNamed f) : Carries f stepParameter stepParameter := by
  intro input rest pieces goals h more hmore
  obtain ⟨⟨name, tail⟩, htake, hresult⟩ := Except.bind_eq_ok_iff.1 h
  obtain ⟨hne, hname, rfl⟩ := takeIdentifier_eq_ok_iff.1 htake
  obtain ⟨first, others, rfl⟩ := List.exists_cons_of_ne_nil hne
  have hagain : ∀ behind : List Char,
      takeIdentifier ':' (first :: others ++ ':' :: behind) = .ok (first :: others, behind) :=
    fun behind => takeIdentifier_eq_ok_iff.2 ⟨hne, hname, rfl⟩
  simp only at hresult
  split at hresult
  · cases hresult
  · next c behind =>
      split at hresult
      · next hc =>
          cases hresult
          obtain ⟨after, rfl⟩ := List.head?_eq_some_iff.1 hmore
          have hlist : renamed f [.text (first :: others ++ [':'])] ++ c :: after =
              first :: others ++ ':' :: c :: after := by
            simp [renamed, Piece.rename, Piece.chars]
          rw [hlist, stepParameter, hagain]
          refine ⟨rfl, ?_⟩
          show (if c = ':' || c = '>' then _ else _) = _
          rw [if_pos hc]
          rfl
      · next hc =>
          obtain ⟨⟨inner, next, after⟩, hstep, hdone⟩ := Except.bind_eq_ok_iff.1 hresult
          cases hdone
          obtain ⟨hhead, hcarried⟩ := stepReference_carries hf hstep more hmore
          obtain ⟨after, hafter⟩ := List.head?_eq_some_iff.1 hhead
          have hlist : renamed f (.text (first :: others ++ [':']) :: inner) ++ more =
              first :: others ++ ':' :: c :: after := by
            rw [← hafter]
            simp [renamed, Piece.rename, Piece.chars]
          rw [hafter] at hcarried
          rw [hlist, stepParameter, hagain]
          refine ⟨rfl, ?_⟩
          show (if c = ':' || c = '>' then _ else _) = _
          rw [if_neg hc, hcarried]
          show Except.ok (_, next.map (Goal.rename f) ++ [.bounds], more) = _
          rw [List.map_append]
          rfl

theorem stepBody_carries (hf : KeepsNamed f) : Carries f stepBody stepBody := by
  intro input rest pieces goals h more hmore
  unfold stepBody at h
  split at h
  · cases h
    exact ⟨rfl, rfl⟩
  · next hother =>
      obtain ⟨hhead, hcarried⟩ :=
        (stepType_carries hf).before .supertypes rfl h more hmore
      refine ⟨hhead, ?_⟩
      unfold stepBody
      split
      · next heq =>
          rw [heq] at hhead
          obtain ⟨tail, htail⟩ := List.head?_eq_some_iff.1 hhead.symm
          exact absurd htail (hother tail)
      · exact hcarried

theorem renamed_append (front back : List Piece) :
    renamed f (front ++ back) = renamed f front ++ renamed f back := by
  simp [renamed]

/-- Text in front of what a step takes. -/
theorem renamed_cons_text (chars : List Char) (pieces : List Piece) (more : List Char) :
    renamed f (.text chars :: pieces) ++ more = chars ++ (renamed f pieces ++ more) := by
  simp [renamed, Piece.rename, Piece.chars]

theorem stepWhole_carries (hf : KeepsNamed f) : Carries f stepWhole stepWhole := by
  intro input rest pieces goals h more hmore
  unfold stepWhole at h
  split at h
  · obtain ⟨⟨inner, next, tail⟩, hstep, h⟩ := Except.bind_eq_ok_iff.1 h
    cases h
    obtain ⟨-, hcarried⟩ := stepParameter_carries hf hstep more hmore
    rw [renamed_cons_text, List.singleton_append, stepWhole, hcarried]
    exact ⟨rfl, rfl⟩
  · next hother =>
      obtain ⟨hhead, hcarried⟩ := stepBody_carries hf h more hmore
      refine ⟨hhead, ?_⟩
      unfold stepWhole
      split
      · next heq =>
          rw [heq] at hhead
          obtain ⟨tail, htail⟩ := List.head?_eq_some_iff.1 hhead.symm
          exact absurd htail (hother tail)
      · exact hcarried

theorem forall₂_renamed {α : Type} {g : α → α} {related : α → α → Prop}
    (h : ∀ value, related value (g value)) (values : List α) :
    List.Forall₂ related values (values.map g) :=
  List.forall₂_map_right_iff.2 (List.forall₂_same.2 fun value _ => h value)

/-- After a class with another name, the classes nested in it follow it. -/
theorem stepClassRest_becomes {old new : String} (hnew : Becomes f old new)
    {input rest : List Char} {pieces : List Piece} {goals : List Goal}
    (h : stepClassRest old input = .ok (pieces, goals, rest)) :
    ∃ pieces' goals', List.Forall₂ (Piece.Becomes f) pieces pieces' ∧
      List.Forall₂ (Goal.Becomes f) goals goals' ∧ ∀ more : List Char, more.head? = rest.head? →
        (renamed f pieces ++ more).head? = input.head? ∧
          stepClassRest new (renamed f pieces ++ more) = .ok (pieces', goals', more) := by
  have hsame : ∀ pieces : List Piece,
      List.Forall₂ (Piece.Becomes f) pieces (pieces.map (Piece.rename f)) :=
    forall₂_renamed .renamed
  have hclass : List.Forall₂ (Goal.Becomes f) [.classRest old] [.classRest new] :=
    .cons (.classRest hnew) .nil
  unfold stepClassRest at h
  split at h
  · cases h
  · cases h
    exact ⟨_, _, hsame _, .cons (.renamed .arguments) hclass, fun more _ => ⟨rfl, rfl⟩⟩
  · obtain ⟨⟨segment, tail⟩, htake, h⟩ := Except.bind_eq_ok_iff.1 h
    cases h
    obtain ⟨hsegment, -, hend⟩ := takeName_eq_ok_iff.1 htake
    have hnested : Becomes f s!"{old}${segment}" s!"{new}${segment}" := .nested segment hnew
    refine ⟨_, _, .cons (.renamed (.text ['.'])) (.cons (.nested segment hnested) .nil),
      .cons (.classRest hnested) .nil, fun more hmore => ?_⟩
    have hagain : takeName (segment.toList ++ more) = .ok (segment, more) :=
      takeName_eq_ok_iff.2 ⟨hsegment, rfl, hmore ▸ hend⟩
    have hlist : renamed f [.text ['.'], .nested segment s!"{old}${segment}"] ++ more =
        '.' :: (segment.toList ++ more) := by
      simp [renamed, Piece.rename, Piece.chars]
    rw [hlist, stepClassRest, hagain]
    exact ⟨rfl, rfl⟩
  · cases h
    exact ⟨_, _, hsame _, .nil, fun more _ => ⟨rfl, rfl⟩⟩
  · cases h

/-- Whether a list starts with a character does not depend on what follows. -/
theorem ne_cons_of_ne_cons {c d : Char} {tail others : List Char}
    (h : ∀ rest, c :: tail = d :: rest → False) : ∀ rest, c :: others = d :: rest → False := by
  rintro rest ⟨⟩
  exact h tail rfl

theorem stepArguments_carries (hf : KeepsNamed f) : Carries f stepArguments stepArguments := by
  intro input rest pieces goals h more hmore
  unfold stepArguments at h
  split at h
  · cases h
  · cases h
    exact ⟨rfl, rfl⟩
  · cases h
    exact ⟨rfl, rfl⟩
  · cases h
    exact ⟨rfl, rfl⟩
  · cases h
    exact ⟨rfl, rfl⟩
  · next hnil hend hany hupper hlower =>
      obtain ⟨hhead, hcarried⟩ :=
        (stepReference_carries hf).before .arguments rfl h more hmore
      refine ⟨hhead, ?_⟩
      obtain ⟨c, tail, rfl⟩ := List.exists_cons_of_ne_nil hnil
      obtain ⟨others, hothers⟩ := List.head?_eq_some_iff.1 hhead
      rw [hothers] at hcarried ⊢
      rw [stepArguments]
      · exact hcarried
      · simp
      · exact ne_cons_of_ne_cons hend
      · exact ne_cons_of_ne_cons hany
      · exact ne_cons_of_ne_cons hupper
      · exact ne_cons_of_ne_cons hlower

theorem stepBounds_carries (hf : KeepsNamed f) : Carries f stepBounds stepBounds := by
  intro input rest pieces goals h more hmore
  unfold stepBounds at h
  split at h
  · cases h
  · cases h
    exact ⟨rfl, rfl⟩
  · obtain ⟨⟨inner, next, tail⟩, hstep, h⟩ := Except.bind_eq_ok_iff.1 h
    cases h
    obtain ⟨-, hcarried⟩ := stepBody_carries hf hstep more hmore
    rw [renamed_cons_text, List.singleton_append, stepBounds, hcarried]
    exact ⟨rfl, rfl⟩
  · next hnil hcolon hend =>
      obtain ⟨hhead, hcarried⟩ := stepParameter_carries hf h more hmore
      refine ⟨hhead, ?_⟩
      obtain ⟨c, tail, rfl⟩ := List.exists_cons_of_ne_nil hnil
      obtain ⟨others, hothers⟩ := List.head?_eq_some_iff.1 hhead
      rw [hothers] at hcarried ⊢
      rw [stepBounds]
      · exact hcarried
      · simp
      · exact ne_cons_of_ne_cons hcolon
      · exact ne_cons_of_ne_cons hend

theorem stepParameters_carries (hf : KeepsNamed f) : Carries f stepParameters stepParameters := by
  intro input rest pieces goals h more hmore
  unfold stepParameters at h
  split at h
  · cases h
  · cases h
    exact ⟨rfl, rfl⟩
  · next hnil hend =>
      obtain ⟨hhead, hcarried⟩ :=
        (stepType_carries hf).before .parameters rfl h more hmore
      refine ⟨hhead, ?_⟩
      obtain ⟨c, tail, rfl⟩ := List.exists_cons_of_ne_nil hnil
      obtain ⟨others, hothers⟩ := List.head?_eq_some_iff.1 hhead
      rw [hothers] at hcarried ⊢
      rw [stepParameters]
      · exact hcarried
      · simp
      · exact ne_cons_of_ne_cons hend

theorem stepResult_carries (hf : KeepsNamed f) : Carries f stepResult stepResult := by
  intro input rest pieces goals h more hmore
  unfold stepResult at h
  split at h
  · cases h
  · cases h
    exact ⟨rfl, rfl⟩
  · next hnil hvoid =>
      obtain ⟨hhead, hcarried⟩ :=
        (stepType_carries hf).before .thrown rfl h more hmore
      refine ⟨hhead, ?_⟩
      obtain ⟨c, tail, rfl⟩ := List.exists_cons_of_ne_nil hnil
      obtain ⟨others, hothers⟩ := List.head?_eq_some_iff.1 hhead
      rw [hothers] at hcarried ⊢
      rw [stepResult]
      · exact hcarried
      · simp
      · exact ne_cons_of_ne_cons hvoid

theorem stepThrown_carries : Carries f stepThrown stepThrown := by
  intro input rest pieces goals h more hmore
  unfold stepThrown at h
  split at h
  · cases h
    exact ⟨rfl, rfl⟩
  · next hother =>
      cases h
      refine ⟨hmore, ?_⟩
      show stepThrown more = _
      unfold stepThrown
      split
      · next tail =>
          obtain ⟨found, hfound⟩ := List.head?_eq_some_iff.1 hmore.symm
          exact absurd hfound (hother found)
      · rfl

theorem stepSupertypes_carries (hf : KeepsNamed f) : Carries f stepSupertypes stepSupertypes := by
  intro input rest pieces goals h more hmore
  unfold stepSupertypes at h
  split at h
  · cases h
    refine ⟨hmore, ?_⟩
    obtain rfl := List.head?_eq_none_iff.1 hmore
    rfl
  · next hnil =>
      obtain ⟨hhead, hcarried⟩ :=
        (stepReference_carries hf).before .supertypes rfl h more hmore
      refine ⟨hhead, ?_⟩
      obtain ⟨c, tail, rfl⟩ := List.exists_cons_of_ne_nil hnil
      obtain ⟨others, hothers⟩ := List.head?_eq_some_iff.1 hhead
      rw [hothers] at hcarried ⊢
      rw [stepSupertypes]
      · exact hcarried
      · simp

/-- Every goal but the rest of a class takes the same step. -/
theorem step_carries (hf : KeepsNamed f) {goal : Goal} (hgoal : ∀ name, goal ≠ .classRest name) :
    Carries f (step goal) (step (goal.rename f)) := by
  cases goal with
  | whole => exact stepWhole_carries hf
  | type => exact stepType_carries hf
  | reference => exact stepReference_carries hf
  | classRest name => exact absurd rfl (hgoal name)
  | arguments => exact stepArguments_carries hf
  | bounds => exact stepBounds_carries hf
  | parameters => exact stepParameters_carries hf
  | result => exact stepResult_carries hf
  | thrown => exact stepThrown_carries
  | supertypes => exact stepSupertypes_carries hf

theorem step_becomes (hf : KeepsNamed f) {goal goal' : Goal} (hnew : goal.Becomes f goal')
    {input rest : List Char} {pieces : List Piece} {goals : List Goal}
    (h : step goal input = .ok (pieces, goals, rest)) :
    ∃ pieces' goals', List.Forall₂ (Piece.Becomes f) pieces pieces' ∧
      List.Forall₂ (Goal.Becomes f) goals goals' ∧ ∀ more : List Char, more.head? = rest.head? →
        (renamed f pieces ++ more).head? = input.head? ∧
          step goal' (renamed f pieces ++ more) = .ok (pieces', goals', more) := by
  cases hnew with
  | classRest hnew => exact stepClassRest_becomes hnew h
  | renamed =>
      by_cases hgoal : ∀ name, goal ≠ .classRest name
      · exact ⟨_, _, forall₂_renamed .renamed pieces, forall₂_renamed .renamed goals,
          step_carries hf hgoal h⟩
      · obtain ⟨name, rfl⟩ := not_forall_not.1 hgoal
        exact stepClassRest_becomes (.renamed name) h

end Steps

section Runs

variable {f : String → String}

theorem run_cons_of_step {goal : Goal} {goals next : List Goal} {input rest : List Char}
    {pieces taken : List Piece} (h : step goal input = .ok (pieces, next, rest)) :
    run (goal :: goals) input taken = run (next ++ goals) rest (pieces.reverse ++ taken) := by
  rw [run]
  split
  · next hfault =>
      rw [h] at hfault
      cases hfault
  · next heq =>
      rw [h] at heq
      cases heq
      rfl

theorem run_cons_of_error {goal : Goal} {goals : List Goal} {input : List Char}
    {taken : List Piece} {fault : SignatureFault} (h : step goal input = .error fault) :
    run (goal :: goals) input taken = .error fault := by
  rw [run]
  split
  · next heq =>
      rw [h] at heq
      cases heq
      rfl
  · next heq =>
      rw [h] at heq
      cases heq

/-- A goal that begins with another goal. -/
theorem run_before {goal first next : Goal} {goals : List Goal} {input : List Char}
    {taken : List Piece} (h : step goal input = Step.before next <$> step first input) :
    run (goal :: goals) input taken = run (first :: next :: goals) input taken := by
  cases hfirst : step first input with
  | error fault =>
      rw [hfirst] at h
      rw [run_cons_of_error h, run_cons_of_error hfirst]
  | ok found =>
      obtain ⟨pieces, inner, rest⟩ := found
      rw [hfirst] at h
      rw [run_cons_of_step h, run_cons_of_step hfirst, List.append_assoc]
      rfl

theorem run_nil (taken : List Piece) : run [] [] taken = .ok taken.reverse := by
  rw [run]
  rfl

/-- The pieces that a run takes are those that it takes with other names in its input. -/
theorem run_becomes (hf : KeepsNamed f) {goals goals' : List Goal} {input : List Char}
    {taken taken' found : List Piece} (hgoals : List.Forall₂ (Goal.Becomes f) goals goals')
    (htaken : List.Forall₂ (Piece.Becomes f) taken taken') (h : run goals input taken = .ok found) :
    ∃ pieces, found = taken.reverse ++ pieces ∧ (renamed f pieces).head? = input.head? ∧
      ∃ found', List.Forall₂ (Piece.Becomes f) found found' ∧
        run goals' (renamed f pieces) taken' = .ok found' := by
  fun_induction run goals input taken generalizing goals' taken' with
  | case1 input taken hempty =>
      cases h
      cases hgoals
      obtain rfl := List.isEmpty_iff.1 hempty
      refine ⟨[], (List.append_nil _).symm, rfl, taken'.reverse,
        List.forall₂_reverse_iff.2 htaken, ?_⟩
      rw [run]
      rfl
  | case2 => cases h
  | case3 => cases h
  | case4 input taken goal goals pieces next rest hstep ih =>
      obtain ⟨goal', others', hgoal, hothers, rfl⟩ := List.forall₂_cons_left_iff.1 hgoals
      obtain ⟨pieces', next', hpieces, hnext, hcarried⟩ := step_becomes hf hgoal hstep
      obtain ⟨later, rfl, hhead, found', hfound, hrun⟩ := ih (List.rel_append hnext hothers)
        (List.rel_append (List.forall₂_reverse_iff.2 hpieces) htaken) h
      obtain ⟨hinput, hcarried⟩ := hcarried (renamed f later) hhead
      refine ⟨pieces ++ later, by simp, by rw [renamed_append, hinput], found', hfound, ?_⟩
      rw [renamed_append, run_cons_of_step hcarried, hrun]

theorem pieces_eq_ok_iff_run {text : String} {found : List Piece} :
    pieces text = .ok found ↔ run [.whole] text.toList [] = .ok found := by
  unfold pieces
  cases run [.whole] text.toList [] with
  | error fault =>
      constructor
      · rintro ⟨⟩
      · rintro ⟨⟩
  | ok pieces =>
      constructor
      · rintro ⟨⟩
        rfl
      · rintro ⟨⟩
        rfl

/-- A signature with other names in it is cut into the same pieces with these names. -/
theorem pieces_becomes (hf : KeepsNamed f) {text : String} {found : List Piece}
    (h : pieces text = .ok found) :
    ∃ found', List.Forall₂ (Piece.Becomes f) found found' ∧
      pieces (spell (found.map (Piece.rename f))) = .ok found' := by
  have hrun := pieces_eq_ok_iff_run.1 h
  have hwhole : List.Forall₂ (Goal.Becomes f) [.whole] [.whole] := .cons (.renamed .whole) .nil
  obtain ⟨all, hall, -, found', hfound, hrenamed⟩ := run_becomes hf hwhole .nil hrun
  obtain rfl : found = all := hall
  have hlist : (spell (found.map (Piece.rename f))).toList = renamed f found := by
    rw [spell, String.toList_ofList, renamed]
  refine ⟨found', hfound, pieces_eq_ok_iff_run.2 ?_⟩
  rw [hlist, hrenamed]

theorem related_classNames {pieces pieces' : List Piece}
    (h : List.Forall₂ (Piece.Becomes f) pieces pieces') :
    List.Forall₂ (Becomes f) (classNames pieces) (classNames pieces') := by
  induction h with
  | nil => exact .nil
  | @cons piece _ _ _ hpiece _ ih =>
      cases hpiece with
      | nested segment hnew => exact .cons hnew ih
      | renamed =>
          cases piece with
          | text chars => exact ih
          | outer name => exact .cons (.renamed name) ih
          | nested segment joined => exact .cons (.renamed joined) ih

end Runs

section Names

variable {holds : String → Prop}

/-- The names that a step reports hold, and so do those it goes on with. -/
def Step.NamesHold (holds : String → Prop) (step : Step) : Prop :=
  (∀ name ∈ classNames step.1, holds name) ∧ ∀ name, .classRest name ∈ step.2.1 → holds name

theorem Step.NamesHold.before {step : Step} (h : step.NamesHold holds) (goal : Goal)
    (hgoal : ∀ name, goal ≠ .classRest name) : (step.before goal).NamesHold holds := by
  refine ⟨h.1, fun name hname => ?_⟩
  rcases List.mem_append.1 hname with hname | hname
  · exact h.2 name hname
  · exact absurd (List.mem_singleton.1 hname).symm (hgoal name)

theorem namesHold_text {chars : List Char} {goals : List Goal} {rest : List Char}
    (hgoals : ∀ name, .classRest name ∉ goals) :
    Step.NamesHold holds ([.text chars], goals, rest) :=
  ⟨by simp [classNames, Piece.className?], fun name h => absurd h (hgoals name)⟩

theorem namesHold_nil {rest : List Char} : Step.NamesHold holds ([], [], rest) :=
  ⟨by simp [classNames], by simp⟩

theorem Step.NamesHold.after {pieces : List Piece} {goals : List Goal} {rest : List Char}
    (h : Step.NamesHold holds (pieces, goals, rest)) (chars : List Char) :
    Step.NamesHold holds (.text chars :: pieces, goals, rest) :=
  h

theorem stepReference_namesHold (hnamed : ∀ name, Named name → holds name) {input : List Char}
    {result : Step} (h : stepReference input = .ok result) : result.NamesHold holds := by
  unfold stepReference at h
  split at h
  · cases h
  · obtain ⟨⟨name, rest⟩, htake, h⟩ := Except.bind_eq_ok_iff.1 h
    cases h
    have hholds : holds name := hnamed name (takeName_eq_ok_iff.1 htake).1
    constructor
    · intro other hother
      rwa [List.mem_singleton.1 hother]
    · intro other hother
      cases List.mem_singleton.1 hother
      exact hholds
  · obtain ⟨⟨name, rest⟩, -, h⟩ := Except.bind_eq_ok_iff.1 h
    cases h
    exact namesHold_text (by simp)
  · cases h
    exact namesHold_text (by simp)
  · cases h

theorem stepType_namesHold (hnamed : ∀ name, Named name → holds name) {input : List Char}
    {result : Step} (h : stepType input = .ok result) : result.NamesHold holds := by
  unfold stepType at h
  split at h
  · cases h
  · split at h
    · cases h
      exact namesHold_text (by simp)
    · exact stepReference_namesHold hnamed h

theorem stepParameter_namesHold (hnamed : ∀ name, Named name → holds name) {input : List Char}
    {result : Step} (h : stepParameter input = .ok result) : result.NamesHold holds := by
  obtain ⟨⟨name, rest⟩, -, hresult⟩ := Except.bind_eq_ok_iff.1 h
  simp only at hresult
  split at hresult
  · cases hresult
  · split at hresult
    · cases hresult
      exact namesHold_text (by simp)
    · obtain ⟨⟨pieces, goals, rest⟩, hstep, hdone⟩ := Except.bind_eq_ok_iff.1 hresult
      cases hdone
      have hinner := (stepReference_namesHold hnamed hstep).before .bounds (by simp)
      exact hinner.after _

theorem stepBody_namesHold (hnamed : ∀ name, Named name → holds name) {input : List Char}
    {result : Step} (h : stepBody input = .ok result) : result.NamesHold holds := by
  unfold stepBody at h
  split at h
  · cases h
    exact namesHold_text (by simp)
  · obtain ⟨found, hstep, rfl⟩ := Except.map_eq_ok_iff.1 h
    exact (stepType_namesHold hnamed hstep).before _ (by simp)

theorem stepClassRest_namesHold
    (hnested : ∀ name segment, holds name → Named segment → holds (name ++ "$" ++ segment))
    {name : String} (hname : holds name) {input : List Char} {result : Step}
    (h : stepClassRest name input = .ok result) : result.NamesHold holds := by
  unfold stepClassRest at h
  split at h
  · cases h
  · cases h
    refine ⟨by simp [classNames, Piece.className?], fun other hother => ?_⟩
    rcases List.mem_cons.1 hother with hother | hother
    · cases hother
    · cases List.mem_singleton.1 hother
      exact hname
  · obtain ⟨⟨segment, rest⟩, htake, h⟩ := Except.bind_eq_ok_iff.1 h
    cases h
    have hholds : holds s!"{name}${segment}" :=
      hnested name segment hname (takeName_eq_ok_iff.1 htake).1
    constructor
    · intro other hother
      rwa [List.mem_singleton.1 hother]
    · intro other hother
      cases List.mem_singleton.1 hother
      exact hholds
  · cases h
    exact namesHold_text (by simp)
  · cases h

theorem step_namesHold (hnamed : ∀ name, Named name → holds name)
    (hnested : ∀ name segment, holds name → Named segment → holds (name ++ "$" ++ segment))
    {goal : Goal} (hgoal : ∀ name, goal = .classRest name → holds name) {input : List Char}
    {result : Step} (h : step goal input = .ok result) : result.NamesHold holds := by
  cases goal with
  | whole =>
      simp only [step, stepWhole] at h
      split at h
      · obtain ⟨⟨pieces, goals, rest⟩, hstep, hdone⟩ := Except.bind_eq_ok_iff.1 h
        cases hdone
        exact (stepParameter_namesHold hnamed hstep).after _
      · exact stepBody_namesHold hnamed h
  | type => exact stepType_namesHold hnamed h
  | reference => exact stepReference_namesHold hnamed h
  | classRest name => exact stepClassRest_namesHold hnested (hgoal name rfl) h
  | arguments =>
      simp only [step] at h
      unfold stepArguments at h
      split at h
      · cases h
      · cases h
        exact namesHold_text (by simp)
      · cases h
        exact namesHold_text (by simp)
      · cases h
        exact namesHold_text (by simp)
      · cases h
        exact namesHold_text (by simp)
      · obtain ⟨found, hstep, rfl⟩ := Except.map_eq_ok_iff.1 h
        exact (stepReference_namesHold hnamed hstep).before _ (by simp)
  | bounds =>
      simp only [step] at h
      unfold stepBounds at h
      split at h
      · cases h
      · cases h
        exact namesHold_text (by simp)
      · obtain ⟨⟨pieces, goals, rest⟩, hstep, hdone⟩ := Except.bind_eq_ok_iff.1 h
        cases hdone
        exact (stepBody_namesHold hnamed hstep).after _
      · exact stepParameter_namesHold hnamed h
  | parameters =>
      simp only [step] at h
      unfold stepParameters at h
      split at h
      · cases h
      · cases h
        exact namesHold_text (by simp)
      · obtain ⟨found, hstep, rfl⟩ := Except.map_eq_ok_iff.1 h
        exact (stepType_namesHold hnamed hstep).before _ (by simp)
  | result =>
      simp only [step] at h
      unfold stepResult at h
      split at h
      · cases h
      · cases h
        exact namesHold_text (by simp)
      · obtain ⟨found, hstep, rfl⟩ := Except.map_eq_ok_iff.1 h
        exact (stepType_namesHold hnamed hstep).before _ (by simp)
  | thrown =>
      simp only [step, stepThrown] at h
      split at h
      · cases h
        exact namesHold_text (by simp)
      · cases h
        exact namesHold_nil
  | supertypes =>
      simp only [step, stepSupertypes] at h
      split at h
      · cases h
        exact namesHold_nil
      · obtain ⟨found, hstep, rfl⟩ := Except.map_eq_ok_iff.1 h
        exact (stepReference_namesHold hnamed hstep).before _ (by simp)

theorem run_namesHold (hnamed : ∀ name, Named name → holds name)
    (hnested : ∀ name segment, holds name → Named segment → holds (name ++ "$" ++ segment))
    {goals : List Goal} {input : List Char} {taken found : List Piece}
    (hgoals : ∀ name, .classRest name ∈ goals → holds name)
    (htaken : ∀ name ∈ classNames taken, holds name) (h : run goals input taken = .ok found) :
    ∀ name ∈ classNames found, holds name := by
  fun_induction run goals input taken with
  | case1 input taken =>
      cases h
      intro name hname
      rw [classNames, List.filterMap_reverse, List.mem_reverse] at hname
      exact htaken name hname
  | case2 => cases h
  | case3 => cases h
  | case4 input taken goal goals pieces next rest hstep ih =>
      obtain ⟨hpieces, hnext⟩ := step_namesHold hnamed hnested
        (fun name hname => hgoals name (hname ▸ List.mem_cons_self)) hstep
      refine ih (fun name hname => ?_) (fun name hname => ?_) h
      · rcases List.mem_append.1 hname with hname | hname
        · exact hnext name hname
        · exact hgoals name (List.mem_cons_of_mem _ hname)
      · rw [classNames, List.filterMap_append, List.filterMap_reverse] at hname
        rcases List.mem_append.1 hname with hname | hname
        · exact hpieces name (List.mem_reverse.1 hname)
        · exact htaken name hname

/-- What holds of the names that a signature can hold, and of those of nested classes, holds of
every class that a signature names. -/
theorem classNames_hold (hnamed : ∀ name, Named name → holds name)
    (hnested : ∀ name segment, holds name → Named segment → holds (name ++ "$" ++ segment))
    {text : String} {found : List Piece} (h : pieces text = .ok found) :
    ∀ name ∈ classNames found, holds name :=
  run_namesHold hnamed hnested (by simp) (by simp [classNames]) (pieces_eq_ok_iff_run.1 h)

end Names

section Map

variable {g : String → Option String}

/-- What `mapNamesM` writes in place of a piece has the characters of the piece with the new
name. -/
theorem chars_getD_one (piece : Piece) :
    ((mapNamesM.one (m := Id) g piece : Option Piece).getD piece).chars =
      (piece.rename fun name => (g name).getD name).chars := by
  cases piece with
  | text chars => rfl
  | outer name =>
      show ((Option.map Piece.outer (g name)).getD _).chars = _
      cases hname : g name with
      | none => simp [Piece.rename, hname]
      | some renamed => simp [Piece.rename, hname]
  | nested segment joined => rfl

theorem flatMap_chars_zipWith (pieces : List Piece) :
    (List.zipWith (fun old new => new.getD old) pieces
        (pieces.map fun piece => (mapNamesM.one (m := Id) g piece : Option Piece))).flatMap
          Piece.chars =
      renamed (fun name => (g name).getD name) pieces := by
  induction pieces with
  | nil => rfl
  | cons piece pieces ih =>
      rw [List.map_cons, List.zipWith_cons_cons, List.flatMap_cons, ih, chars_getD_one, renamed,
        renamed, List.map_cons, List.flatMap_cons]

theorem flatMap_chars_of_none {pieces : List Piece}
    (h : ∀ piece ∈ pieces, (mapNamesM.one (m := Id) g piece : Option Piece) = none) :
    pieces.flatMap Piece.chars = renamed (fun name => (g name).getD name) pieces := by
  induction pieces with
  | nil => rfl
  | cons piece pieces ih =>
      have hpiece := chars_getD_one (g := g) piece
      rw [h piece List.mem_cons_self, Option.getD_none] at hpiece
      rw [List.flatMap_cons, hpiece, ih fun other hother => h other (List.mem_cons_of_mem _ hother),
        renamed, renamed, List.map_cons, List.flatMap_cons]

theorem mapNamesM_id (pieces : List Piece) :
    (mapNamesM (m := Id) g pieces : Option (List Piece)) =
      let new := pieces.map fun piece => (mapNamesM.one (m := Id) g piece : Option Piece)
      if new.any Option.isSome then
        some (List.zipWith (fun old new => new.getD old) pieces new)
      else none := by
  have hmapM : pieces.mapM (m := Id) (mapNamesM.one g) =
      pieces.map fun piece => (mapNamesM.one (m := Id) g piece : Option Piece) := by
    induction pieces with
    | nil => rfl
    | cons piece pieces ih =>
        rw [List.mapM_cons, ih]
        rfl
  rw [mapNamesM, hmapM]
  rfl

/-- Whether or not a name changes, the text is that of the pieces with the new names. -/
theorem getD_mapNamesM (pieces : List Piece) :
    (Option.map spell (mapNamesM (m := Id) g pieces)).getD (spell pieces) =
      spell (pieces.map (Piece.rename fun name => (g name).getD name)) := by
  rw [mapNamesM_id]
  simp only
  split
  · rw [Option.map_some, Option.getD_some, spell, flatMap_chars_zipWith]
    rfl
  · next hnone =>
      rw [Bool.not_eq_true, List.any_eq_false] at hnone
      rw [Option.map_none, Option.getD_none, spell, spell]
      refine congrArg String.ofList (flatMap_chars_of_none fun piece hpiece => ?_)
      have hfalse := hnone _ (List.mem_map_of_mem hpiece)
      rwa [Option.not_isSome_iff_eq_none] at hfalse

end Map

end JarTailor.Signature
