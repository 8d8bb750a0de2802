import JarTailor.Descriptor
import JarTailor.Text.Utf8

/-!
# Generic signatures

A signature is cut into pieces: text that stays as it is, the leading names of its classes, and
the names of nested classes, which are only reported because they follow their outer class. The
pieces spell the signature (`spell_pieces`).

What a signature may be is a table: `step` looks at the first characters and says, for the goal at
hand, which pieces they are and which goals replace it. `step_takes` says that a step either takes
characters or drops its goal, so `run` ends.
-/

namespace JarTailor.Signature

inductive Piece where
  | text (chars : List Char)
  /-- The leading name of a class. -/
  | outer (name : String)
  /-- A nested name as written, and with the names around it joined by dollar signs. -/
  | nested (segment joined : String)
deriving Repr, DecidableEq, Inhabited

namespace Piece

def chars : Piece → List Char
  | .text chars => chars
  | .outer name => name.toList
  | .nested segment _ => segment.toList

def className? : Piece → Option String
  | .text _ => none
  | .outer name => some name
  | .nested _ joined => some joined

end Piece

/-- What must follow, each goal up to where its construct ends. -/
inductive Goal where
  | whole
  | type
  | reference
  /-- The rest of a class whose names so far, joined by dollar signs, are known. -/
  | classRest (name : String)
  | arguments
  /-- Bounds of a type parameter after the first, and the parameters after it. -/
  | bounds
  | parameters
  | result
  | thrown
  | supertypes
deriving Repr, DecidableEq, Inhabited

/-- The pieces taken, the goals that come next, and the characters left. -/
abbrev Step := List Piece × List Goal × List Char

/-- A class name and what follows it, which starts with the character that ends the name. -/
def takeName (input : List Char) : Except SignatureFault (String × List Char) :=
  match input.takeWhile inName, input.dropWhile inName with
  | _, [] => throw .unterminatedClass
  | [], _ => throw .emptyName
  | name, rest => pure (String.ofList name, rest)
where
  inName (c : Char) : Bool := c ≠ ';' && c ≠ '<' && c ≠ '.'

/-- An identifier, and what follows the character that ends it. -/
def takeIdentifier (terminator : Char) (input : List Char) :
    Except SignatureFault (List Char × List Char) :=
  match input.takeWhile (· ≠ terminator), input.dropWhile (· ≠ terminator) with
  | _, [] => throw .unterminatedIdentifier
  | [], _ => throw .emptyIdentifier
  | name, _ :: rest => pure (name, rest)

def stepReference : List Char → Except SignatureFault Step
  | [] => throw .truncated
  | 'L' :: rest => do
      let (name, rest) ← takeName rest
      pure ([.text ['L'], .outer name], [.classRest name], rest)
  | 'T' :: rest => do
      let (name, rest) ← takeIdentifier ';' rest
      pure ([.text ('T' :: name ++ [';'])], [], rest)
  | '[' :: rest => pure ([.text ['[']], [.type], rest)
  | c :: _ => throw (.unexpected (Utf8.lead c))

def stepType : List Char → Except SignatureFault Step
  | [] => throw .truncated
  | c :: rest =>
      if (BaseType.ofLetter? c).isSome then pure ([.text [c]], [], rest)
      else stepReference (c :: rest)

/-- A first step followed, once its goals are met, by another goal. -/
def Step.before (goal : Goal) (step : Step) : Step :=
  (step.1, step.2.1 ++ [goal], step.2.2)

/-- A type parameter: its name, and its first bound if it has one. -/
def stepParameter (input : List Char) : Except SignatureFault Step := do
  let (name, rest) ← takeIdentifier ':' input
  let head := Piece.text (name ++ [':'])
  match rest with
  | [] => throw .truncated
  | c :: _ =>
      if c = ':' || c = '>' then pure ([head], [.bounds], rest)
      else
        let (pieces, goals, rest) ← stepReference rest
        pure (head :: pieces, goals ++ [.bounds], rest)

/-- The start of a signature after its type parameters. -/
def stepBody : List Char → Except SignatureFault Step
  | '(' :: rest => pure ([.text ['(']], [.parameters], rest)
  | input => Step.before .supertypes <$> stepType input

def stepWhole : List Char → Except SignatureFault Step
  | '<' :: rest => do
      let (pieces, goals, rest) ← stepParameter rest
      pure (.text ['<'] :: pieces, goals, rest)
  | input => stepBody input

def stepClassRest (name : String) : List Char → Except SignatureFault Step
  | [] => throw .truncated
  | '<' :: rest => pure ([.text ['<']], [.arguments, .classRest name], rest)
  | '.' :: rest => do
      let (segment, rest) ← takeName rest
      let joined := s!"{name}${segment}"
      pure ([.text ['.'], .nested segment joined], [.classRest joined], rest)
  | ';' :: rest => pure ([.text [';']], [], rest)
  | c :: _ => throw (.unexpected (Utf8.lead c))

def stepArguments : List Char → Except SignatureFault Step
  | [] => throw .truncated
  | '>' :: rest => pure ([.text ['>']], [], rest)
  | '*' :: rest => pure ([.text ['*']], [.arguments], rest)
  | '+' :: rest => pure ([.text ['+']], [.reference, .arguments], rest)
  | '-' :: rest => pure ([.text ['-']], [.reference, .arguments], rest)
  | input => Step.before .arguments <$> stepReference input

def stepBounds : List Char → Except SignatureFault Step
  | [] => throw .truncated
  | ':' :: rest => pure ([.text [':']], [.reference, .bounds], rest)
  | '>' :: rest => do
      let (pieces, goals, rest) ← stepBody rest
      pure (.text ['>'] :: pieces, goals, rest)
  | input => stepParameter input

def stepParameters : List Char → Except SignatureFault Step
  | [] => throw .truncated
  | ')' :: rest => pure ([.text [')']], [.result], rest)
  | input => Step.before .parameters <$> stepType input

def stepResult : List Char → Except SignatureFault Step
  | [] => throw .truncated
  | 'V' :: rest => pure ([.text ['V']], [.thrown], rest)
  | input => Step.before .thrown <$> stepType input

def stepThrown : List Char → Except SignatureFault Step
  | '^' :: rest => pure ([.text ['^']], [.reference, .thrown], rest)
  | input => pure ([], [], input)

def stepSupertypes : List Char → Except SignatureFault Step
  | [] => pure ([], [], [])
  | input => Step.before .supertypes <$> stepReference input

def step : Goal → List Char → Except SignatureFault Step
  | .whole => stepWhole
  | .type => stepType
  | .reference => stepReference
  | .classRest name => stepClassRest name
  | .arguments => stepArguments
  | .bounds => stepBounds
  | .parameters => stepParameters
  | .result => stepResult
  | .thrown => stepThrown
  | .supertypes => stepSupertypes

theorem takeName_spells {input rest : List Char} {name : String}
    (h : takeName input = .ok (name, rest)) : name.toList ++ rest = input := by
  unfold takeName at h
  split at h
  · cases h
  · cases h
  · cases h
    simp

theorem takeIdentifier_spells {terminator : Char} {input name rest : List Char}
    (h : takeIdentifier terminator input = .ok (name, rest)) :
    name ++ terminator :: rest = input := by
  unfold takeIdentifier at h
  split at h
  · cases h
  · cases h
  · next c tail hdrop _ =>
      cases h
      have hsplit := List.takeWhile_append_dropWhile (p := fun c : Char => decide (c ≠ terminator))
        (l := input)
      have hc := List.head?_dropWhile_not (fun c : Char => decide (c ≠ terminator)) input
      rw [hdrop] at hsplit hc
      have : c = terminator := by simpa using hc
      rw [this] at hsplit
      exact hsplit

/-- The pieces of a step spell the characters it took, and it took some. -/
def Step.Takes (input : List Char) (step : Step) : Prop :=
  step.1.flatMap Piece.chars ++ step.2.2 = input ∧ step.2.2.length < input.length

theorem Step.Takes.before {input : List Char} {step : Step} (h : step.Takes input) (goal : Goal) :
    (step.before goal).Takes input := h

/-- Text in front of what a step takes. -/
theorem Step.Takes.after {input rest : List Char} {pieces : List Piece} {goals : List Goal}
    (h : Step.Takes input (pieces, goals, rest)) (front : List Char) (others : List Goal) :
    Step.Takes (front ++ input) (.text front :: pieces, others, rest) := by
  obtain ⟨hspell, hlen⟩ := h
  simp only at hspell hlen
  constructor
  · simp [Piece.chars, hspell]
  · simp only [List.length_append]
    omega

theorem stepReference_takes {input : List Char} {result : Step}
    (h : stepReference input = .ok result) : result.Takes input := by
  unfold stepReference at h
  split at h
  · cases h
  · obtain ⟨⟨name, rest⟩, htake, hresult⟩ := Except.bind_eq_ok_iff.1 h
    cases hresult
    have hspell := takeName_spells htake
    subst hspell
    exact ⟨by simp [Piece.chars], by simp only [List.length_cons, List.length_append]; omega⟩
  · obtain ⟨⟨name, rest⟩, htake, hresult⟩ := Except.bind_eq_ok_iff.1 h
    cases hresult
    have hspell := takeIdentifier_spells htake
    subst hspell
    exact ⟨by simp [Piece.chars], by simp only [List.length_cons, List.length_append]; omega⟩
  · cases h
    exact ⟨by simp [Piece.chars], by simp⟩
  · cases h

theorem stepType_takes {input : List Char} {result : Step}
    (h : stepType input = .ok result) : result.Takes input := by
  unfold stepType at h
  split at h
  · cases h
  · split at h
    · cases h
      exact ⟨by simp [Piece.chars], by simp⟩
    · exact stepReference_takes h

theorem stepParameter_takes {input : List Char} {result : Step}
    (h : stepParameter input = .ok result) : result.Takes input := by
  obtain ⟨⟨name, rest⟩, htake, hresult⟩ := Except.bind_eq_ok_iff.1 h
  have hspell := takeIdentifier_spells htake
  subst hspell
  simp only at hresult
  split at hresult
  · cases hresult
  · next c tail =>
      split at hresult
      · cases hresult
        exact ⟨by simp [Piece.chars],
          by simp only [List.length_cons, List.length_append]; omega⟩
      · obtain ⟨⟨pieces, goals, rest⟩, hstep, hdone⟩ := Except.bind_eq_ok_iff.1 hresult
        cases hdone
        simpa using (stepReference_takes hstep).after (name ++ [':']) (goals ++ [.bounds])

theorem stepBody_takes {input : List Char} {result : Step}
    (h : stepBody input = .ok result) : result.Takes input := by
  unfold stepBody at h
  split at h
  · cases h
    exact ⟨by simp [Piece.chars], by simp⟩
  · obtain ⟨found, hstep, rfl⟩ := Except.map_eq_ok_iff.1 h
    exact (stepType_takes hstep).before _

theorem takes_single {c : Char} {rest : List Char} {goals : List Goal} :
    Step.Takes (c :: rest) ([.text [c]], goals, rest) :=
  ⟨by simp [Piece.chars], by simp⟩

theorem stepWhole_takes {input : List Char} {result : Step}
    (h : stepWhole input = .ok result) : result.Takes input := by
  unfold stepWhole at h
  split at h
  · obtain ⟨⟨pieces, goals, rest⟩, hstep, hdone⟩ := Except.bind_eq_ok_iff.1 h
    cases hdone
    exact (stepParameter_takes hstep).after ['<'] goals
  · exact stepBody_takes h

theorem stepClassRest_takes {name : String} {input : List Char} {result : Step}
    (h : stepClassRest name input = .ok result) : result.Takes input := by
  unfold stepClassRest at h
  split at h
  · cases h
  · cases h
    exact takes_single
  · obtain ⟨⟨segment, rest⟩, htake, hdone⟩ := Except.bind_eq_ok_iff.1 h
    cases hdone
    have hspell := takeName_spells htake
    subst hspell
    exact ⟨by simp [Piece.chars], by simp only [List.length_cons, List.length_append]; omega⟩
  · cases h
    exact takes_single
  · cases h

theorem stepArguments_takes {input : List Char} {result : Step}
    (h : stepArguments input = .ok result) : result.Takes input := by
  unfold stepArguments at h
  split at h
  · cases h
  · cases h
    exact takes_single
  · cases h
    exact takes_single
  · cases h
    exact takes_single
  · cases h
    exact takes_single
  · obtain ⟨found, hstep, rfl⟩ := Except.map_eq_ok_iff.1 h
    exact (stepReference_takes hstep).before _

theorem stepBounds_takes {input : List Char} {result : Step}
    (h : stepBounds input = .ok result) : result.Takes input := by
  unfold stepBounds at h
  split at h
  · cases h
  · cases h
    exact takes_single
  · obtain ⟨⟨pieces, goals, rest⟩, hstep, hdone⟩ := Except.bind_eq_ok_iff.1 h
    cases hdone
    exact (stepBody_takes hstep).after ['>'] goals
  · exact stepParameter_takes h

theorem stepParameters_takes {input : List Char} {result : Step}
    (h : stepParameters input = .ok result) : result.Takes input := by
  unfold stepParameters at h
  split at h
  · cases h
  · cases h
    exact takes_single
  · obtain ⟨found, hstep, rfl⟩ := Except.map_eq_ok_iff.1 h
    exact (stepType_takes hstep).before _

theorem stepResult_takes {input : List Char} {result : Step}
    (h : stepResult input = .ok result) : result.Takes input := by
  unfold stepResult at h
  split at h
  · cases h
  · cases h
    exact takes_single
  · obtain ⟨found, hstep, rfl⟩ := Except.map_eq_ok_iff.1 h
    exact (stepType_takes hstep).before _

/-- A step takes characters, or it drops its goal and nothing else. -/
theorem step_takes {goal : Goal} {input : List Char} {result : Step}
    (h : step goal input = .ok result) :
    result.Takes input ∨ result = ([], [], input) := by
  cases goal with
  | whole => exact .inl (stepWhole_takes h)
  | type => exact .inl (stepType_takes h)
  | reference => exact .inl (stepReference_takes h)
  | classRest name => exact .inl (stepClassRest_takes h)
  | arguments => exact .inl (stepArguments_takes h)
  | bounds => exact .inl (stepBounds_takes h)
  | parameters => exact .inl (stepParameters_takes h)
  | result => exact .inl (stepResult_takes h)
  | thrown =>
      simp only [step, stepThrown] at h
      split at h
      · cases h
        exact .inl takes_single
      · cases h
        exact .inr rfl
  | supertypes =>
      simp only [step, stepSupertypes] at h
      split at h
      · cases h
        exact .inr rfl
      · obtain ⟨found, hstep, rfl⟩ := Except.map_eq_ok_iff.1 h
        exact .inl ((stepReference_takes hstep).before _)

theorem step_progress {goal : Goal} {input rest : List Char} {pieces : List Piece}
    {next : List Goal} (h : step goal input = .ok (pieces, next, rest)) (goals : List Goal) :
    Prod.Lex (· < ·) (· < ·) (rest.length, (next ++ goals).length)
      (input.length, (goal :: goals).length) := by
  rcases step_takes h with ⟨-, hlt⟩ | heq
  · exact .left _ _ hlt
  · cases heq
    exact .right _ (by simp)

/-- Meets the goals in order; `taken` holds the pieces so far, the last one first. -/
def run (goals : List Goal) (input : List Char) (taken : List Piece) :
    Except SignatureFault (List Piece) :=
  match goals with
  | [] => if input.isEmpty then pure taken.reverse else throw .trailing
  | goal :: goals =>
      match _h : step goal input with
      | .error fault => throw fault
      | .ok (pieces, next, rest) => run (next ++ goals) rest (pieces.reverse ++ taken)
termination_by (input.length, goals.length)
decreasing_by exact step_progress _h goals

def pieces (text : String) : Except Failure (List Piece) :=
  match run [.whole] text.toList [] with
  | .ok pieces => pure pieces
  | .error fault => fail (.signature text fault)

def spell (pieces : List Piece) : String :=
  String.ofList (pieces.flatMap Piece.chars)

theorem run_spells {goals : List Goal} {input : List Char} {taken found : List Piece}
    (h : run goals input taken = .ok found) :
    found.flatMap Piece.chars = taken.reverse.flatMap Piece.chars ++ input := by
  fun_induction run goals input taken with
  | case1 input taken hempty =>
      cases h
      simp [List.isEmpty_iff.1 hempty]
  | case2 => cases h
  | case3 => cases h
  | case4 input taken goal goals pieces next rest hstep ih =>
      rw [ih h]
      rcases step_takes hstep with ⟨hspell, -⟩ | heq
      · simp only at hspell
        rw [← hspell]
        simp
      · cases heq
        simp

theorem spell_pieces {text : String} {found : List Piece} (h : pieces text = .ok found) :
    spell found = text := by
  unfold pieces at h
  split at h
  · next heq =>
      cases h
      simp [spell, run_spells heq]
  · cases h

/-- The classes named, nested ones by their joined names. -/
def classNames (pieces : List Piece) : List String :=
  pieces.filterMap Piece.className?

/-- The signature with its classes renamed through `f`, if `f` renames any. Every class is shown
to `f` in order, but only leading names are replaced: nested classes follow their outer class. -/
def mapNamesM {m : Type → Type} [Monad m] (f : String → m (Option String)) (pieces : List Piece) :
    m (Option (List Piece)) := do
  let renamed ← pieces.mapM one
  if renamed.any Option.isSome then
    return some (List.zipWith (fun old new => new.getD old) pieces renamed)
  else return none
where
  one : Piece → m (Option Piece)
    | .text _ => pure none
    | .outer name => do return (← f name).map .outer
    | .nested _ joined => do
        let _ ← f joined
        return none

end JarTailor.Signature
