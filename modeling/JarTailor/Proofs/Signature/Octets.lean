import JarTailor.Proofs.Signature.Recognized
import JarTailor.TypeUse.Role
import Mathlib

/-!
# The walk over bytes

A signature is read byte by byte: the characters that steer the walk have one byte each, identifiers
are passed by their bytes, and only class names are cut out of the text. Here the same steps are
taken over the bytes of a text, each written as the character of its number, where a cut that does
not fall between two characters is a way to stop of its own. On the bytes of a text there is no such
cut: every step does what the step over characters does.
-/

namespace JarTailor.Signature.Octets

inductive Stop where
  | malformed (fault : SignatureFault)
  /-- A cut inside a character. -/
  | split
deriving Repr, DecidableEq

/-- The bytes of a text. -/
def octets (chars : List Char) : List Char :=
  chars.flatMap fun c => (String.utf8EncodeChar c).map Char.ofUInt8

/-- Whether a text may be cut in front of these bytes. -/
def startsCharacter : List Char → Bool
  | [] => true
  | octet :: _ => !Utf8.isContinuation octet.toUInt8

/-- The text of bytes that are cut out. -/
def cut (octets : List Char) : Except Stop String :=
  match Utf8.decode (octets.map Char.toUInt8) with
  | .ok text => pure text
  | .error _ => throw .split

/-- The walk stops where the characters are at fault. -/
def orStop {α : Type} : Except SignatureFault α → Except Stop α
  | .ok value => .ok value
  | .error fault => .error (.malformed fault)

/-- A class name: the end is searched in the text from here on, and the name is cut out of it. -/
def takeName (input : List Char) : Except Stop (String × List Char) :=
  if startsCharacter input then do
    let (name, rest) ← orStop (Signature.takeName input)
    pure (← cut name.toList, rest)
  else throw .split

/-- The names reported, the goals that come next, and the bytes left. -/
abbrev Step := List String × List Goal × List Char

def Step.before (goal : Goal) (step : Step) : Step :=
  (step.1, step.2.1 ++ [goal], step.2.2)

def stepReference : List Char → Except Stop Step
  | [] => throw (.malformed .truncated)
  | 'L' :: rest => do
      let (name, rest) ← takeName rest
      pure ([name], [.classRest name], rest)
  | 'T' :: rest => do
      let (_, rest) ← orStop (takeIdentifier ';' rest)
      pure ([], [], rest)
  | '[' :: rest => pure ([], [.type], rest)
  | octet :: _ => throw (.malformed (.unexpected octet.toUInt8))

def stepType : List Char → Except Stop Step
  | [] => throw (.malformed .truncated)
  | octet :: rest =>
      if (BaseType.ofLetter? octet).isSome then pure ([], [], rest)
      else stepReference (octet :: rest)

def stepParameter (input : List Char) : Except Stop Step := do
  let (_, rest) ← orStop (takeIdentifier ':' input)
  match rest with
  | [] => throw (.malformed .truncated)
  | octet :: _ =>
      if octet = ':' || octet = '>' then pure ([], [.bounds], rest)
      else Step.before .bounds <$> stepReference rest

def stepBody : List Char → Except Stop Step
  | '(' :: rest => pure ([], [.parameters], rest)
  | input => Step.before .supertypes <$> stepType input

def stepWhole : List Char → Except Stop Step
  | '<' :: rest => stepParameter rest
  | input => stepBody input

def stepClassRest (outer : String) : List Char → Except Stop Step
  | [] => throw (.malformed .truncated)
  | '<' :: rest => pure ([], [.arguments, .classRest outer], rest)
  | '.' :: rest => do
      let (segment, rest) ← takeName rest
      let joined := s!"{outer}${segment}"
      pure ([joined], [.classRest joined], rest)
  | ';' :: rest => pure ([], [], rest)
  | octet :: _ => throw (.malformed (.unexpected octet.toUInt8))

def stepArguments : List Char → Except Stop Step
  | [] => throw (.malformed .truncated)
  | '>' :: rest => pure ([], [], rest)
  | '*' :: rest => pure ([], [.arguments], rest)
  | '+' :: rest => pure ([], [.reference, .arguments], rest)
  | '-' :: rest => pure ([], [.reference, .arguments], rest)
  | input => Step.before .arguments <$> stepReference input

def stepBounds : List Char → Except Stop Step
  | [] => throw (.malformed .truncated)
  | ':' :: rest => pure ([], [.reference, .bounds], rest)
  | '>' :: rest => stepBody rest
  | input => stepParameter input

def stepParameters : List Char → Except Stop Step
  | [] => throw (.malformed .truncated)
  | ')' :: rest => pure ([], [.result], rest)
  | input => Step.before .parameters <$> stepType input

def stepResult : List Char → Except Stop Step
  | [] => throw (.malformed .truncated)
  | 'V' :: rest => pure ([], [.thrown], rest)
  | input => Step.before .thrown <$> stepType input

def stepThrown : List Char → Except Stop Step
  | '^' :: rest => pure ([], [.reference, .thrown], rest)
  | input => pure ([], [], input)

def stepSupertypes : List Char → Except Stop Step
  | [] => pure ([], [], [])
  | input => Step.before .supertypes <$> stepReference input

def step : Goal → List Char → Except Stop Step
  | .whole => stepWhole
  | .type => stepType
  | .reference => stepReference
  | .classRest outer => stepClassRest outer
  | .arguments => stepArguments
  | .bounds => stepBounds
  | .parameters => stepParameters
  | .result => stepResult
  | .thrown => stepThrown
  | .supertypes => stepSupertypes

/-- What the walk over the bytes of a text has come to: the names reported, the goals that are left
and the bytes that are left. -/
inductive Walks (text : String) : List String → List Goal → List Char → Prop
  | start : Walks text [] [.whole] (octets text.toList)
  | more {names found : List String} {goal : Goal} {goals next : List Goal}
      {input rest : List Char} (h : Walks text names (goal :: goals) input)
      (hstep : step goal input = .ok (found, next, rest)) :
      Walks text (names ++ found) (next ++ goals) rest

section Bytes

theorem toNat_ofUInt8 (byte : UInt8) : (Char.ofUInt8 byte).toNat = byte.toNat := by
  simp [Char.ofUInt8, Char.toNat]
theorem toUInt8_ofUInt8 (byte : UInt8) : (Char.ofUInt8 byte).toUInt8 = byte := by
  simp [Char.ofUInt8, Char.toUInt8]

theorem utf8EncodeChar_of_lt {c : Char} (hc : c.toNat < 128) :
    (String.utf8EncodeChar c).map Char.ofUInt8 = [c] := by
  have hv : c.val.toNat ≤ 127 := Nat.le_of_lt_succ hc
  have hchar : Char.ofUInt8 (UInt8.ofNat c.val.toNat) = c := by
    apply Char.ext
    apply UInt32.toNat_inj.1
    change (Char.ofUInt8 _).toNat = _
    rw [toNat_ofUInt8, UInt8.toNat_ofNat', Nat.mod_eq_of_lt (Nat.lt_of_le_of_lt hv (by decide))]
  simp only [String.utf8EncodeChar, if_pos hv, List.map_singleton, hchar]

theorem isContinuation_eq_false {byte : UInt8} (h : byte.toNat < 128 ∨ 192 ≤ byte.toNat) :
    Utf8.isContinuation byte = false := by
  rw [Utf8.isContinuation, Bool.and_eq_false_iff, decide_eq_false_iff_not, decide_eq_false_iff_not,
    UInt8.le_iff_toNat_le, UInt8.le_iff_toNat_le]
  change ¬ 128 ≤ byte.toNat ∨ ¬ byte.toNat ≤ 191
  omega

/-- The first byte of a character does not continue another one. -/
theorem isContinuation_lead (c : Char) : Utf8.isContinuation (Utf8.lead c) = false := by
  apply isContinuation_eq_false
  unfold Utf8.lead String.utf8EncodeChar
  simp only
  split
  · simp only [List.headD_cons, UInt8.toNat_ofNat']
    omega
  · split
    · simp only [List.headD_cons, UInt8.toNat_ofNat']
      omega
    · split
      · simp only [List.headD_cons, UInt8.toNat_ofNat']
        omega
      · simp only [List.headD_cons, UInt8.toNat_ofNat']
        omega

theorem le_of_mem_utf8EncodeChar {c : Char} (hc : 128 ≤ c.toNat) :
    ∀ byte ∈ String.utf8EncodeChar c, 128 ≤ byte.toNat := by
  have hv : ¬ c.val.toNat ≤ 127 := Nat.not_le_of_lt hc
  unfold String.utf8EncodeChar
  simp only [if_neg hv]
  split
  · simp
    omega
  · split
    · simp
      omega
    · simp
      omega

theorem octets_cons (c : Char) (chars : List Char) :
    octets (c :: chars) = (String.utf8EncodeChar c).map Char.ofUInt8 ++ octets chars :=
  List.flatMap_cons

theorem octets_cons_of_lt {c : Char} (hc : c.toNat < 128) (chars : List Char) :
    octets (c :: chars) = c :: octets chars := by
  rw [octets_cons, utf8EncodeChar_of_lt hc, List.singleton_append]

/-- A character that has one byte is found in the bytes exactly where it is in the text. -/
theorem exists_octets_cons (c : Char) (chars : List Char) :
    ∃ octet tail, octets (c :: chars) = octet :: tail ∧ octet.toUInt8 = Utf8.lead c ∧
      ∀ sign : Char, sign.toNat < 128 → (octet = sign ↔ c = sign) := by
  obtain ⟨byte, bytes, hbytes⟩ := List.exists_cons_of_ne_nil (String.utf8EncodeChar_ne_nil (c := c))
  refine ⟨Char.ofUInt8 byte, bytes.map Char.ofUInt8 ++ octets chars, ?_, ?_, fun sign hsign => ?_⟩
  · rw [octets_cons, hbytes, List.map_cons, List.cons_append]
  · rw [toUInt8_ofUInt8, Utf8.lead, hbytes, List.headD_cons]
  · by_cases hc : c.toNat < 128
    · have hsingle := utf8EncodeChar_of_lt hc
      rw [hbytes, List.map_cons] at hsingle
      rw [(List.cons.inj hsingle).1]
    · have hbyte := le_of_mem_utf8EncodeChar (Nat.le_of_not_lt hc) byte
        (hbytes ▸ List.mem_cons_self)
      constructor
      · rintro rfl
        rw [toNat_ofUInt8] at hsign
        omega
      · rintro rfl
        exact absurd hsign hc

theorem octets_ne_nil {chars : List Char} (h : chars ≠ []) : octets chars ≠ [] := by
  obtain ⟨c, rest, rfl⟩ := List.exists_cons_of_ne_nil h
  obtain ⟨octet, tail, hoctets, -⟩ := exists_octets_cons c rest
  rw [hoctets]
  exact List.cons_ne_nil _ _

theorem octets_ne_cons {chars : List Char} {sign : Char} (hsign : sign.toNat < 128)
    (h : ∀ rest, chars = sign :: rest → False) : ∀ rest, octets chars = sign :: rest → False := by
  intro rest heq
  cases chars with
  | nil => cases heq
  | cons c chars =>
      obtain ⟨octet, tail, hoctets, -, hsame⟩ := exists_octets_cons c chars
      rw [hoctets] at heq
      obtain rfl := (hsame sign hsign).1 (List.cons.inj heq).1
      exact h chars rfl

/-- A test that characters of several bytes pass, and each of their bytes as well, passes the same
characters. -/
theorem span_octets {pass : Char → Bool} (hpass : ∀ c, 128 ≤ c.toNat → pass c = true)
    (chars : List Char) :
    (octets chars).takeWhile pass = octets (chars.takeWhile pass) ∧
      (octets chars).dropWhile pass = octets (chars.dropWhile pass) := by
  induction chars with
  | nil => exact ⟨rfl, rfl⟩
  | cons c chars ih =>
      by_cases hc : c.toNat < 128
      · rw [octets_cons_of_lt hc]
        cases hpasses : pass c with
        | true =>
            rw [List.takeWhile_cons_of_pos hpasses, List.takeWhile_cons_of_pos hpasses,
              List.dropWhile_cons_of_pos hpasses, List.dropWhile_cons_of_pos hpasses, ih.1, ih.2,
              octets_cons_of_lt hc]
            exact ⟨rfl, rfl⟩
        | false =>
            have hstops : ¬ pass c = true := by simp [hpasses]
            rw [List.takeWhile_cons_of_neg hstops, List.takeWhile_cons_of_neg hstops,
              List.dropWhile_cons_of_neg hstops, List.dropWhile_cons_of_neg hstops,
              octets_cons_of_lt hc]
            exact ⟨rfl, rfl⟩
      · have hlong := Nat.le_of_not_lt hc
        have hall : ∀ octet ∈ (String.utf8EncodeChar c).map Char.ofUInt8, pass octet = true := by
          intro octet hmem
          obtain ⟨byte, hbyte, rfl⟩ := List.mem_map.1 hmem
          apply hpass
          rw [toNat_ofUInt8]
          exact le_of_mem_utf8EncodeChar hlong byte hbyte
        rw [List.takeWhile_cons_of_pos (hpass c hlong), List.dropWhile_cons_of_pos (hpass c hlong),
          octets_cons, octets_cons, List.takeWhile_append_of_pos hall,
          List.dropWhile_append_of_pos hall, ih.1, ih.2]
        exact ⟨rfl, rfl⟩

theorem startsCharacter_octets (chars : List Char) : startsCharacter (octets chars) = true := by
  cases chars with
  | nil => rfl
  | cons c chars =>
      obtain ⟨octet, tail, hoctets, hlead, -⟩ := exists_octets_cons c chars
      rw [hoctets, startsCharacter, hlead, isContinuation_lead]
      rfl

/-- The bytes of a text are cut out as that text. -/
theorem cut_octets (chars : List Char) : cut (octets chars) = .ok (String.ofList chars) := by
  have hbytes : (octets chars).map Char.toUInt8 = Utf8.encode (String.ofList chars) := by
    rw [Utf8.encode_ofList, octets, List.map_flatMap]
    congr 1
    funext c
    rw [List.map_map]
    exact List.map_id'' toUInt8_ofUInt8 _
  rw [cut, hbytes, Utf8.decode_encode]
  rfl

end Bytes

section Steps

/-- What a step over characters is over their bytes. -/
def seen : Except SignatureFault Signature.Step → Except Stop Step
  | .error fault => .error (.malformed fault)
  | .ok (pieces, goals, rest) => .ok (classNames pieces, goals, octets rest)

theorem seen_before (goal : Goal) (found : Except SignatureFault Signature.Step) :
    seen (Signature.Step.before goal <$> found) = Step.before goal <$> seen found := by
  cases found <;> rfl

theorem takeIdentifier_octets {terminator : Char} (hterminator : terminator.toNat < 128)
    (chars : List Char) :
    takeIdentifier terminator (octets chars) =
      (fun found => (octets found.1, octets found.2)) <$> takeIdentifier terminator chars := by
  have hpass : ∀ c : Char, 128 ≤ c.toNat → decide (c ≠ terminator) = true := by
    intro c hc
    rw [decide_eq_true_eq]
    rintro rfl
    omega
  obtain ⟨htake, hdrop⟩ := span_octets hpass chars
  unfold takeIdentifier
  rw [htake, hdrop]
  have hend := List.head?_dropWhile_not (fun c : Char => decide (c ≠ terminator)) chars
  cases hrest : chars.dropWhile (fun c => decide (c ≠ terminator)) with
  | nil => rfl
  | cons c rest =>
      rw [hrest] at hend
      have hc : c = terminator := by simpa using hend
      rw [octets_cons_of_lt (hc ▸ hterminator)]
      cases hname : chars.takeWhile (fun c => decide (c ≠ terminator)) with
      | nil => rfl
      | cons d name =>
          obtain ⟨octet, tail, hoctets, -⟩ := exists_octets_cons d name
          rw [hoctets]
          show Except.ok _ = Except.ok (octets (d :: name), _)
          rw [hoctets]

theorem takeName_octets (chars : List Char) :
    takeName (octets chars) =
      orStop ((fun found => (found.1, octets found.2)) <$> Signature.takeName chars) := by
  have hpass : ∀ c : Char, 128 ≤ c.toNat → takeName.inName c = true := by
    intro c hc
    have hne : ∀ sign : Char, sign.toNat < 128 → c ≠ sign := by
      rintro sign hsign rfl
      omega
    simp [takeName.inName, hne ';' (by decide), hne '<' (by decide), hne '.' (by decide)]
  obtain ⟨htake, hdrop⟩ := span_octets hpass chars
  have hend := List.head?_dropWhile_not takeName.inName chars
  rw [takeName, if_pos (startsCharacter_octets chars)]
  unfold Signature.takeName
  rw [htake, hdrop]
  cases hrest : chars.dropWhile takeName.inName with
  | nil => rfl
  | cons c rest =>
      obtain ⟨octet, tail, hoctets, -⟩ := exists_octets_cons c rest
      cases hname : chars.takeWhile takeName.inName with
      | nil =>
          rw [hoctets]
          rfl
      | cons d name =>
          obtain ⟨first, others, hfirst, -⟩ := exists_octets_cons d name
          have hcut := cut_octets (d :: name)
          rw [hfirst] at hcut
          rw [hoctets, hfirst]
          show (cut (String.ofList (first :: others)).toList >>= fun name =>
            pure (name, octet :: tail)) = _
          rw [String.toList_ofList, hcut]
          show _ = Except.ok (_, octets (c :: rest))
          rw [hoctets]
          rfl

theorem stepReference_octets (chars : List Char) :
    stepReference (octets chars) = seen (Signature.stepReference chars) := by
  unfold Signature.stepReference
  split
  · rfl
  · next rest =>
      rw [octets_cons_of_lt (by decide), stepReference, takeName_octets]
      cases Signature.takeName rest <;> rfl
  · next rest =>
      rw [octets_cons_of_lt (by decide), stepReference, takeIdentifier_octets (by decide)]
      cases takeIdentifier ';' rest <;> rfl
  · next rest =>
      rw [octets_cons_of_lt (by decide)]
      rfl
  · next c rest hclass hvariable harray =>
      obtain ⟨octet, tail, hoctets, hlead, hsame⟩ := exists_octets_cons c rest
      rw [hoctets]
      rw [stepReference, hlead]
      · rfl
      · exact fun heq => hclass ((hsame 'L' (by decide)).1 heq)
      · exact fun heq => hvariable ((hsame 'T' (by decide)).1 heq)
      · exact fun heq => harray ((hsame '[' (by decide)).1 heq)

theorem stepClassRest_octets (outer : String) (chars : List Char) :
    stepClassRest outer (octets chars) = seen (Signature.stepClassRest outer chars) := by
  unfold Signature.stepClassRest
  split
  · rfl
  · next rest =>
      rw [octets_cons_of_lt (by decide)]
      rfl
  · next rest =>
      rw [octets_cons_of_lt (by decide), stepClassRest, takeName_octets]
      cases Signature.takeName rest <;> rfl
  · next rest =>
      rw [octets_cons_of_lt (by decide)]
      rfl
  · next c rest harguments hsegment hend =>
      obtain ⟨octet, tail, hoctets, hlead, hsame⟩ := exists_octets_cons c rest
      rw [hoctets]
      rw [stepClassRest, hlead]
      · rfl
      · exact fun heq => harguments ((hsame '<' (by decide)).1 heq)
      · exact fun heq => hsegment ((hsame '.' (by decide)).1 heq)
      · exact fun heq => hend ((hsame ';' (by decide)).1 heq)

theorem stepType_octets (chars : List Char) :
    stepType (octets chars) = seen (Signature.stepType chars) := by
  unfold Signature.stepType
  split
  · rfl
  · next c rest =>
      by_cases hletter : (BaseType.ofLetter? c).isSome
      · obtain ⟨type, htype⟩ := Option.isSome_iff_exists.1 hletter
        obtain rfl := BaseType.ofLetter?_eq_some_iff.1 htype
        rw [octets_cons_of_lt (by cases type <;> decide), stepType, if_pos hletter, if_pos hletter]
        rfl
      · have hreference := stepReference_octets (c :: rest)
        obtain ⟨octet, tail, hoctets, -, hsame⟩ := exists_octets_cons c rest
        have hother : ¬ (BaseType.ofLetter? octet).isSome := by
          intro hsome
          obtain ⟨type, htype⟩ := Option.isSome_iff_exists.1 hsome
          obtain rfl := BaseType.ofLetter?_eq_some_iff.1 htype
          apply hletter
          rw [(hsame type.letter (by cases type <;> decide)).1 rfl, BaseType.ofLetter?_letter]
          rfl
        rw [hoctets] at hreference ⊢
        rw [stepType, if_neg hother, if_neg hletter, hreference]

theorem stepParameter_octets (chars : List Char) :
    stepParameter (octets chars) = seen (Signature.stepParameter chars) := by
  unfold stepParameter Signature.stepParameter
  rw [takeIdentifier_octets (by decide)]
  cases takeIdentifier ':' chars with
  | error fault => rfl
  | ok found =>
      obtain ⟨name, rest⟩ := found
      cases rest with
      | nil => rfl
      | cons c rest =>
          have hreference := stepReference_octets (c :: rest)
          obtain ⟨octet, tail, hoctets, -, hsame⟩ := exists_octets_cons c rest
          have hcond : (octet = ':' || octet = '>') = (c = ':' || c = '>') := by
            simp [hsame ':' (by decide), hsame '>' (by decide)]
          rw [hoctets] at hreference
          simp only [bind, Except.bind, orStop, Functor.map, Except.map, hoctets, hcond, hreference]
          split
          · rw [← hoctets]
            rfl
          · cases Signature.stepReference (c :: rest) <;> rfl

theorem stepBody_octets (chars : List Char) :
    stepBody (octets chars) = seen (Signature.stepBody chars) := by
  unfold Signature.stepBody
  split
  · next rest =>
      rw [octets_cons_of_lt (by decide)]
      rfl
  · next hmethod =>
      rw [seen_before, ← stepType_octets, stepBody]
      exact octets_ne_cons (by decide) hmethod

theorem stepWhole_octets (chars : List Char) :
    stepWhole (octets chars) = seen (Signature.stepWhole chars) := by
  unfold Signature.stepWhole
  split
  · next rest =>
      rw [octets_cons_of_lt (by decide), stepWhole, stepParameter_octets]
      cases Signature.stepParameter rest <;> rfl
  · next hparameters =>
      rw [← stepBody_octets, stepWhole]
      exact octets_ne_cons (by decide) hparameters

theorem stepArguments_octets (chars : List Char) :
    stepArguments (octets chars) = seen (Signature.stepArguments chars) := by
  unfold Signature.stepArguments
  split
  · rfl
  · next rest =>
      rw [octets_cons_of_lt (by decide)]
      rfl
  · next rest =>
      rw [octets_cons_of_lt (by decide)]
      rfl
  · next rest =>
      rw [octets_cons_of_lt (by decide)]
      rfl
  · next rest =>
      rw [octets_cons_of_lt (by decide)]
      rfl
  · next hnil hend hany hupper hlower =>
      rw [seen_before, ← stepReference_octets, stepArguments]
      · exact octets_ne_nil hnil
      · exact octets_ne_cons (by decide) hend
      · exact octets_ne_cons (by decide) hany
      · exact octets_ne_cons (by decide) hupper
      · exact octets_ne_cons (by decide) hlower

theorem stepBounds_octets (chars : List Char) :
    stepBounds (octets chars) = seen (Signature.stepBounds chars) := by
  unfold Signature.stepBounds
  split
  · rfl
  · next rest =>
      rw [octets_cons_of_lt (by decide)]
      rfl
  · next rest =>
      rw [octets_cons_of_lt (by decide), stepBounds, stepBody_octets]
      cases Signature.stepBody rest <;> rfl
  · next hnil hbound hend =>
      rw [← stepParameter_octets, stepBounds]
      · exact octets_ne_nil hnil
      · exact octets_ne_cons (by decide) hbound
      · exact octets_ne_cons (by decide) hend

theorem stepParameters_octets (chars : List Char) :
    stepParameters (octets chars) = seen (Signature.stepParameters chars) := by
  unfold Signature.stepParameters
  split
  · rfl
  · next rest =>
      rw [octets_cons_of_lt (by decide)]
      rfl
  · next hnil hend =>
      rw [seen_before, ← stepType_octets, stepParameters]
      · exact octets_ne_nil hnil
      · exact octets_ne_cons (by decide) hend

theorem stepResult_octets (chars : List Char) :
    stepResult (octets chars) = seen (Signature.stepResult chars) := by
  unfold Signature.stepResult
  split
  · rfl
  · next rest =>
      rw [octets_cons_of_lt (by decide)]
      rfl
  · next hnil hvoid =>
      rw [seen_before, ← stepType_octets, stepResult]
      · exact octets_ne_nil hnil
      · exact octets_ne_cons (by decide) hvoid

theorem stepThrown_octets (chars : List Char) :
    stepThrown (octets chars) = seen (Signature.stepThrown chars) := by
  unfold Signature.stepThrown
  split
  · next rest =>
      rw [octets_cons_of_lt (by decide)]
      rfl
  · next hother =>
      rw [stepThrown]
      · rfl
      · exact octets_ne_cons (by decide) hother

theorem stepSupertypes_octets (chars : List Char) :
    stepSupertypes (octets chars) = seen (Signature.stepSupertypes chars) := by
  unfold Signature.stepSupertypes
  split
  · rfl
  · next hnil =>
      rw [seen_before, ← stepReference_octets, stepSupertypes]
      exact octets_ne_nil hnil

/-- On the bytes of a text, every step does what it does on the characters. -/
theorem step_octets (goal : Goal) (chars : List Char) :
    step goal (octets chars) = seen (Signature.step goal chars) := by
  cases goal with
  | whole => exact stepWhole_octets chars
  | type => exact stepType_octets chars
  | reference => exact stepReference_octets chars
  | classRest outer => exact stepClassRest_octets outer chars
  | arguments => exact stepArguments_octets chars
  | bounds => exact stepBounds_octets chars
  | parameters => exact stepParameters_octets chars
  | result => exact stepResult_octets chars
  | thrown => exact stepThrown_octets chars
  | supertypes => exact stepSupertypes_octets chars

end Steps

section Walks

variable {text : String} {names : List String} {goals : List Goal} {rest : List Char}

/-- Where a walk over bytes has come to, the run over characters has come to as well. -/
theorem Walks.exists_run (h : Walks text names goals rest) :
    ∃ chars taken, rest = octets chars ∧ classNames taken.reverse = names ∧
      run [.whole] text.toList [] = run goals chars taken := by
  induction h with
  | start => exact ⟨text.toList, [], rfl, rfl, rfl⟩
  | @more names found goal goals next input rest _ hstep ih =>
      obtain ⟨chars, taken, rfl, hnames, hrun⟩ := ih
      rw [step_octets] at hstep
      cases hchars : Signature.step goal chars with
      | error fault =>
          rw [hchars] at hstep
          cases hstep
      | ok result =>
          obtain ⟨pieces, following, left⟩ := result
          rw [hchars] at hstep
          cases hstep
          refine ⟨left, pieces.reverse ++ taken, rfl, ?_, hrun.trans (run_cons_of_step hchars)⟩
          rw [List.reverse_append, List.reverse_reverse, classNames, List.filterMap_append]
          exact congrArg (· ++ classNames pieces) hnames

/-- A run over characters is walked over their bytes. -/
theorem Walks.of_run {chars : List Char} {taken found : List Piece}
    (h : run goals chars taken = .ok found)
    (hwalks : Walks text (classNames taken.reverse) goals (octets chars)) :
    Walks text (classNames found) [] [] := by
  fun_induction run goals chars taken with
  | case1 chars taken hempty =>
      cases h
      rw [List.isEmpty_iff.1 hempty] at hwalks
      exact hwalks
  | case2 => cases h
  | case3 => cases h
  | case4 chars taken goal goals pieces next left hstep ih =>
      apply ih h
      have hoctets : step goal (octets chars) = .ok (classNames pieces, next, octets left) := by
        rw [step_octets, hstep]
        rfl
      rw [List.reverse_append, List.reverse_reverse, classNames, List.filterMap_append]
      exact hwalks.more hoctets

/-- The walk over the bytes of a text comes to its end exactly when the text is a signature, and
then it has reported its classes. -/
theorem walks_iff :
    Walks text names [] [] ↔ TypeRole.signature.classNames text = .ok names := by
  constructor
  · intro h
    obtain ⟨chars, taken, hchars, rfl, hrun⟩ := h.exists_run
    obtain rfl : chars = [] := by
      by_contra hne
      exact octets_ne_nil hne hchars.symm
    rw [run_nil] at hrun
    exact Except.map_eq_ok_iff.2 ⟨_, pieces_eq_ok_iff_run.2 hrun, rfl⟩
  · intro h
    obtain ⟨found, hfound, rfl⟩ := Except.map_eq_ok_iff.1 h
    exact .of_run (pieces_eq_ok_iff_run.1 hfound) .start

/-- No step of the walk cuts the text inside a character, not even of one that stops later. -/
theorem Walks.step_ne_split {goal : Goal} (h : Walks text names (goal :: goals) rest) :
    step goal rest ≠ .error .split := by
  obtain ⟨chars, taken, rfl, -⟩ := h.exists_run
  rw [step_octets]
  cases Signature.step goal chars with
  | error fault => rintro ⟨⟩
  | ok result => rintro ⟨⟩

/-- Exactly the sentences of the grammar are accepted, and exactly the classes in them reported. On
the bytes of a text, the walk comes to the same end and cuts no character in two. -/
theorem signature_accepted_iff (text : String) :
    (∀ f, (∃ result, TypeRole.signature.mapNames text f = .ok result) ↔
        ∃ sentence : Sentence, sentence.text = text) ∧
      (∀ names, TypeRole.signature.classNames text = .ok names ↔
        ∃ sentence : Sentence, sentence.text = text ∧ sentence.classes = names) ∧
      (∀ names, Walks text names [] [] ↔ TypeRole.signature.classNames text = .ok names) ∧
      ∀ names goal goals rest, ¬ (Walks text names (goal :: goals) rest ∧
        step goal rest = .error .split) := by
  refine ⟨fun f => ⟨?_, ?_⟩, fun names => ⟨?_, ?_⟩, fun names => walks_iff,
    fun names goal goals rest h => h.1.step_ne_split h.2⟩
  · rintro ⟨result, hresult⟩
    obtain ⟨found, hfound, -⟩ := Except.bind_eq_ok_iff.1 hresult
    obtain ⟨sentence, hsentence, -⟩ := pieces_eq_ok_iff.1 hfound
    exact ⟨sentence, hsentence⟩
  · rintro ⟨sentence, hsentence⟩
    have hfound := pieces_eq_ok_iff.2 ⟨sentence, hsentence, rfl⟩
    exact ⟨_, Except.bind_eq_ok_iff.2 ⟨_, hfound, rfl⟩⟩
  · intro h
    obtain ⟨found, hfound, rfl⟩ := Except.map_eq_ok_iff.1 h
    obtain ⟨sentence, hsentence, rfl⟩ := pieces_eq_ok_iff.1 hfound
    exact ⟨sentence, hsentence, sentence.classNames_pieces.symm⟩
  · rintro ⟨sentence, hsentence, rfl⟩
    have hfound := pieces_eq_ok_iff.2 ⟨sentence, hsentence, rfl⟩
    exact Except.map_eq_ok_iff.2 ⟨_, hfound, sentence.classNames_pieces⟩

end Walks

end JarTailor.Signature.Octets
