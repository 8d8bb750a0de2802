import JarTailor.Regex.Basic
import Mathlib

/-!
# What regular expressions match

The marks that an expression makes stand exactly where pieces of the text end that it matches. A
repetition of any length needs no more rounds than there are places: a longer row of pieces has an
empty one, which may be left out or repeated.
-/

namespace JarTailor.Regex

/-- From one place to another in so many steps. -/
def Times (Steps : Nat → Nat → Prop) : Nat → Nat → Nat → Prop
  | 0, start, stop => stop = start
  | count + 1, start, stop => ∃ middle, Steps start middle ∧ Times Steps count middle stop

section Times

variable {Steps : Nat → Nat → Prop} {first second count start stop : Nat}

theorem times_add_iff : Times Steps (first + second) start stop ↔
    ∃ middle, Times Steps first start middle ∧ Times Steps second middle stop := by
  induction first generalizing start with
  | zero => simp [Times]
  | succ first ih =>
      rw [Nat.succ_add]
      constructor
      · rintro ⟨next, hnext, hrest⟩
        obtain ⟨middle, hfirst, hsecond⟩ := ih.1 hrest
        exact ⟨middle, ⟨next, hnext, hfirst⟩, hsecond⟩
      · rintro ⟨middle, ⟨next, hnext, hfirst⟩, hsecond⟩
        exact ⟨next, hnext, ih.2 ⟨middle, hfirst, hsecond⟩⟩

theorem times_one_iff : Times Steps 1 start stop ↔ Steps start stop := by
  simp [Times]

theorem Times.le (hsteps : ∀ start stop, Steps start stop → start ≤ stop)
    (h : Times Steps count start stop) : start ≤ stop := by
  induction count generalizing start with
  | zero => exact h.ge
  | succ count ih =>
      obtain ⟨middle, hmiddle, hrest⟩ := h
      exact (hsteps start middle hmiddle).trans (ih hrest)

variable (hsteps : ∀ start stop, Steps start stop → start ≤ stop)
include hsteps

/-- More steps than places lie between start and stop are not all forward. -/
theorem Times.exists_idle (h : Times Steps count start stop) (hcount : stop < start + count) :
    ∃ before after middle, before + 1 + after = count ∧ Times Steps before start middle ∧
      Steps middle middle ∧ Times Steps after middle stop := by
  induction count generalizing start with
  | zero => exact absurd h.ge (Nat.not_le.2 hcount)
  | succ count ih =>
      obtain ⟨next, hnext, hrest⟩ := h
      rcases (hsteps start next hnext).eq_or_lt with rfl | hlt
      · exact ⟨0, count, start, by omega, rfl, hnext, hrest⟩
      · obtain ⟨before, after, middle, hsum, hbefore, hidle, hafter⟩ := ih hrest (by omega)
        exact ⟨before + 1, after, middle, by omega, ⟨next, hnext, hbefore⟩, hidle, hafter⟩

theorem times_succ_iff (hcount : stop < start + count) :
    Times Steps (count + 1) start stop ↔ Times Steps count start stop := by
  constructor
  · intro h
    obtain ⟨before, after, middle, hsum, hbefore, -, hafter⟩ := h.exists_idle hsteps (by omega)
    obtain rfl : before + after = count := by omega
    exact times_add_iff.2 ⟨middle, hbefore, hafter⟩
  · intro h
    obtain ⟨before, after, middle, rfl, hbefore, hidle, hafter⟩ := h.exists_idle hsteps hcount
    have hback : Times Steps (1 + (1 + after)) middle stop :=
      times_add_iff.2 ⟨middle, times_one_iff.2 hidle,
        times_add_iff.2 ⟨middle, times_one_iff.2 hidle, hafter⟩⟩
    rw [show before + 1 + after + 1 = before + (1 + (1 + after)) by omega]
    exact times_add_iff.2 ⟨middle, hbefore, hback⟩

theorem times_iff_of_le (hcount : stop < start + count) {more : Nat} (hle : count ≤ more) :
    Times Steps more start stop ↔ Times Steps count start stop := by
  induction more, hle using Nat.le_induction with
  | base => rfl
  | succ more hle ih => rw [times_succ_iff hsteps (by omega), ih]

theorem times_min_iff {bound : Nat} (hbound : stop < start + bound) :
    Times Steps (min count bound) start stop ↔ Times Steps count start stop := by
  rcases Nat.le_total count bound with hle | hle
  · rw [Nat.min_eq_left hle]
  · rw [Nat.min_eq_right hle, times_iff_of_le hsteps hbound hle]

end Times

/-- With steps that may also stay where they are, fewer steps do. -/
theorem times_or_iff {Steps : Nat → Nat → Prop} {bound start stop : Nat} :
    Times (fun start stop => stop = start ∨ Steps start stop) bound start stop ↔
      ∃ count ≤ bound, Times Steps count start stop := by
  induction bound generalizing start with
  | zero => simp [Times]
  | succ bound ih =>
      constructor
      · rintro ⟨_, rfl | hnext, hrest⟩
        · obtain ⟨count, hcount, hrest⟩ := ih.1 hrest
          exact ⟨count, by omega, hrest⟩
        · obtain ⟨count, hcount, hrest⟩ := ih.1 hrest
          exact ⟨count + 1, by omega, _, hnext, hrest⟩
      · rintro ⟨_ | count, hcount, hrest⟩
        · exact ⟨start, Or.inl rfl, ih.2 ⟨0, Nat.zero_le bound, hrest⟩⟩
        · obtain ⟨next, hnext, hrest⟩ := hrest
          exact ⟨next, Or.inr hnext, ih.2 ⟨count, by omega, hrest⟩⟩

/-! ## Pieces of a text -/

/-- The place before the character with an index, or at the end. -/
def placeAt (text : List Char) (index : Nat) : Place :=
  ⟨(text.take index).getLast?, text[index]?⟩

/-- The expression matches the piece of the text between two places. -/
def Matches (text : List Char) : Regex → Nat → Nat → Prop
  | .empty, start, stop => stop = start
  | .chars set, start, stop => (∃ c, text[start]? = some c ∧ set.mem c = true) ∧ stop = start + 1
  | .look wanted, start, stop => wanted.holds (placeAt text start) = true ∧ stop = start
  | .concat first second, start, stop =>
      ∃ middle, first.Matches text start middle ∧ second.Matches text middle stop
  | .either first second, start, stop =>
      first.Matches text start stop ∨ second.Matches text start stop
  | .repeated body least most, start, stop =>
      ∃ extra, (∀ limit ∈ most, extra ≤ limit - least) ∧
        Times (body.Matches text) (least + extra) start stop

theorem Matches.le {text : List Char} {regex : Regex} {start stop : Nat}
    (h : regex.Matches text start stop) : start ≤ stop := by
  induction regex generalizing start stop with
  | empty => exact h.ge
  | chars set => exact h.2 ▸ Nat.le_succ start
  | look wanted => exact h.2.ge
  | concat first second ihFirst ihSecond =>
      obtain ⟨middle, hfirst, hsecond⟩ := h
      exact (ihFirst hfirst).trans (ihSecond hsecond)
  | either first second ihFirst ihSecond => exact h.elim ihFirst ihSecond
  | repeated body least most ih =>
      obtain ⟨extra, -, htimes⟩ := h
      exact htimes.le fun _ _ => ih

/-! ## Marks -/

/-- The step takes marks on the places of a text to those that are reached from them. -/
structure Follows (text : List Char) (step : Marks → Marks) (Steps : Nat → Nat → Prop) :
    Prop where
  length_eq : ∀ marks, marks.length = text.length + 1 → (step marks).length = text.length + 1
  reaches : ∀ marks, marks.length = text.length + 1 → ∀ stop,
    (step marks)[stop]? = some true ↔ ∃ start, marks[start]? = some true ∧ Steps start stop

theorem iterate_eq (step : Marks → Marks) (count : Nat) (marks : Marks) :
    iterate step count marks = step^[count] marks := by
  induction count generalizing marks with
  | zero => rfl
  | succ count ih =>
      rw [iterate]
      split
      · next hsame => exact (Function.iterate_fixed hsame (count + 1)).symm
      · exact ih (step marks)

theorem getElem?_union {first second : Marks} (h : first.length = second.length) (index : Nat) :
    (first.union second)[index]? = some true ↔
      first[index]? = some true ∨ second[index]? = some true := by
  rw [Marks.union, List.getElem?_zipWith]
  rcases Nat.lt_or_ge index first.length with hlt | hge
  · rw [List.getElem?_eq_getElem hlt, List.getElem?_eq_getElem (h ▸ hlt)]
    simp
  · rw [List.getElem?_eq_none hge]
    simp [h ▸ hge]

namespace Follows

variable {text : List Char} {first second : Marks → Marks} {Firsts Seconds : Nat → Nat → Prop}

theorem stop_le (h : Follows text first Firsts) {start stop : Nat} (hstart : start ≤ text.length)
    (hstep : Firsts start stop) : stop ≤ text.length := by
  have hmarks : (List.replicate (text.length + 1) true).length = text.length + 1 :=
    List.length_replicate
  have hreached := (h.reaches _ hmarks stop).2
    ⟨start, List.getElem?_replicate_of_lt (Nat.lt_succ_of_le hstart), hstep⟩
  obtain ⟨hlt, -⟩ := List.getElem?_eq_some_iff.1 hreached
  rw [h.length_eq _ hmarks] at hlt
  exact Nat.le_of_lt_succ hlt

theorem congr (h : Follows text first Firsts) (hsteps : ∀ start stop, start ≤ text.length →
    (Firsts start stop ↔ Seconds start stop)) : Follows text first Seconds := by
  refine ⟨h.length_eq, fun marks hmarks stop => ?_⟩
  rw [h.reaches marks hmarks stop]
  refine exists_congr fun start => and_congr_right fun hstart => hsteps start stop ?_
  obtain ⟨hlt, -⟩ := List.getElem?_eq_some_iff.1 hstart
  omega

theorem refl : Follows text id fun start stop => stop = start :=
  ⟨fun _ => id, fun marks _ stop => by simp⟩

theorem comp (hfirst : Follows text first Firsts) (hsecond : Follows text second Seconds) :
    Follows text (fun marks => second (first marks)) fun start stop =>
      ∃ middle, Firsts start middle ∧ Seconds middle stop := by
  refine ⟨fun marks hmarks => hsecond.length_eq _ (hfirst.length_eq marks hmarks),
    fun marks hmarks stop => ?_⟩
  simp only [hsecond.reaches _ (hfirst.length_eq marks hmarks), hfirst.reaches marks hmarks]
  constructor
  · rintro ⟨middle, ⟨start, hstart, hmiddle⟩, hstop⟩
    exact ⟨start, hstart, middle, hmiddle, hstop⟩
  · rintro ⟨start, hstart, middle, hmiddle, hstop⟩
    exact ⟨middle, ⟨start, hstart, hmiddle⟩, hstop⟩

theorem union (hfirst : Follows text first Firsts) (hsecond : Follows text second Seconds) :
    Follows text (fun marks => (first marks).union (second marks)) fun start stop =>
      Firsts start stop ∨ Seconds start stop := by
  refine ⟨fun marks hmarks => ?_, fun marks hmarks stop => ?_⟩
  · rw [Marks.union, List.length_zipWith, hfirst.length_eq marks hmarks,
      hsecond.length_eq marks hmarks, Nat.min_self]
  · have hlength := (hfirst.length_eq marks hmarks).trans (hsecond.length_eq marks hmarks).symm
    simp only [and_or_left, exists_or, ← hfirst.reaches marks hmarks,
      ← hsecond.reaches marks hmarks]
    exact getElem?_union hlength stop

theorem iterate (h : Follows text first Firsts) (count : Nat) :
    Follows text (Regex.iterate first count) (Times Firsts count) := by
  induction count with
  | zero => exact refl
  | succ count ih =>
      have hround : Regex.iterate first (count + 1) =
          fun marks => Regex.iterate first count (first marks) :=
        funext fun marks => by rw [iterate_eq, iterate_eq, Function.iterate_succ_apply]
      rw [hround]
      exact h.comp ih

end Follows

theorem getElem?_placesAfter (before : Option Char) (text : List Char) (index : Nat) :
    (placesAfter before text)[index]? = if index ≤ text.length then
      some ⟨(text.take index).getLast?.or before, text[index]?⟩ else none := by
  induction text generalizing before index with
  | nil => cases index <;> simp [placesAfter]
  | cons c text ih =>
      cases index with
      | zero => simp [placesAfter]
      | succ index =>
        simp [placesAfter, ih, List.getLast?_cons]

theorem length_placesAfter (before : Option Char) (text : List Char) :
    (placesAfter before text).length = text.length + 1 := by
  induction text generalizing before with
  | nil => rfl
  | cons c text ih => rw [placesAfter, List.length_cons, List.length_cons, ih]

theorem length_places (text : List Char) : (places text).length = text.length + 1 :=
  length_placesAfter none text

theorem getElem?_places {text : List Char} {index : Nat} (hindex : index ≤ text.length) :
    (places text)[index]? = some (placeAt text index) := by
  rw [places, getElem?_placesAfter, if_pos hindex, Option.or_none, placeAt]

theorem getElem?_stepOver {set : CharSet} (before : Option Char) (text : List Char)
    (marks : Marks) (hmarks : marks.length = text.length + 1) (index : Nat) :
    (stepOver set (placesAfter before text) marks)[index]? = some true ↔
      marks[index]? = some true ∧ ∃ c, text[index]? = some c ∧ set.mem c = true := by
  induction text generalizing before marks index with
  | nil => simp [placesAfter, stepOver]
  | cons c text ih =>
      obtain ⟨mark, marks, rfl⟩ := List.exists_cons_of_length_eq_add_one hmarks
      rw [placesAfter, stepOver]
      cases index with
      | zero => simp
      | succ index =>
          simpa using ih (some c) marks (Nat.succ_injective hmarks) index

theorem length_stepOver {set : CharSet} (before : Option Char) (text : List Char)
    (marks : Marks) (hmarks : marks.length = text.length + 1) :
    (stepOver set (placesAfter before text) marks).length = text.length := by
  induction text generalizing before marks with
  | nil => simp [placesAfter, stepOver]
  | cons c text ih =>
      obtain ⟨mark, marks, rfl⟩ := List.exists_cons_of_length_eq_add_one hmarks
      rw [placesAfter, stepOver, List.length_cons, List.length_cons,
        ih (some c) marks (Nat.succ_injective hmarks)]

section Constructors

variable {text : List Char}

theorem follows_chars (set : CharSet) :
    Follows text ((chars set).ends (places text)) ((chars set).Matches text) := by
  refine ⟨fun marks hmarks => ?_, fun marks hmarks stop => ?_⟩
  · rw [ends, List.length_cons, places, length_stepOver none text marks hmarks]
  · rw [ends]
    cases stop with
    | zero => simp [Matches]
    | succ stop =>
        rw [List.getElem?_cons_succ, places, getElem?_stepOver none text marks hmarks]
        simp only [Matches, Nat.add_right_cancel_iff]
        constructor
        · rintro ⟨hmark, hchar⟩
          exact ⟨stop, hmark, hchar, rfl⟩
        · rintro ⟨_, hmark, hchar, rfl⟩
          exact ⟨hmark, hchar⟩

theorem follows_look (wanted : Look) :
    Follows text ((look wanted).ends (places text)) ((look wanted).Matches text) := by
  refine ⟨fun marks hmarks => ?_, fun marks hmarks stop => ?_⟩
  · rw [ends, List.length_zipWith, length_places, hmarks, Nat.min_self]
  · simp only [Matches, ends, List.getElem?_zipWith]
    constructor
    · intro h
      rcases Nat.lt_or_ge stop marks.length with hlt | hge
      · rw [getElem?_places (by omega), List.getElem?_eq_getElem hlt] at h
        obtain ⟨hmark, hholds⟩ := by simpa using h
        exact ⟨stop, by rw [List.getElem?_eq_getElem hlt, hmark], hholds, rfl⟩
      · simp [List.getElem?_eq_none hge] at h
    · rintro ⟨_, hmark, hholds, rfl⟩
      obtain ⟨hlt, -⟩ := List.getElem?_eq_some_iff.1 hmark
      rw [getElem?_places (by omega), hmark]
      simp [hholds]

theorem follows_repeated {body : Regex} (h : Follows text (body.ends (places text))
    (body.Matches text)) (least : Nat) (most : Option Nat) :
    Follows text ((body.repeated least most).ends (places text))
      ((body.repeated least most).Matches text) := by
  have hsteps : ∀ start stop, body.Matches text start stop → start ≤ stop := fun _ _ => Matches.le
  -- the rounds that have to be, then those that may be, neither more than there are places
  have hround := (h.iterate (min least (places text).length)).comp ((Follows.refl.union h).iterate
    (min ((most.map (· - least)).getD (places text).length) (places text).length))
  have hcount := length_places text
  refine hround.congr fun start stop hstart => ⟨?_, ?_⟩
  · rintro ⟨middle, hleast, hmore⟩
    obtain ⟨extra, hextra, hmore⟩ := times_or_iff.1 hmore
    have hmiddle := (h.iterate _).stop_le hstart hleast
    refine ⟨extra, fun limit hlimit => ?_,
      times_add_iff.2 ⟨middle, (times_min_iff hsteps (by omega)).1 hleast, hmore⟩⟩
    obtain rfl : most = some limit := hlimit
    exact hextra.trans (Nat.min_le_left _ _)
  · rintro ⟨extra, hextra, htimes⟩
    obtain ⟨middle, hleast, hmore⟩ := times_add_iff.1 htimes
    have hmiddle := (h.iterate _).stop_le hstart hleast
    have hstop := (h.iterate _).stop_le hmiddle hmore
    refine ⟨middle, (times_min_iff hsteps (by omega)).2 hleast,
      times_or_iff.2 ⟨min extra (places text).length, ?_,
        (times_min_iff hsteps (by omega)).2 hmore⟩⟩
    cases most with
    | none => exact le_min (Nat.min_le_right _ _) (Nat.min_le_right _ _)
    | some limit => exact min_le_min_right _ (hextra limit rfl)

end Constructors

theorem follows_ends (text : List Char) (regex : Regex) :
    Follows text (regex.ends (places text)) (regex.Matches text) := by
  induction regex with
  | empty => exact .refl
  | chars set => exact follows_chars set
  | look wanted => exact follows_look wanted
  | concat first second ihFirst ihSecond => exact ihFirst.comp ihSecond
  | either first second ihFirst ihSecond => exact ihFirst.union ihSecond
  | repeated body least most ih => exact follows_repeated ih least most

/-- An expression is found in a text exactly if it matches a piece of it. -/
theorem isFoundIn_iff (regex : Regex) (text : String) : regex.isFoundIn text = true ↔
    ∃ start stop, start ≤ text.toList.length ∧ regex.Matches text.toList start stop := by
  have hmarks : ((places text.toList).map fun _ => true).length = text.toList.length + 1 := by
    rw [List.length_map, length_places]
  have hmark {start : Nat} : ((places text.toList).map fun _ => true)[start]? = some true ↔
      start ≤ text.toList.length := by
    simp [length_places, List.getElem?_replicate]
  simp only [isFoundIn, List.any_eq_true, id_eq, exists_eq_right, List.mem_iff_getElem?,
    (follows_ends text.toList regex).reaches _ hmarks, hmark]
  exact exists_comm.trans (by simp)

/-! ## Stars -/

theorem CharSet.mem_single {c wanted : Char} : (single wanted).mem c = true ↔ c = wanted := by
  simp only [single, mem, Bool.and_eq_true, decide_eq_true_eq]
  exact ⟨fun h => le_antisymm h.2 h.1, fun h => ⟨h.ge, h.le⟩⟩

theorem CharSet.mem_complement_single {wanted : Char} (c : Char) :
    (complement (single wanted)).mem c = decide (c ≠ wanted) := by
  rw [mem, decide_not, ← Bool.eq_iff_iff.2 (mem_single.trans decide_eq_true_iff.symm)]

/-- Behind a star matches what would match in its place, or a character of its set comes and then
once more the star. -/
theorem matches_star_iff {text : List Char} {set : CharSet} {rest : Regex} {start stop : Nat} :
    (concat (repeated (chars set) 0 none) rest).Matches text start stop ↔
      rest.Matches text start stop ∨ ∃ c, text[start]? = some c ∧ set.mem c = true ∧
        (concat (repeated (chars set) 0 none) rest).Matches text (start + 1) stop := by
  simp only [Matches, Option.mem_def, reduceCtorEq, false_implies, implies_true, true_and,
    Nat.zero_add]
  constructor
  · rintro ⟨middle, ⟨_ | extra, htimes⟩, hrest⟩
    · obtain rfl : middle = start := htimes
      exact Or.inl hrest
    · obtain ⟨_, ⟨⟨c, hc, hmem⟩, rfl⟩, htimes⟩ := htimes
      exact Or.inr ⟨c, hc, hmem, middle, ⟨extra, htimes⟩, hrest⟩
  · rintro (hrest | ⟨c, hc, hmem, middle, ⟨extra, htimes⟩, hrest⟩)
    · exact ⟨start, ⟨0, rfl⟩, hrest⟩
    · exact ⟨middle, ⟨extra + 1, _, ⟨⟨c, hc, hmem⟩, rfl⟩, htimes⟩, hrest⟩

end JarTailor.Regex
