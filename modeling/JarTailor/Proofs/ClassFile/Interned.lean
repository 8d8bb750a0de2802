import JarTailor.Proofs.ClassFile.Room
import Mathlib

/-!
# Interned constants

Interning looks a constant up or appends it, and first of all the constants that it names. Whatever
the pool holds already, and also when it becomes full on the way, nothing but the end of the pool
changes. An index that is returned resolves to what was asked for, and from then on the same request
finds it.
-/

namespace JarTailor.Pool

namespace Edit

variable {α β : Type}

/-- Run to its end or to its failure, the edit only appends, up to the capacity of a pool, and it
fails only where it would have to go beyond. -/
def Appends (edit : Edit α) : Prop :=
  ∀ before : Pool, before.size ≤ capacity → before.Extends (edit.run before).2 ∧
    (edit.run before).2.size ≤ capacity ∧
      ∀ failure, (edit.run before).1 = .error failure → failure = Failure.of .poolFull

theorem run_bind (edit : Edit α) (next : α → Edit β) (before : Pool) :
    (edit >>= next).run before =
      ExceptT.bindCont next (edit.run before).1 (edit.run before).2 := rfl

theorem Appends.bind {edit : Edit α} {next : α → Edit β} (h : edit.Appends)
    (hnext : ∀ value, (next value).Appends) : (edit >>= next).Appends := by
  intro before hsize
  obtain ⟨hextends, hbounded, hfailure⟩ := h before hsize
  rw [run_bind]
  cases hresult : (edit.run before).1 with
  | error failure =>
      refine ⟨hextends, hbounded, ?_⟩
      rintro _ ⟨⟩
      exact hfailure failure hresult
  | ok value =>
      obtain ⟨hextends', hbounded', hfailure'⟩ := hnext value _ hbounded
      exact ⟨hextends.trans hextends', hbounded', hfailure'⟩

end Edit

section Appending

theorem appends_push {constant : Constant} (hnarrow : constant.isWide = false) :
    (push constant).Appends := by
  intro before hsize
  by_cases hfull : before.size + constant.width > capacity
  · have hrun : (push constant).run before = (.error (Failure.of .poolFull), before) :=
      if_pos hfull
    rw [hrun]
    refine ⟨.refl before, hsize, ?_⟩
    rintro _ ⟨⟩
    rfl
  · have hrun : (push constant).run before =
        (.ok (UInt16.ofNat before.size), before.append constant) := if_neg hfull
    rw [hrun]
    refine ⟨extends_append hnarrow, ?_, by simp⟩
    rw [size_append]
    exact Nat.le_of_not_gt hfull

theorem appends_intern {constant : Constant} (hnarrow : constant.isWide = false) :
    (intern constant).Appends := by
  intro before hsize
  cases hfind : before.find? constant with
  | some index =>
      have hrun : (intern constant).run before = (.ok index, before) := by
        simp only [ExceptT.run, intern, hfind]
      rw [hrun]
      exact ⟨.refl before, hsize, by simp⟩
  | none =>
      have hrun : (intern constant).run before = (push constant).run before := by
        simp only [ExceptT.run, intern, hfind]
      rw [hrun]
      exact appends_push hnarrow before hsize

theorem appends_internText (text : String) : (internText text).Appends :=
  appends_intern rfl

theorem appends_internClass (name : String) : (internClass name).Appends :=
  (appends_internText name).bind fun _ => appends_intern rfl

theorem appends_internString (text : String) : (internString text).Appends :=
  (appends_internText text).bind fun _ => appends_intern rfl

theorem appends_internNameAndType (name descriptor : String) :
    (internNameAndType name descriptor).Appends :=
  (appends_internText name).bind fun _ =>
    (appends_internText descriptor).bind fun _ => appends_intern rfl

theorem appends_internMethod (method : MemberRef) : (internMethod method).Appends := by
  apply (appends_internClass method.owner).bind
  intro owner
  apply (appends_internNameAndType method.name method.descriptor).bind
  intro pair
  split
  · exact appends_intern rfl
  · exact appends_intern rfl

/-- A method of a class that the pool need not have takes six constants: three texts, the class, the
name with its type, and the method. -/
theorem takes_internMethod_anew (pool : Pool) (method : MemberRef) :
    (internMethod method).Takes pool (2 + (3 + 1)) := by
  apply Edit.takes_bind (takes_internClass method.owner)
  intro owner pool _ _
  apply Edit.takes_bind (takes_internNameAndType method.name method.descriptor)
  intro pair pool _ _
  split
  · exact takes_intern rfl
  · exact takes_intern rfl

end Appending

/-- Interning in a pool: an edit that needs at most `count` new constants, and whose index is to
resolve to what was asked for. -/
structure Interns (edit : Edit Index) (count : Nat) (resolves : Pool → Index → Prop)
    (before : Pool) : Prop where
  extended : before.Extends (edit.run before).2
  bounded : (edit.run before).2.size ≤ capacity
  resolved : ∀ index, (edit.run before).1 = .ok index → resolves (edit.run before).2 index
  again : ∀ index, (edit.run before).1 = .ok index →
    ∀ later, (edit.run before).2.Extends later → edit.run later = (.ok index, later)
  refused : ∀ failure, (edit.run before).1 = .error failure →
    failure = Failure.of .poolFull ∧ capacity < before.size + count

/-- What the laws of an edit come to in one pool. -/
theorem Edit.Appends.interns {edit : Edit Index} {count : Nat} {resolves : Pool → Index → Prop}
    {before : Pool} (happends : edit.Appends) (htakes : edit.Takes before count)
    (hsettles : edit.Settles) (hsize : before.size ≤ capacity)
    (hresolves : ∀ index after, edit.complete before = .ok (index, after) →
      resolves after index) : Interns edit count resolves before := by
  obtain ⟨hextends, hbounded, hfull⟩ := happends before hsize
  have hcomplete (index : Index) (h : (edit.run before).1 = .ok index) :
      edit.complete before = .ok (index, (edit.run before).2) :=
    Edit.complete_eq_ok_iff.2 (Prod.ext h rfl)
  refine ⟨hextends, hbounded, fun index h => hresolves index _ (hcomplete index h), ?_, ?_⟩
  · intro index h later hlater
    exact Edit.complete_eq_ok_iff.1 ((hsettles (hcomplete index h)).2 later hlater)
  · intro failure h
    refine ⟨hfull failure h, Nat.lt_of_not_le fun hroom => ?_⟩
    obtain ⟨index, after, hdone, -⟩ := htakes before (.refl before) hroom
    rw [Edit.complete_eq_ok_iff] at hdone
    have hok : (edit.run before).1 = .ok index := congrArg Prod.fst hdone
    rw [hok] at h
    cases h

section Kinds

variable {pool : Pool}

theorem interns_internText (hsize : pool.size ≤ capacity) (text : String) :
    Interns (internText text) 1 (fun after index => after.text index = .ok text) pool := by
  apply (appends_internText text).interns (takes_internText text) (settles_internText text) hsize
  intro index after h
  have hgains : Grows pool after ∧ _ := gains_internText hsize h
  exact hgains.2

theorem interns_internClass (hsize : pool.size ≤ capacity) (name : String) :
    Interns (internClass name) 2 (fun after index => after.className index = .ok name) pool := by
  apply (appends_internClass name).interns (takes_internClass name) (settles_internClass name) hsize
  intro index after h
  have hgains : Grows pool after ∧ _ := gains_internClass hsize h trivial
  exact hgains.2

theorem interns_internString (hsize : pool.size ≤ capacity) (text : String) :
    Interns (internString text) 2 (fun after index => after.IsString index text) pool := by
  apply (appends_internString text).interns (takes_internString text) (settles_internString text)
    hsize
  intro index after h
  have hgains : Grows pool after ∧ _ := gains_internString hsize h
  exact hgains.2

theorem interns_internNameAndType (hsize : pool.size ≤ capacity) (name descriptor : String) :
    Interns (internNameAndType name descriptor) 3
      (fun after index => after.nameAndType index = .ok (name, descriptor)) pool := by
  apply (appends_internNameAndType name descriptor).interns
    (takes_internNameAndType name descriptor) (settles_internNameAndType name descriptor) hsize
  intro index after h
  have hgains : Grows pool after ∧ _ := gains_internNameAndType hsize h trivial
  exact hgains.2

theorem interns_internMethod (hsize : pool.size ≤ capacity) (method : MemberRef) :
    Interns (internMethod method) 6 (fun after index => after.member index = .ok method) pool := by
  apply (appends_internMethod method).interns (takes_internMethod_anew pool method)
    (settles_internMethod method) hsize
  intro index after h
  have hgains : Grows pool after ∧ _ := gains_internMethod hsize h trivial trivial
  exact hgains.2.member

/-- In a pool within its capacity, entries of every kind are interned. -/
theorem interns_of_size_le (hsize : pool.size ≤ capacity) :
    (∀ text, Interns (internText text) 1 (fun after index => after.text index = .ok text) pool) ∧
    (∀ name, Interns (internClass name) 2
      (fun after index => after.className index = .ok name) pool) ∧
    (∀ text, Interns (internString text) 2 (fun after index => after.IsString index text) pool) ∧
    (∀ name descriptor, Interns (internNameAndType name descriptor) 3
      (fun after index => after.nameAndType index = .ok (name, descriptor)) pool) ∧
    ∀ method, Interns (internMethod method) 6
      (fun after index => after.member index = .ok method) pool :=
  ⟨interns_internText hsize, interns_internClass hsize, interns_internString hsize,
    interns_internNameAndType hsize, interns_internMethod hsize⟩

end Kinds

/-- The text `A` twice, and a class that is named by the second. -/
def poolNamingTwice : Pool :=
  ⟨#[.unusable, .utf8 (Utf8.encode "A"), .utf8 (Utf8.encode "A"), .classRef 2]⟩

/-- The class `A` is interned by the first of its texts, so that it gets an entry of its own. -/
theorem interns_of_size_le_poolNamingTwice :
    poolNamingTwice.size ≤ capacity ∧
      (internClass "A").run poolNamingTwice = (.ok 4, poolNamingTwice.append (.classRef 1)) ∧
      (poolNamingTwice.append (.classRef 1)).className 4 = .ok "A" ∧
      (internClass "A").run (poolNamingTwice.append (.classRef 1)) =
        (.ok 4, poolNamingTwice.append (.classRef 1)) := by
  have hsize : poolNamingTwice.size ≤ capacity := by decide
  have hrun : (internClass "A").run poolNamingTwice =
      (.ok 4, poolNamingTwice.append (.classRef 1)) := by cbv
  have hinterns := (interns_of_size_le hsize).2.1 "A"
  have hresolved := hinterns.resolved 4 (congrArg Prod.fst hrun)
  have hagain := hinterns.again 4 (congrArg Prod.fst hrun) _ (.refl _)
  rw [hrun] at hresolved hagain
  exact ⟨hsize, hrun, hresolved, hagain⟩

end JarTailor.Pool
