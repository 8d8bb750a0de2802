import JarTailor.Proofs.ClassFile.Growth
import Mathlib.Data.List.Forall2

/-!
# Pools with room

An edit that interns a few constants succeeds where there is room for them. Where it has been made
once it changes nothing any more, however the pool grew since. A pool that can be written still can
be after texts have been interned that can be.
-/

namespace JarTailor

namespace Pool

section Finding

variable {before after pool : Pool} {constant : Constant} {index : Index}

theorem find?_eq_map_idxOf? (pool : Pool) (constant : Constant) :
    pool.find? constant = (pool.entries.toList.idxOf? constant).map UInt16.ofNat := by
  rcases pool with ⟨⟨entries⟩⟩
  rw [find?, List.idxOf?_toArray]

theorem Extends.find? (h : Extends before after) (hfind : before.find? constant = some index) :
    after.find? constant = some index := by
  have hprefix : before.entries.toList <+: after.entries.toList := by
    refine List.prefix_iff_getElem?.2 fun slot hslot => ?_
    rw [Array.getElem?_toList]
    exact h slot _ (by rw [Array.getElem_toList, Array.getElem?_eq_getElem])
  obtain ⟨more, hmore⟩ := hprefix
  rw [find?_eq_map_idxOf?] at hfind ⊢
  obtain ⟨slot, hslot, rfl⟩ := Option.map_eq_some_iff.1 hfind
  rw [List.idxOf?] at hslot
  rw [← hmore, List.idxOf?, List.findIdx?_append, hslot]
  rfl

theorem find?_append (hnarrow : constant.isWide = false) (hnew : pool.find? constant = none) :
    (pool.append constant).find? constant = some (UInt16.ofNat pool.size) := by
  rw [find?_eq_map_idxOf?, Option.map_eq_none_iff, List.idxOf?] at hnew
  rw [find?_eq_map_idxOf?, entries_append_of_narrow _ hnarrow, Array.toList_push, List.idxOf?,
    List.findIdx?_append, hnew, ← List.idxOf?, List.idxOf?_singleton, beq_self_eq_true]
  simp [size]

end Finding

namespace Edit

variable {α β : Type}

/-- The edit yields `value` and changes nothing, in the pool and wherever it grows. -/
def Settled (edit : Edit α) (value : α) (pool : Pool) : Prop :=
  ∀ later, pool.Extends later → edit.complete later = .ok (value, later)

/-- From the pool on, the edit succeeds wherever `count` slots are left, fills no more than these
and is settled then. -/
def Takes (pool : Pool) (edit : Edit α) (count : Nat) : Prop :=
  ∀ before, pool.Extends before → before.size + count ≤ capacity → ∃ value after,
    edit.complete before = .ok (value, after) ∧ before.Extends after ∧
      after.size ≤ before.size + count ∧ edit.Settled value after

variable {pool later : Pool} {edit : Edit α} {value : α} {count : Nat}

theorem Settled.mono (h : edit.Settled value pool) (hlater : pool.Extends later) :
    edit.Settled value later :=
  fun last hlast => h last (hlater.trans hlast)

theorem Settled.takes (h : edit.Settled value pool) : edit.Takes pool 0 :=
  fun before hbefore _ => ⟨value, before, h before hbefore, .refl before, Nat.le_refl _,
    h.mono hbefore⟩

theorem takes_pure (pool : Pool) (value : α) : Takes pool (pure value) 0 :=
  Settled.takes fun _ _ => pure_eq_ok_iff.2 ⟨rfl, rfl⟩

theorem settled_bind {next : α → Edit β} {result : β} (h : edit.Settled value pool)
    (hnext : (next value).Settled result pool) : (edit >>= next).Settled result pool :=
  fun last hlast => bind_eq_ok_iff.2 ⟨value, last, h last hlast, hnext last hlast⟩

theorem takes_bind {next : α → Edit β} {others : Nat} (h : edit.Takes pool count)
    (hnext : ∀ value later, pool.Extends later → edit.Settled value later →
      (next value).Takes later others) : (edit >>= next).Takes pool (count + others) := by
  intro before hbefore hroom
  obtain ⟨value, middle, hedit, hgrown, hsize, hsettled⟩ := h before hbefore (by omega)
  obtain ⟨result, after, hrest, hgrown', hsize', hsettled'⟩ :=
    hnext value middle (hbefore.trans hgrown) hsettled middle (.refl middle) (by omega)
  exact ⟨result, after, bind_eq_ok_iff.2 ⟨value, middle, hedit, hrest⟩, hgrown.trans hgrown',
    by omega, settled_bind (hsettled.mono hgrown') hsettled'⟩

/-- Wherever the edit succeeds, it has appended to the pool and is settled. -/
def Settles (edit : Edit α) : Prop :=
  ∀ ⦃before after : Pool⦄ ⦃value : α⦄, edit.complete before = .ok (value, after) →
    before.Extends after ∧ edit.Settled value after

theorem Settles.bind {next : α → Edit β} (h : edit.Settles)
    (hnext : ∀ value, (next value).Settles) : (edit >>= next).Settles := by
  intro before after result hall
  obtain ⟨value, middle, hedit, hrest⟩ := bind_eq_ok_iff.1 hall
  obtain ⟨hgrown, hsettled⟩ := h hedit
  obtain ⟨hgrown', hsettled'⟩ := hnext value hrest
  exact ⟨hgrown.trans hgrown', settled_bind (hsettled.mono hgrown') hsettled'⟩

/-- What holds of a pool holds after each edit of it that succeeds. -/
def Keeps (holds : Pool → Prop) (edit : Edit α) : Prop :=
  ∀ ⦃before after : Pool⦄ ⦃value : α⦄, edit.complete before = .ok (value, after) →
    holds before → holds after

variable {holds : Pool → Prop}

theorem keeps_pure (value : α) : Keeps holds (pure value) := by
  intro before after result h hbefore
  obtain ⟨-, rfl⟩ := pure_eq_ok_iff.1 h
  exact hbefore

theorem Keeps.bind {next : α → Edit β} (h : edit.Keeps holds)
    (hnext : ∀ value, (next value).Keeps holds) : (edit >>= next).Keeps holds := by
  intro before after result hall hbefore
  obtain ⟨value, middle, hedit, hrest⟩ := bind_eq_ok_iff.1 hall
  exact hnext value hrest (h hedit hbefore)

theorem Keeps.mapM {step : α → Edit β} {values : List α}
    (h : ∀ value ∈ values, (step value).Keeps holds) : (values.mapM step).Keeps holds := by
  induction values with
  | nil => exact keeps_pure []
  | cons value values ih =>
      rw [List.mapM_cons]
      apply (h value List.mem_cons_self).bind
      intro result
      apply (ih fun other hother => h other (List.mem_cons_of_mem _ hother)).bind
      intro results
      exact keeps_pure (result :: results)

end Edit

section Interning

variable {pool : Pool}

theorem settled_intern {constant : Constant} {index : Index}
    (h : pool.find? constant = some index) : (intern constant).Settled index pool := by
  intro later hlater
  rw [Edit.complete_eq_ok_iff, intern, hlater.find? h]

theorem takes_intern {constant : Constant} (hnarrow : constant.isWide = false) :
    (intern constant).Takes pool 1 := by
  intro before _ hroom
  cases hfind : before.find? constant with
  | some index =>
      have hsettled := settled_intern hfind
      exact ⟨index, before, hsettled before (.refl before), .refl before, Nat.le_succ _, hsettled⟩
  | none =>
      have hwidth : constant.width = 1 := by simp [Constant.width, hnarrow]
      have hpush : (push constant).complete before =
          .ok (UInt16.ofNat before.size, before.append constant) :=
        push_eq_ok_iff.2 ⟨by rwa [hwidth], rfl, rfl⟩
      have hsize : (before.append constant).size = before.size + 1 := by rw [size_append, hwidth]
      refine ⟨_, _, ?_, extends_append hnarrow, Nat.le_of_eq hsize,
        settled_intern (find?_append hnarrow hfind)⟩
      rw [Edit.complete_eq_ok_iff, intern, hfind]
      exact Edit.complete_eq_ok_iff.1 hpush

theorem settles_intern {constant : Constant} (hnarrow : constant.isWide = false) :
    (intern constant).Settles := by
  intro before after index h
  cases hfind : before.find? constant with
  | some found =>
      have hsame := settled_intern hfind before (.refl before)
      obtain ⟨rfl, rfl⟩ := Prod.mk.inj (Except.ok.inj (hsame.symm.trans h))
      exact ⟨.refl _, settled_intern hfind⟩
  | none =>
      have hpush : (push constant).complete before = .ok (index, after) := by
        rw [Edit.complete_eq_ok_iff, intern, hfind] at h
        exact Edit.complete_eq_ok_iff.2 h
      obtain ⟨-, rfl, rfl⟩ := push_eq_ok_iff.1 hpush
      exact ⟨extends_append hnarrow, settled_intern (find?_append hnarrow hfind)⟩

theorem settles_internText (text : String) : (internText text).Settles :=
  settles_intern rfl

theorem settles_internClass (name : String) : (internClass name).Settles :=
  (settles_internText name).bind fun _ => settles_intern rfl

theorem settles_internString (text : String) : (internString text).Settles :=
  (settles_internText text).bind fun _ => settles_intern rfl

theorem settles_internNameAndType (name descriptor : String) :
    (internNameAndType name descriptor).Settles :=
  (settles_internText name).bind fun _ =>
    (settles_internText descriptor).bind fun _ => settles_intern rfl

theorem settles_internMethod (method : MemberRef) : (internMethod method).Settles := by
  apply (settles_internClass method.owner).bind
  intro owner
  apply (settles_internNameAndType method.name method.descriptor).bind
  intro pair
  split
  · exact settles_intern rfl
  · exact settles_intern rfl

theorem takes_internText (text : String) : (internText text).Takes pool 1 :=
  takes_intern rfl

theorem takes_internClass (name : String) : (internClass name).Takes pool 2 :=
  Edit.takes_bind (takes_internText name) fun _ _ _ _ => takes_intern rfl

theorem takes_internString (text : String) : (internString text).Takes pool 2 :=
  Edit.takes_bind (takes_internText text) fun _ _ _ _ => takes_intern rfl

theorem takes_internNameAndType (name descriptor : String) :
    (internNameAndType name descriptor).Takes pool 3 :=
  Edit.takes_bind (takes_internText name) fun _ _ _ _ =>
    Edit.takes_bind (takes_internText descriptor) fun _ _ _ _ => takes_intern rfl

/-- A method of a class that the pool has needs no entry for the class. -/
theorem takes_internMethod {method : MemberRef} {owner : Index}
    (h : (internClass method.owner).Settled owner pool) : (internMethod method).Takes pool 4 := by
  have hlast : ∀ owner pair later, Edit.Takes later (if method.isInterface then
      intern (.interfaceMethodRef owner pair) else intern (.methodRef owner pair)) 1 := by
    intro owner pair later
    split <;> exact takes_intern rfl
  exact Edit.takes_bind h.takes fun owner _ _ _ =>
    Edit.takes_bind (takes_internNameAndType method.name method.descriptor) fun pair later _ _ =>
      hlast owner pair later

/-- A pool that can be written takes one more constant that can be. -/
theorem Fits.append {constant : Constant} (h : pool.Fits) (hconstant : constant.Fits)
    (hroom : pool.size + constant.width ≤ capacity) : (pool.append constant).Fits := by
  obtain ⟨constants, hfits, hentries⟩ := h.constants
  have hall : (pool.append constant).entries.toList =
      .unusable :: (constants ++ [constant]).flatMap Constant.slots := by
    rw [toList_append, hentries, List.cons_append, List.flatMap_append, List.flatMap_singleton]
  apply fits_of_entries hall
  · intro other hother
    rcases List.mem_append.1 hother with hother | hother
    · exact hfits other hother
    · rwa [List.mem_singleton.1 hother]
  · rw [size_eq_length, hentries, List.length_cons, Constant.length_flatMap_slots] at hroom
    rw [total_append, total_cons, total_nil]
    omega

end Interning

end Pool

end JarTailor
