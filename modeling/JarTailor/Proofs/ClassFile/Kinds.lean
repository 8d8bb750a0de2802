import JarTailor.Proofs.ClassFile.Growth
import Mathlib.Data.List.Basic

/-!
# The kinds of the slots of a pool

Where the unusable slots of a pool are depends on the kinds of its constants alone. So a pool
stays laid out when a constant makes room for one of its kind, and when constants are appended.
-/

namespace JarTailor

namespace Constant

/-- The byte that tells the kind of a constant; an unusable slot has none. -/
def tag? (constant : Constant) : Option UInt8 :=
  constant.encode.head?

theorem isWide_eq_tag (constant : Constant) :
    constant.isWide = (constant.tag? == some 5 || constant.tag? == some 6) := by
  cases constant <;> rfl

theorem tag?_eq_none_iff {constant : Constant} :
    constant.tag? = none ↔ constant = .unusable := by
  cases constant <;> simp [tag?, encode]

theorem isWide_congr {first second : Constant} (h : first.tag? = second.tag?) :
    first.isWide = second.isWide := by
  rw [isWide_eq_tag, isWide_eq_tag, h]

theorem ne_unusable_congr {first second : Constant} (h : first.tag? = second.tag?)
    (husable : second ≠ .unusable) : first ≠ .unusable := by
  intro heq
  apply husable
  rw [← tag?_eq_none_iff, ← h, tag?_eq_none_iff]
  exact heq

theorem exists_slots_of_tags {slots : List Constant} {constant : Constant}
    (h : slots.map tag? = constant.slots.map tag?) :
    ∃ other : Constant, other.tag? = constant.tag? ∧ slots = other.slots := by
  unfold Constant.slots at h
  cases hwide : constant.isWide with
  | true =>
      rw [hwide, if_pos rfl, List.map_cons, List.map_eq_cons_iff] at h
      obtain ⟨other, rest, rfl, htag, h⟩ := h
      obtain ⟨last, rfl, htail⟩ := List.map_eq_singleton_iff.1 h
      refine ⟨other, htag, ?_⟩
      have hlast : last = .unusable := tag?_eq_none_iff.1 htail
      rw [Constant.slots, isWide_congr htag, hwide, if_pos rfl, hlast]
  | false =>
      rw [hwide, if_neg (by decide)] at h
      obtain ⟨other, rfl, htag⟩ := List.map_eq_singleton_iff.1 h
      refine ⟨other, htag, ?_⟩
      rw [Constant.slots, isWide_congr htag, hwide, if_neg (by decide)]

/-- Slots of the kinds of some constants are the slots of other constants of these kinds. -/
theorem exists_flatMap_slots_of_tags {constants slots : List Constant}
    (husable : ∀ constant ∈ constants, constant ≠ .unusable)
    (h : slots.map tag? = (constants.flatMap Constant.slots).map tag?) :
    ∃ others : List Constant, (∀ other ∈ others, other ≠ .unusable) ∧
      slots = others.flatMap Constant.slots := by
  induction constants generalizing slots with
  | nil =>
      refine ⟨[], by simp, ?_⟩
      simpa using h
  | cons constant constants ih =>
      rw [List.flatMap_cons, List.map_append, List.map_eq_append_iff] at h
      obtain ⟨front, back, rfl, hfront, hback⟩ := h
      obtain ⟨other, htag, rfl⟩ := exists_slots_of_tags hfront
      obtain ⟨others, hothers, rfl⟩ :=
        ih (fun constant hconstant => husable constant (List.mem_cons_of_mem _ hconstant)) hback
      refine ⟨other :: others, ?_, rfl⟩
      intro found hfound
      rcases List.mem_cons.1 hfound with rfl | hfound
      · exact ne_unusable_congr htag (husable constant List.mem_cons_self)
      · exact hothers found hfound

/-- Behind a narrow slot, the unusable slots are those that follow a wide constant. -/
theorem getElem?_flatMap_slots_eq_unusable_iff {constants : List Constant} {front : Constant}
    (husable : ∀ constant ∈ constants, constant ≠ .unusable) (hfront : front.isWide = false)
    (slot : Nat) :
    (front :: constants.flatMap Constant.slots)[slot + 1]? = some .unusable ↔
      ∃ constant, (front :: constants.flatMap Constant.slots)[slot]? = some constant ∧
        constant.isWide = true := by
  induction constants generalizing front slot with
  | nil =>
      cases slot with
      | zero => simp [hfront]
      | succ slot => simp
  | cons constant constants ih =>
      have hconstant : constant ≠ .unusable := husable constant List.mem_cons_self
      have hothers : ∀ other ∈ constants, other ≠ .unusable := fun other hother =>
        husable other (List.mem_cons_of_mem _ hother)
      rw [List.flatMap_cons, Constant.slots]
      cases hwide : constant.isWide with
      | true =>
          match slot with
          | 0 => simp [hfront, hconstant]
          | 1 => simp [hwide]
          | slot + 2 =>
              have hunusable : isWide .unusable = false := rfl
              exact ih hothers hunusable slot
      | false =>
          match slot with
          | 0 => simp [hfront, hconstant]
          | slot + 1 => exact ih hothers hwide slot

end Constant

namespace Pool

/-- Every slot of the first pool holds a constant of the same kind in the second. -/
def KeepsKinds (before after : Pool) : Prop :=
  ∀ (slot : Nat) (constant : Constant), before.entries[slot]? = some constant →
    ∃ other, after.entries[slot]? = some other ∧ other.tag? = constant.tag?

variable {before middle after : Pool}

theorem KeepsKinds.trans (h : KeepsKinds before middle) (h' : KeepsKinds middle after) :
    KeepsKinds before after := by
  intro slot constant hslot
  obtain ⟨other, hother, htag⟩ := h slot constant hslot
  obtain ⟨last, hlast, htag'⟩ := h' slot other hother
  exact ⟨last, hlast, htag'.trans htag⟩

theorem Extends.keepsKinds (h : Extends before after) : KeepsKinds before after :=
  fun slot constant hslot => ⟨constant, h slot constant hslot, rfl⟩

/-- The slots of the two pools hold the same kinds. -/
def SameKinds (before after : Pool) : Prop :=
  after.entries.toList.map Constant.tag? = before.entries.toList.map Constant.tag?

theorem SameKinds.size_eq (h : SameKinds before after) : after.size = before.size := by
  have hlength := congrArg List.length h
  rwa [List.length_map, List.length_map, ← size_eq_length, ← size_eq_length] at hlength

theorem SameKinds.keepsKinds (h : SameKinds before after) : KeepsKinds before after := by
  intro slot constant hslot
  have htag : (after.entries.toList.map Constant.tag?)[slot]? = some constant.tag? := by
    rw [h, List.getElem?_map, Array.getElem?_toList, hslot]
    rfl
  rw [List.getElem?_map, Option.map_eq_some_iff, Array.getElem?_toList] at htag
  exact htag

theorem LaidOut.of_sameKinds (h : SameKinds before after) (hlaidOut : before.LaidOut) :
    after.LaidOut := by
  obtain ⟨constants, husable, hentries⟩ := hlaidOut
  unfold SameKinds at h
  rw [hentries, List.map_cons, List.map_eq_cons_iff] at h
  obtain ⟨first, rest, hafter, hfirst, hrest⟩ := h
  obtain ⟨others, hothers, rfl⟩ := Constant.exists_flatMap_slots_of_tags husable hrest
  rw [Constant.tag?_eq_none_iff.1 hfirst] at hafter
  exact ⟨others, hothers, hafter⟩

theorem LaidOut.of_gains {classes descriptors : String → Prop}
    (h : Gains classes descriptors before after) (hlaidOut : before.LaidOut) : after.LaidOut := by
  obtain ⟨constants, husable, hentries⟩ := hlaidOut
  obtain ⟨added, hadded, hadds⟩ := h.added
  have hslots : added.flatMap Constant.slots = added := by
    have hnarrow : ∀ constant ∈ added, constant.slots = [constant] := by
      intro constant hconstant
      rw [Constant.slots, (hadds constant hconstant).isWide, if_neg (by decide)]
    rw [List.flatMap_congr hnarrow, List.flatMap_singleton']
  refine ⟨constants ++ added, ?_, ?_⟩
  · intro constant hconstant
    rcases List.mem_append.1 hconstant with hconstant | hconstant
    · exact husable constant hconstant
    · rintro rfl
      exact hadds _ hconstant
  · rw [hadded, hentries, List.flatMap_append, hslots]
    rfl

theorem LaidOut.first {pool : Pool} (h : pool.LaidOut) : pool.entries[0]? = some .unusable := by
  obtain ⟨constants, -, hentries⟩ := h
  rw [← Array.getElem?_toList, hentries]
  rfl

theorem LaidOut.unusable_iff {pool : Pool} (h : pool.LaidOut) (slot : Nat) :
    pool.entries[slot + 1]? = some .unusable ↔
      ∃ constant, pool.entries[slot]? = some constant ∧ constant.isWide = true := by
  obtain ⟨constants, husable, hentries⟩ := h
  simp only [← Array.getElem?_toList, hentries]
  exact Constant.getElem?_flatMap_slots_eq_unusable_iff husable rfl slot

end Pool

end JarTailor
