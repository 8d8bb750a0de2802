import JarTailor.Hierarchy
import Mathlib.Logic.Function.Iterate
import Mathlib.Logic.Relation

/-!
# Sweeping finds every class that derives

A sweep finds nothing but classes that extend what was found. When a sweep finds nothing more, every
class is found that extends one which was found. So sweeping settles on the classes from which a
chain of superclasses and interfaces leads to the start, in whatever order the classes are listed.
-/

namespace JarTailor.Hierarchy

/-- A listed class has another as its superclass or among its interfaces. -/
def Extends (classes : List (String × References)) (name parent : String) : Prop :=
  ∃ entry, (name, entry) ∈ classes ∧ parent ∈ entry.supertypes

section Sweeps

variable {name parent : String} {entry : References} {classes others : List (String × References)}
variable {found : NameSet}

theorem Extends.cons {first : String × References} (h : Extends classes name parent) :
    Extends (first :: classes) name parent := by
  obtain ⟨entry, hentry, hparent⟩ := h
  exact ⟨entry, List.mem_cons_of_mem _ hentry, hparent⟩

/-- The step: what holds of the classes found, and of every class that extends one of which it
holds, holds of the classes that a sweep finds. -/
theorem sweep_preserves {holds : String → Prop} (hfound : ∀ name ∈ found, holds name)
    (hextends : ∀ name parent, Extends classes name parent → holds parent → holds name) :
    ∀ name ∈ sweep classes found, holds name := by
  induction classes generalizing found with
  | nil => exact hfound
  | cons first classes ih =>
      rw [sweep_cons]
      refine ih ?_ fun name parent h => hextends name parent h.cons
      split
      · next hjoins =>
          rw [Bool.and_eq_true, List.any_eq_true] at hjoins
          obtain ⟨-, parent, hparent, hmem⟩ := hjoins
          intro name hname
          rcases Std.ExtTreeSet.mem_insert.1 hname with heq | hname
          · rw [← Std.compare_eq_iff_eq.1 heq]
            exact hextends first.1 parent ⟨first.2, List.mem_cons_self, hparent⟩
              (hfound parent (Std.ExtTreeSet.contains_iff_mem.1 hmem))
          · exact hfound name hname
      · exact hfound

theorem mem_sweep_of_extends (h : Extends classes name parent) (hparent : parent ∈ found) :
    name ∈ sweep classes found := by
  obtain ⟨entry, hentry, hsupertype⟩ := h
  induction classes generalizing found with
  | nil => cases hentry
  | cons first classes ih =>
      rw [sweep_cons]
      rcases List.mem_cons.1 hentry with rfl | hentry
      · refine mem_sweep_of_mem ?_
        split
        · exact Std.ExtTreeSet.mem_insert_self
        · next hstays =>
            by_contra hname
            refine hstays (Bool.and_eq_true_iff.2 ⟨isLeft_iff.2 hname, List.any_eq_true.2 ?_⟩)
            exact ⟨parent, hsupertype, Std.ExtTreeSet.contains_iff_mem.2 hparent⟩
      · refine ih ?_ hentry
        split
        · exact Std.ExtTreeSet.mem_insert.2 (Or.inr hparent)
        · exact hparent

theorem size_le_size_sweep : found.size ≤ (sweep classes found).size := by
  induction classes generalizing found with
  | nil => exact Nat.le_refl _
  | cons first classes ih =>
      rw [sweep_cons]
      refine Nat.le_trans ?_ ih
      split
      · rw [Std.ExtTreeSet.size_insert]
        split <;> omega
      · exact Nat.le_refl _

theorem sweep_eq_of_size (h : (sweep classes found).size = found.size) :
    sweep classes found = found := by
  induction classes generalizing found with
  | nil => rfl
  | cons first classes ih =>
      rw [sweep_cons] at h ⊢
      split at h
      · next hjoins =>
          have hle : (found.insert first.1).size ≤ found.size := h ▸ size_le_size_sweep
          rw [Bool.and_eq_true, Bool.not_eq_true'] at hjoins
          rw [Std.ExtTreeSet.size_insert, hjoins.1, if_neg Bool.false_ne_true] at hle
          omega
      · next hstays => rw [if_neg hstays, ih h]

/-- The run: sweeping keeps what every sweep keeps. -/
theorem settle_preserves (holds : String → Prop) (hfound : ∀ name ∈ found, holds name)
    (hextends : ∀ name parent, Extends classes name parent → holds parent → holds name) :
    ∀ name ∈ settle classes found, holds name := by
  induction found using settle.induct classes with
  | case1 found hsize =>
      rw [settle, dif_pos hsize]
      exact hfound
  | case2 found hsize ih =>
      rw [settle, dif_neg hsize]
      exact ih (sweep_preserves hfound hextends)

/-- Sweeping comes to an end: each sweep but the last finds one of the classes. -/
theorem exists_settle_eq_iterate (classes : List (String × References)) (found : NameSet) :
    ∃ count ≤ left classes found, settle classes found = (sweep classes)^[count] found ∧
      sweep classes (settle classes found) = settle classes found := by
  induction found using settle.induct classes with
  | case1 found hsize =>
      rw [settle, dif_pos hsize]
      exact ⟨0, Nat.zero_le _, rfl, sweep_eq_of_size hsize⟩
  | case2 found hsize ih =>
      obtain ⟨count, hcount, hiterate, hsettled⟩ := ih
      rw [settle, dif_neg hsize]
      have hlt := left_sweep_lt hsize
      exact ⟨count + 1, by omega, hiterate, hsettled⟩

theorem mem_settle_of_mem (h : name ∈ found) : name ∈ settle classes found := by
  induction found using settle.induct classes with
  | case1 found hsize => rwa [settle, dif_pos hsize]
  | case2 found hsize ih =>
      rw [settle, dif_neg hsize]
      exact ih (mem_sweep_of_mem h)

/-- Sweeping settles on the classes from which superclasses and interfaces lead to the start. -/
theorem mem_settle_iff : name ∈ settle classes found ↔
    ∃ start ∈ found, Relation.ReflTransGen (Extends classes) name start := by
  constructor
  · refine settle_preserves
      (fun name => ∃ start ∈ found, Relation.ReflTransGen (Extends classes) name start)
      (fun name hname => ⟨name, hname, .refl⟩) ?_ name
    rintro name parent hextends ⟨start, hstart, hleads⟩
    exact ⟨start, hstart, .head hextends hleads⟩
  · rintro ⟨start, hstart, hleads⟩
    obtain ⟨-, -, -, hsettled⟩ := exists_settle_eq_iterate classes found
    induction hleads using Relation.ReflTransGen.head_induction_on with
    | refl => exact mem_settle_of_mem hstart
    | head hextends _ ih =>
        rw [← hsettled]
        exact mem_sweep_of_extends hextends ih

/-- In whatever order the classes are listed, sweeping settles on the same. -/
theorem settle_perm (h : classes.Perm others) : settle classes found = settle others found := by
  have hsame : Extends classes = Extends others := by
    funext name parent
    exact propext (exists_congr fun entry => and_congr_left fun _ => h.mem_iff)
  exact Std.ExtTreeSet.ext_mem fun name => by rw [mem_settle_iff, mem_settle_iff, hsame]

end Sweeps

end JarTailor.Hierarchy
