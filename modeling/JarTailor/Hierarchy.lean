import JarTailor.References

/-!
# Class hierarchies

A class extends its superclass and its interfaces. The classes that derive from some others are
found by sweeping over all classes, again and again until a sweep finds no more. A class that a sweep
finds counts at once for the classes behind it, so what a single sweep finds depends on their order.
-/

namespace JarTailor.Hierarchy

/-- Adds to the classes found so far every class that extends one of them, also one that this sweep
found before. -/
def sweep (classes : List (String × References)) (found : NameSet) : NameSet :=
  classes.foldl (fun found (name, entry) =>
    if !found.contains name && entry.supertypes.any found.contains then found.insert name
    else found) found

section Sweep

variable {name : String} {entry : References} {classes : List (String × References)}
variable {found : NameSet}

theorem sweep_cons : sweep ((name, entry) :: classes) found = sweep classes
    (if !found.contains name && entry.supertypes.any found.contains then found.insert name
     else found) := rfl

theorem mem_sweep_of_mem (h : name ∈ found) : name ∈ sweep classes found := by
  induction classes generalizing found with
  | nil => exact h
  | cons first classes ih =>
      rw [sweep_cons]
      refine ih ?_
      split
      · exact Std.ExtTreeSet.mem_insert.2 (Or.inr h)
      · exact h

/-- A sweep finds listed classes only. -/
theorem exists_mem_of_mem_sweep (h : name ∈ sweep classes found) (hname : name ∉ found) :
    ∃ entry, (name, entry) ∈ classes := by
  induction classes generalizing found with
  | nil => exact absurd h hname
  | cons first classes ih =>
      rw [sweep_cons] at h
      by_cases hfirst : first.1 = name
      · exact ⟨first.2, hfirst ▸ List.mem_cons_self⟩
      · obtain ⟨entry, hentry⟩ := ih h (by
          split
          · exact fun hmem => (Std.ExtTreeSet.mem_insert.1 hmem).elim
              (fun heq => hfirst (Std.compare_eq_iff_eq.1 heq)) hname
          · exact hname)
        exact ⟨entry, List.mem_cons_of_mem _ hentry⟩

/-- The classes that a sweep might still find. -/
def left (classes : List (String × References)) (found : NameSet) : Nat :=
  classes.countP fun entry => !found.contains entry.1

theorem isLeft_iff : (!found.contains name) = true ↔ name ∉ found := by
  rw [Bool.not_eq_true', ← Bool.not_eq_true, Std.ExtTreeSet.contains_iff_mem]

theorem left_sweep_le (others : List (String × References)) :
    left others (sweep classes found) ≤ left others found := by
  refine List.countP_mono_left fun other _ hother => ?_
  rw [isLeft_iff] at hother ⊢
  exact mt mem_sweep_of_mem hother

theorem exists_new_of_size_ne (h : (sweep classes found).size ≠ found.size) :
    ∃ name ∈ sweep classes found, name ∉ found := by
  refine Classical.byContradiction fun hnone => h (congrArg _ (Std.ExtTreeSet.ext_mem ?_))
  refine fun name => ⟨fun hmem => Classical.byContradiction fun hname => ?_, mem_sweep_of_mem⟩
  exact hnone ⟨name, hmem, hname⟩

/-- A sweep that finds more leaves less to find. -/
theorem left_sweep_lt (h : (sweep classes found).size ≠ found.size) :
    left classes (sweep classes found) < left classes found := by
  obtain ⟨name, hmem, hname⟩ := exists_new_of_size_ne h
  obtain ⟨entry, hentry⟩ := exists_mem_of_mem_sweep hmem hname
  obtain ⟨front, back, hsplit⟩ := List.append_of_mem hentry
  have hbefore : (!found.contains name) = true := isLeft_iff.2 hname
  have hnow : (!(sweep classes found).contains name) = false :=
    Bool.eq_false_iff.2 fun hleft => isLeft_iff.1 hleft hmem
  have hfront := @left_sweep_le classes found front
  have hback := @left_sweep_le classes found back
  unfold left at hfront hback ⊢
  generalize sweep classes found = after at hfront hback hnow ⊢
  rw [hsplit, List.countP_append, List.countP_append, List.countP_cons, List.countP_cons, hnow,
    hbefore]
  simp only [Bool.false_eq_true, if_false, if_true]
  omega

end Sweep

/-- Sweeps until no more classes are found. -/
def settle (classes : List (String × References)) (found : NameSet) : NameSet :=
  if _h : (sweep classes found).size = found.size then found
  else settle classes (sweep classes found)
termination_by left classes found
decreasing_by exact left_sweep_lt _h

end JarTailor.Hierarchy
