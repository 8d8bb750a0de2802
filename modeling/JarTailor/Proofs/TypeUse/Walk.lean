import JarTailor.Proofs.ClassFile.Growth
import JarTailor.Proofs.Success
import JarTailor.References

/-!
# What the walk through attributes finds

The walk meets every part inside the parts it is given. It depends on a pool only through the names
of the attributes it meets, so it finds the same in a pool where they have the same names.
-/

namespace JarTailor.TypeUse

/-- A part is met on the way through another: it is that part or lies inside it, at any depth. -/
inductive Meets (pool : Pool) : Part → Part → Prop
  | self (part : Part) : Meets pool part part
  | inside {part inner met : Part} {uses : List TypeUse} {parts : List Part}
      (h : step pool part = .ok (uses, parts)) (hinner : inner ∈ parts)
      (hmet : Meets pool inner met) : Meets pool part met

/-- A use is found in a part or inside it. -/
inductive Finds (pool : Pool) (use : TypeUse) : Part → Prop
  | here {part : Part} {uses : List TypeUse} {parts : List Part}
      (h : step pool part = .ok (uses, parts)) (huse : use ∈ uses) : Finds pool use part
  | inside {part inner : Part} {uses : List TypeUse} {parts : List Part}
      (h : step pool part = .ok (uses, parts)) (hinner : inner ∈ parts)
      (hfinds : Finds pool use inner) : Finds pool use part

section Walk

variable {pool : Pool} {use : TypeUse}

theorem finds_iff_of_step {part : Part} {uses : List TypeUse} {parts : List Part}
    (h : step pool part = .ok (uses, parts)) :
    Finds pool use part ↔ use ∈ uses ∨ ∃ inner ∈ parts, Finds pool use inner := by
  constructor
  · intro hfinds
    cases hfinds with
    | here hstep huse =>
        rw [h] at hstep
        cases hstep
        exact Or.inl huse
    | inside hstep hinner hfinds =>
        rw [h] at hstep
        cases hstep
        exact Or.inr ⟨_, hinner, hfinds⟩
  · rintro (huse | ⟨inner, hinner, hfinds⟩)
    · exact .here h huse
    · exact .inside h hinner hfinds

theorem Finds.of_step_eq {part other : Part} (h : step pool other = step pool part)
    (hfinds : Finds pool use other) : Finds pool use part := by
  cases hfinds with
  | here hstep huse => exact .here (h.symm.trans hstep) huse
  | inside hstep hinner hfinds => exact .inside (h.symm.trans hstep) hinner hfinds

theorem mem_walk_iff {parts : List Part} {found result : List TypeUse}
    (h : walk pool parts found = .ok result) :
    use ∈ result ↔ use ∈ found ∨ ∃ part ∈ parts, Finds pool use part := by
  fun_induction walk pool parts found with
  | case1 found =>
      cases h
      simp
  | case2 => cases h
  | case3 found part others uses inner hstep ih =>
      rw [ih h]
      have hexists : (∃ other ∈ part :: others, Finds pool use other) ↔
          Finds pool use part ∨ ∃ other ∈ others, Finds pool use other := by
        simp
      rw [hexists, finds_iff_of_step hstep]
      simp only [List.mem_append, List.mem_reverse, or_and_right, exists_or, or_assoc, or_left_comm]

/-- The walk looked into every part that it met. -/
theorem exists_step_of_walk {parts : List Part} {found result : List TypeUse}
    (h : walk pool parts found = .ok result) {part met : Part} (hpart : part ∈ parts)
    (hmet : Meets pool part met) : ∃ inside, step pool met = .ok inside := by
  fun_induction walk pool parts found generalizing part with
  | case1 => cases hpart
  | case2 => cases h
  | case3 found first others uses inner hstep ih =>
      rcases List.mem_cons.1 hpart with rfl | hpart
      · cases hmet with
        | self => exact ⟨_, hstep⟩
        | inside hother hinner hmet =>
            rw [hstep] at hother
            cases hother
            exact ih h (List.mem_append_left _ hinner) hmet
      · exact ih h (List.mem_append_right _ hpart) hmet

end Walk

section Pools

variable {first second : Pool}

theorem step_congr {part : Part}
    (h : ∀ entry, part = .inAttribute entry → second.text entry.name = first.text entry.name) :
    step second part = step first part := by
  cases part with
  | inAttribute entry => rw [step, step, inAttribute, inAttribute, h entry rfl]
  | components count bytes => cases count <;> rfl

/-- The name of an attribute that was looked into. -/
theorem exists_name_of_step {entry : Attribute} {inside : Found}
    (h : step first (.inAttribute entry) = .ok inside) :
    ∃ name, first.text entry.name = .ok name := by
  obtain ⟨name, hname, -⟩ := Except.bind_eq_ok_iff.1 h
  exact ⟨name, hname⟩

theorem step_extends (hextends : first.Extends second) {part : Part} {inside : Found}
    (h : step first part = .ok inside) : step second part = .ok inside := by
  rw [← h]
  refine step_congr ?_
  rintro entry rfl
  obtain ⟨name, hname⟩ := exists_name_of_step h
  rw [hname, hextends.text hname]

/-- In a larger pool the walk finds nothing else. -/
theorem Finds.of_extends (hextends : first.Extends second) {part : Part} {use : TypeUse}
    (hread : ∀ met, Meets first part met → ∃ inside, step first met = .ok inside)
    (h : Finds second use part) : Finds first use part := by
  induction h with
  | @here part uses parts hstep huse =>
      obtain ⟨inside, hinside⟩ := hread part (.self part)
      obtain rfl := Except.ok.inj ((step_extends hextends hinside).symm.trans hstep)
      exact .here hinside huse
  | @inside part inner uses parts hstep hinner _ ih =>
      obtain ⟨inside, hinside⟩ := hread part (.self part)
      obtain rfl := Except.ok.inj ((step_extends hextends hinside).symm.trans hstep)
      exact .inside hinside hinner (ih fun met hmet => hread met (.inside hinside hinner hmet))

/-- Parts that are looked into alike are walked through alike. -/
theorem walk_eq_of_steps {parts others : List Part} {found : List TypeUse}
    (h : List.Forall₂ (fun part other => step first other = step first part) parts others) :
    walk first others found = walk first parts found := by
  fun_induction walk first parts found generalizing others with
  | case1 found =>
      cases h
      rw [walk]
  | case2 found part parts failure hstep =>
      obtain ⟨other, others, hother, -, rfl⟩ := List.forall₂_cons_left_iff.1 h
      rw [walk, hother, hstep]
  | case3 found part parts uses inner hstep ih =>
      obtain ⟨other, others, hother, hothers, rfl⟩ := List.forall₂_cons_left_iff.1 h
      rw [walk, hother, hstep]
      have hinner : List.Forall₂ (fun part other => step first other = step first part) inner
          inner := List.forall₂_same.2 fun _ _ => rfl
      exact ih (List.rel_append hinner hothers)

/-- The walk in another pool, where every part that it meets is looked into alike. -/
theorem walk_congr {parts : List Part} {found : List TypeUse}
    (h : ∀ part ∈ parts, ∀ met, Meets first part met → step second met = step first met) :
    walk second parts found = walk first parts found := by
  fun_induction walk first parts found with
  | case1 found => rw [walk]
  | case2 found part parts failure hstep =>
      rw [walk, h part List.mem_cons_self part (.self part), hstep]
  | case3 found part parts uses inner hstep ih =>
      rw [walk, h part List.mem_cons_self part (.self part), hstep]
      refine ih fun other hother met hmet => ?_
      rcases List.mem_append.1 hother with hinner | hother
      · exact h part List.mem_cons_self met (.inside hstep hinner hmet)
      · exact h other (List.mem_cons_of_mem _ hother) met hmet

/-- Attributes find the same where they and those inside them have the same names. -/
theorem ofAttributes_congr {attributes : List Attribute}
    (hnames : ∀ outer ∈ attributes, ∀ entry, Meets first (.inAttribute outer) (.inAttribute entry) →
      second.text entry.name = first.text entry.name) :
    ofAttributes second attributes = ofAttributes first attributes := by
  refine walk_congr fun part hpart met hmet => step_congr ?_
  obtain ⟨outer, houter, rfl⟩ := List.mem_map.1 hpart
  rintro entry rfl
  exact hnames outer houter entry hmet

theorem ofAttributes_extends (hextends : first.Extends second) {attributes : List Attribute}
    {result : List TypeUse} (h : ofAttributes first attributes = .ok result) :
    ofAttributes second attributes = .ok result := by
  rw [← h]
  refine ofAttributes_congr fun outer houter entry hmet => ?_
  obtain ⟨inside, hinside⟩ := exists_step_of_walk h (List.mem_map_of_mem houter) hmet
  obtain ⟨name, hname⟩ := exists_name_of_step hinside
  rw [hname, hextends.text hname]

/-- Attributes that are looked into alike find the same. -/
theorem ofAttributes_eq_of_steps {attributes others : List Attribute}
    (h : List.Forall₂ (fun entry other =>
      step first (.inAttribute other) = step first (.inAttribute entry)) attributes others) :
    ofAttributes first others = ofAttributes first attributes := by
  refine walk_eq_of_steps ?_
  rwa [List.forall₂_map_left_iff, List.forall₂_map_right_iff]

end Pools

end JarTailor.TypeUse
