import JarTailor.Name
import Std.Data.ExtTreeMap.Lemmas

/-!
# Reachability

A graph lists the targets of finitely many names; a name it does not list leads nowhere. `reach`
collects what can be reached, and `mem_reach_iff` says that it finds exactly that.
-/

namespace JarTailor

abbrev Graph := Std.ExtTreeMap String NameSet

namespace Graph

/-- Reachability from some names along the edges. -/
inductive Reaches (graph : Graph) (starts : List String) : String → Prop where
  | start {name : String} (h : name ∈ starts) : Reaches graph starts name
  | step {name target : String} {targets : NameSet} (h : Reaches graph starts name)
      (hlist : graph[name]? = some targets) (hmem : target ∈ targets) :
      Reaches graph starts target

theorem size_erase_lt {graph : Graph} {name : String} {targets : NameSet}
    (h : graph[name]? = some targets) : (graph.erase name).size < graph.size := by
  have hmem : name ∈ graph := by simp [Std.ExtTreeMap.mem_iff_isSome_getElem?, h]
  have hsize : graph.size ≠ 0 := fun hzero => by
    rw [Std.ExtTreeMap.eq_empty_iff_size_eq_zero.2 hzero] at hmem
    exact Std.ExtTreeMap.not_mem_empty hmem
  rw [Std.ExtTreeMap.size_erase, if_pos (Std.ExtTreeMap.mem_iff_contains.1 hmem)]
  omega

/-- Goes through a queue of names. Each name of the graph is expanded once: it leaves the pending
part of the graph when its targets join the queue. -/
def visit (pending : Graph) (reached : NameSet) : List String → NameSet
  | [] => reached
  | name :: queue =>
      match _h : pending[name]? with
      | none => visit pending (reached.insert name) queue
      | some targets =>
          visit (pending.erase name) (reached.insert name) (targets.toList ++ queue)
termination_by queue => (pending.size, queue.length)
decreasing_by
  · exact Prod.Lex.right _ (Nat.lt_succ_self _)
  · exact Prod.Lex.left _ _ (size_erase_lt _h)

/-- Everything that can be reached from some names, those included. -/
def reach (graph : Graph) (starts : List String) : NameSet :=
  visit graph ∅ starts

def referrers (graph : Graph) (name : String) : List String :=
  (graph.filter fun _ targets => targets.contains name).keys

theorem getElem?_erase_of_some {graph : Graph} {name other : String} {targets : NameSet}
    (h : (graph.erase name)[other]? = some targets) : graph[other]? = some targets := by
  rw [Std.ExtTreeMap.getElem?_erase] at h
  split at h
  · cases h
  · exact h

/-- A visit finds nothing that cannot be reached. -/
theorem visit_sound {graph : Graph} {starts : List String} (pending : Graph) (reached : NameSet)
    (queue : List String) (hpending : ∀ {name : String} {targets : NameSet},
      pending[name]? = some targets → graph[name]? = some targets)
    (hreached : ∀ name ∈ reached, Reaches graph starts name)
    (hqueue : ∀ name ∈ queue, Reaches graph starts name) :
    ∀ name ∈ visit pending reached queue, Reaches graph starts name := by
  induction pending, reached, queue using visit.induct with
  | case1 pending reached =>
      simpa [visit] using hreached
  | case2 pending reached name queue h ih =>
      rw [visit, h]
      refine ih hpending (fun other hother => ?_) fun other hother =>
        hqueue other (List.mem_cons_of_mem _ hother)
      rcases Std.ExtTreeSet.mem_insert.1 hother with heq | hother
      · rw [← Std.compare_eq_iff_eq.1 heq]
        exact hqueue name List.mem_cons_self
      · exact hreached other hother
  | case3 pending reached name queue targets h ih =>
      have hname : Reaches graph starts name := hqueue name List.mem_cons_self
      rw [visit, h]
      refine ih (fun hsome => hpending (getElem?_erase_of_some hsome)) (fun other hother => ?_)
        fun other hother => ?_
      · rcases Std.ExtTreeSet.mem_insert.1 hother with heq | hother
        · rwa [← Std.compare_eq_iff_eq.1 heq]
        · exact hreached other hother
      · rcases List.mem_append.1 hother with hother | hother
        · exact hname.step (hpending h) (Std.ExtTreeSet.mem_toList.1 hother)
        · exact hqueue other (List.mem_cons_of_mem _ hother)

/-- A visit finds what it started from, and with every name its targets. -/
theorem visit_closed {graph : Graph} (pending : Graph) (reached : NameSet) (queue : List String)
    (hexpanded : ∀ {name : String} {targets : NameSet}, graph[name]? = some targets →
      pending[name]? = some targets ∨ name ∈ reached ∧ ∀ t ∈ targets, t ∈ reached ∨ t ∈ queue)
    (hreached : ∀ {name : String}, name ∈ reached → pending[name]? = none) :
    (∀ name, name ∈ reached ∨ name ∈ queue → name ∈ visit pending reached queue) ∧
      ∀ {name : String} {targets : NameSet}, name ∈ visit pending reached queue →
        graph[name]? = some targets → ∀ t ∈ targets, t ∈ visit pending reached queue := by
  induction pending, reached, queue using visit.induct with
  | case1 pending reached =>
      simp only [visit, List.not_mem_nil, or_false, imp_self, implies_true, true_and]
      intro name targets hname hgraph t ht
      rcases hexpanded hgraph with h | ⟨-, h⟩
      · simp [hreached hname] at h
      · simpa using h t ht
  | case2 pending reached name queue h ih =>
      rw [visit, h]
      obtain ⟨ihstart, ihclosed⟩ := ih
        (fun {other targets} hgraph => by
          rcases hexpanded hgraph with hother | ⟨hother, htargets⟩
          · exact Or.inl hother
          · refine Or.inr ⟨Std.ExtTreeSet.mem_insert.2 (Or.inr hother), fun t ht => ?_⟩
            rcases htargets t ht with ht | ht
            · exact Or.inl (Std.ExtTreeSet.mem_insert.2 (Or.inr ht))
            · rcases List.mem_cons.1 ht with rfl | ht
              · exact Or.inl (Std.ExtTreeSet.mem_insert.2 (Or.inl Std.ReflCmp.compare_self))
              · exact Or.inr ht)
        (fun {other} hother => by
          rcases Std.ExtTreeSet.mem_insert.1 hother with heq | hother
          · rw [← Std.compare_eq_iff_eq.1 heq]
            exact h
          · exact hreached hother)
      refine ⟨fun other hother => ihstart other ?_, ihclosed⟩
      rcases hother with hother | hother
      · exact Or.inl (Std.ExtTreeSet.mem_insert.2 (Or.inr hother))
      · rcases List.mem_cons.1 hother with rfl | hother
        · exact Or.inl (Std.ExtTreeSet.mem_insert.2 (Or.inl Std.ReflCmp.compare_self))
        · exact Or.inr hother
  | case3 pending reached name queue targets h ih =>
      rw [visit, h]
      obtain ⟨ihstart, ihclosed⟩ := ih
        (fun {other others} hgraph => by
          by_cases heq : compare name other = .eq
          · have hsame := Std.compare_eq_iff_eq.1 heq
            subst hsame
            refine Or.inr ⟨Std.ExtTreeSet.mem_insert.2 (Or.inl heq), fun t ht => ?_⟩
            rcases hexpanded hgraph with hother | ⟨hother, -⟩
            · rw [h] at hother
              cases hother
              exact Or.inr (List.mem_append_left _ (Std.ExtTreeSet.mem_toList.2 ht))
            · simp [hreached hother] at h
          · rcases hexpanded hgraph with hother | ⟨hother, htargets⟩
            · left
              rw [Std.ExtTreeMap.getElem?_erase, if_neg heq]
              exact hother
            · refine Or.inr ⟨Std.ExtTreeSet.mem_insert.2 (Or.inr hother), fun t ht => ?_⟩
              rcases htargets t ht with ht | ht
              · exact Or.inl (Std.ExtTreeSet.mem_insert.2 (Or.inr ht))
              · rcases List.mem_cons.1 ht with rfl | ht
                · exact Or.inl (Std.ExtTreeSet.mem_insert.2 (Or.inl Std.ReflCmp.compare_self))
                · exact Or.inr (List.mem_append_right _ ht))
        (fun {other} hother => by
          rw [Std.ExtTreeMap.getElem?_erase]
          split
          · rfl
          · next hne =>
              rcases Std.ExtTreeSet.mem_insert.1 hother with heq | hother
              · exact absurd heq hne
              · exact hreached hother)
      refine ⟨fun other hother => ihstart other ?_, ihclosed⟩
      rcases hother with hother | hother
      · exact Or.inl (Std.ExtTreeSet.mem_insert.2 (Or.inr hother))
      · rcases List.mem_cons.1 hother with rfl | hother
        · exact Or.inl (Std.ExtTreeSet.mem_insert.2 (Or.inl Std.ReflCmp.compare_self))
        · exact Or.inr (List.mem_append_right _ hother)

theorem mem_reach_iff {graph : Graph} {starts : List String} {name : String} :
    name ∈ reach graph starts ↔ Reaches graph starts name := by
  constructor
  · exact visit_sound graph ∅ starts id (fun _ h => absurd h Std.ExtTreeSet.not_mem_empty)
      (fun _ => .start) name
  · obtain ⟨hstart, hclosed⟩ := @visit_closed graph graph ∅ starts Or.inl
      fun h => absurd h Std.ExtTreeSet.not_mem_empty
    intro h
    induction h with
    | start h => exact hstart _ (Or.inr h)
    | step _ hlist hmem ih => exact hclosed ih hlist _ hmem

end Graph

end JarTailor
