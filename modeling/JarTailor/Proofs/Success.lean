import JarTailor.Log
import Mathlib.Data.List.Forall2

/-!
# Computations that succeed

What the success of a computation over a list says about the single items, and about the state
that is handed from item to item.
-/

namespace JarTailor

section Pairs

variable {α β : Type} {related : α → β → Prop} {values : List α} {results : List β}

theorem exists_related_right (h : List.Forall₂ related values results) {value : α}
    (hvalue : value ∈ values) : ∃ result ∈ results, related value result := by
  induction h with
  | nil => cases hvalue
  | cons hrelated _ ih =>
      rcases List.mem_cons.1 hvalue with rfl | hvalue
      · exact ⟨_, List.mem_cons_self, hrelated⟩
      · obtain ⟨result, hresult, hrelated⟩ := ih hvalue
        exact ⟨result, List.mem_cons_of_mem _ hresult, hrelated⟩

theorem exists_related_left (h : List.Forall₂ related values results) {result : β}
    (hresult : result ∈ results) : ∃ value ∈ values, related value result :=
  exists_related_right h.flip hresult

theorem related_trans {γ : Type} {related' : β → γ → Prop} {composed : α → γ → Prop}
    {others : List γ} (h : List.Forall₂ related values results)
    (h' : List.Forall₂ related' results others)
    (htrans : ∀ value result other, related value result → related' result other →
      composed value other) : List.Forall₂ composed values others := by
  induction h generalizing others with
  | nil =>
      cases h'
      exact .nil
  | cons hrelated _ ih =>
      obtain ⟨other, others, hother, hothers, rfl⟩ := List.forall₂_cons_left_iff.1 h'
      exact .cons (htrans _ _ _ hrelated hother) (ih hothers)

theorem map_eq_map_of_related {γ : Type} {f : α → γ} {g : β → γ}
    (h : List.Forall₂ related values results)
    (hsame : ∀ value result, related value result → f value = g result) :
    values.map f = results.map g := by
  induction h with
  | nil => rfl
  | cons hrelated _ ih => rw [List.map_cons, List.map_cons, hsame _ _ hrelated, ih]

/-- Where a change shows in `f`, two lists with related entries differ just if they differ in it. -/
theorem map_eq_map_iff {f : α → β} {changes : α → α → Prop} {before after : List α}
    (h : List.Forall₂ changes before after)
    (hshows : ∀ old new, changes old new → f new = f old → new = old) :
    after.map f = before.map f ↔ after = before := by
  refine ⟨fun hmap => ?_, fun hsame => hsame ▸ rfl⟩
  induction h with
  | nil => rfl
  | @cons old new before after hhead _ ih =>
      rw [List.map_cons, List.map_cons, List.cons.injEq] at hmap
      rw [hshows old new hhead hmap.1, ih hmap.2]

/-- What is related to two lists is related to the pairs of their items. -/
theorem related_zip {γ : Type} {related' : α → γ → Prop} {both : α → β × γ → Prop}
    {others : List γ} (h : List.Forall₂ related values results)
    (h' : List.Forall₂ related' values others)
    (hboth : ∀ value result other, related value result → related' value other →
      both value (result, other)) : List.Forall₂ both values (results.zip others) := by
  induction h generalizing others with
  | nil =>
      cases h'
      exact .nil
  | cons hrelated _ ih =>
      obtain ⟨other, others, hother, hothers, rfl⟩ := List.forall₂_cons_left_iff.1 h'
      exact .cons (hboth _ _ _ hrelated hother) (ih hothers)

end Pairs

theorem Except.mapM_eq_ok_iff {ε α β : Type} {f : α → Except ε β} {values : List α}
    {results : List β} :
    values.mapM f = .ok results ↔ List.Forall₂ (fun a b => f a = .ok b) values results := by
  induction values generalizing results with
  | nil =>
      rw [List.mapM_nil, List.forall₂_nil_left_iff]
      exact ⟨fun h => (Except.ok.inj h).symm, fun h => congrArg Except.ok h.symm⟩
  | cons value values ih =>
      rw [List.mapM_cons, Except.bind_eq_ok_iff, List.forall₂_cons_left_iff]
      constructor
      · rintro ⟨result, hresult, h⟩
        obtain ⟨others, hothers, h⟩ := Except.bind_eq_ok_iff.1 h
        exact ⟨result, others, hresult, ih.1 hothers, (Except.ok.inj h).symm⟩
      · rintro ⟨result, others, hresult, hothers, rfl⟩
        exact ⟨result, hresult, Except.bind_eq_ok_iff.2 ⟨others, ih.2 hothers, rfl⟩⟩

theorem Except.bind_eq_error_iff {ε α β : Type} {x : Except ε α} {f : α → Except ε β}
    {failure : ε} :
    (x >>= f) = .error failure ↔ x = .error failure ∨ ∃ a, x = .ok a ∧ f a = .error failure := by
  cases x <;> simp [bind, Except.bind]

theorem Except.exists_of_mapM_eq_error {ε α β : Type} {f : α → Except ε β} {values : List α}
    {failure : ε} (h : values.mapM f = .error failure) :
    ∃ value ∈ values, f value = .error failure := by
  induction values with
  | nil => cases h
  | cons value values ih =>
      rw [List.mapM_cons, bind_eq_error_iff] at h
      rcases h with h | ⟨result, -, h⟩
      · exact ⟨value, List.mem_cons_self, h⟩
      · rcases bind_eq_error_iff.1 h with h | ⟨_, -, h⟩
        · obtain ⟨other, hother, h⟩ := ih h
          exact ⟨other, List.mem_cons_of_mem _ hother, h⟩
        · cases h

theorem Except.exists_mapM_eq_ok {ε α β : Type} {f : α → Except ε β} {values : List α}
    (h : ∀ value ∈ values, ∃ result, f value = .ok result) :
    ∃ results, values.mapM f = .ok results := by
  induction values with
  | nil => exact ⟨[], rfl⟩
  | cons value values ih =>
      obtain ⟨result, hresult⟩ := h value List.mem_cons_self
      obtain ⟨results, hresults⟩ := ih fun other hother => h other (List.mem_cons_of_mem _ hother)
      exact ⟨result :: results, Except.mapM_eq_ok_iff.2
        (.cons hresult (Except.mapM_eq_ok_iff.1 hresults))⟩

theorem Except.mapM_again {ε α : Type} {f : α → Except ε α} {values results : List α}
    (h : values.mapM f = .ok results)
    (hagain : ∀ value result, f value = .ok result → f result = .ok result) :
    results.mapM f = .ok results := by
  refine Except.mapM_eq_ok_iff.2 (List.forall₂_same.2 fun result hresult => ?_)
  obtain ⟨value, -, hvalue⟩ := exists_related_left (Except.mapM_eq_ok_iff.1 h) hresult
  exact hagain value result hvalue

theorem Except.mapM_congr {ε α β : Type} {f g : α → Except ε β} {values : List α}
    (h : ∀ value ∈ values, f value = g value) : values.mapM f = values.mapM g := by
  induction values with
  | nil => rfl
  | cons value values ih =>
      rw [List.mapM_cons, List.mapM_cons, h value List.mem_cons_self,
        ih fun other hother => h other (List.mem_cons_of_mem _ hother)]

theorem Except.toOption_eq_some_iff {ε α : Type} {x : Except ε α} {value : α} :
    x.toOption = some value ↔ x = .ok value := by
  cases x <;> simp [Except.toOption]

theorem Except.exists_eq_ok {ε α : Type} {x : Except ε α} (h : x.toBool = true) :
    ∃ value, x = .ok value := by
  cases x with
  | error failure => cases h
  | ok value => exact ⟨value, rfl⟩

/-- What every step of a successful run keeps holds at its end. -/
theorem Traced.foldlM_preserves {ε α β : Type} {f : β → α → Traced ε β} {holds : β → Prop}
    (hstep : ∀ before value after, holds before → (f before value).result = .ok after →
      holds after) {values : List α} {start final : β} (hstart : holds start)
    (h : (values.foldlM f start).result = .ok final) : holds final := by
  rw [result_foldlM] at h
  induction values generalizing start with
  | nil =>
      cases h
      exact hstart
  | cons value values ih =>
      obtain ⟨middle, hvalue, h⟩ := Except.bind_eq_ok_iff.1 h
      exact ih (hstep start value middle hstart hvalue) h

/-- A loop with nothing but effects succeeds if its body does. -/
theorem Traced.result_forIn {ε α : Type} {values : List α}
    {f : α → PUnit → Traced ε (ForInStep PUnit)}
    (h : ∀ value, (f value ⟨⟩).result = .ok (.yield ⟨⟩)) :
    (forIn values ⟨⟩ f).result = .ok ⟨⟩ := by
  induction values with
  | nil => rfl
  | cons value values ih =>
      rw [List.forIn_cons, Traced.result_bind, h value]
      exact ih

end JarTailor
