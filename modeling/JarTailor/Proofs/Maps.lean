import JarTailor.Graph

/-!
# Maps and sets

Lookups in a map that was made from a list of pairs or filled by a fold, and searches of a set.
-/

namespace JarTailor

theorem mem_iff_exists_getElem? {α β : Type} [Ord α] [Std.TransOrd α]
    {table : Std.ExtTreeMap α β} {key : α} :
    key ∈ table ↔ ∃ value, table[key]? = some value := by
  rw [Std.ExtTreeMap.mem_iff_isSome_getElem?, Option.isSome_iff_exists]

theorem getElem?_map_ofList_iff {β : Type} {pairs : List (String × β)}
    (hdistinct : (pairs.map Prod.fst).Nodup) {key : String} {value : β} :
    (Std.ExtTreeMap.ofList pairs)[key]? = some value ↔ (key, value) ∈ pairs := by
  have hpairwise : pairs.Pairwise fun a b => ¬compare a.1 b.1 = .eq := by
    rw [List.Nodup, List.pairwise_map] at hdistinct
    exact hdistinct.imp fun hne heq => hne (Std.compare_eq_iff_eq.1 heq)
  constructor
  · intro h
    have hmem : key ∈ Std.ExtTreeMap.ofList pairs := mem_iff_exists_getElem?.2 ⟨value, h⟩
    rw [Std.ExtTreeMap.mem_ofList, List.contains_iff_mem, List.mem_map] at hmem
    obtain ⟨⟨_, other⟩, hother, rfl⟩ := hmem
    have hlookup := Std.ExtTreeMap.getElem?_ofList_of_mem Std.ReflCmp.compare_self hpairwise hother
    rw [hlookup] at h
    rwa [← Option.some.inj h]
  · intro h
    exact Std.ExtTreeMap.getElem?_ofList_of_mem Std.ReflCmp.compare_self hpairwise h

theorem pairwise_toList {β : Type} (table : Std.ExtTreeMap String β) :
    table.toList.Pairwise fun a b => a.1 < b.1 := by
  have hordered : table.toList.Pairwise fun a b => compare a.1 b.1 = .lt :=
    Std.ExtTreeMap.ordered_keys_toList
  exact hordered.imp compareOfLessAndEq_eq_lt.1

theorem getElem?_foldl_insert {pairs : List (String × String)}
    {table : Std.ExtTreeMap String String} {key value : String}
    (h : (pairs.foldl (fun table pair => table.insert pair.1 pair.2) table)[key]? = some value) :
    (key, value) ∈ pairs ∨ table[key]? = some value := by
  induction pairs generalizing table with
  | nil => exact Or.inr h
  | cons first pairs ih =>
      rw [List.foldl_cons] at h
      rcases ih h with hmem | hinsert
      · exact Or.inl (List.mem_cons_of_mem _ hmem)
      · rw [Std.ExtTreeMap.getElem?_insert] at hinsert
        split at hinsert
        · next heq =>
            obtain rfl := Std.compare_eq_iff_eq.1 heq
            obtain rfl := Option.some.inj hinsert
            exact Or.inl List.mem_cons_self
        · exact Or.inr hinsert

section Search

variable {α : Type} {p : α → Bool}

theorem any_eq_loop (values : List α) :
    values.any p = Id.run (do
      for value in values do
        if p value then return true
      return false) := by
  induction values with
  | nil => rfl
  | cons value values ih =>
      rw [List.any_cons, ih]
      cases h : p value <;> simp [h]

theorem set_any_iff [Ord α] [Std.TransOrd α] [Std.LawfulEqOrd α] {values : Std.ExtTreeSet α} :
    values.any p = true ↔ ∃ value ∈ values, p value = true := by
  have hloop : values.any p = Id.run (do
      for value in values do
        if p value then return true
      return false) := by
    obtain ⟨⟨⟨inner⟩⟩⟩ := values
    induction inner using Quotient.inductionOn
    rfl
  have hlist : values.any p = values.toList.any p := by
    rw [hloop, any_eq_loop]
    simp only [Std.ExtTreeSet.forIn_eq_forIn_toList]
  rw [hlist, List.any_eq_true]
  simp only [Std.ExtTreeSet.mem_toList]

end Search

end JarTailor
