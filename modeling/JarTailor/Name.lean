import Std.Data.ExtTreeSet.Lemmas

/-!
# Class names

A class has an internal name (`a/b/C$D`), which class files and archive entries use, and a binary
name (`a.b.C$D`), which people use. Each is the other with the separator exchanged.
-/

namespace JarTailor

abbrev NameSet := Std.ExtTreeSet String

def binaryName (name : String) : String :=
  name.map fun c => if c = '/' then '.' else c

def internalName (name : String) : String :=
  name.map fun c => if c = '.' then '/' else c

theorem internalName_eq_self {name : String} (h : '.' ∉ name.toList) :
    internalName name = name := by
  apply String.toList_inj.1
  rw [internalName, String.toList_map]
  refine (List.map_congr_left fun c hc => ?_).trans (List.map_id _)
  exact if_neg fun e : c = '.' => h (e ▸ hc)

/-- A name that holds no slash is still the same after going to the internal form and back. -/
theorem binaryName_internalName {name : String} (h : '/' ∉ name.toList) :
    binaryName (internalName name) = name := by
  apply String.toList_inj.1
  simp only [binaryName, internalName, String.toList_map, List.map_map]
  refine (List.map_congr_left fun c hc => ?_).trans (List.map_id _)
  have hslash : c ≠ '/' := fun e => h (e ▸ hc)
  by_cases hdot : c = '.' <;> simp [hslash, hdot]

end JarTailor
