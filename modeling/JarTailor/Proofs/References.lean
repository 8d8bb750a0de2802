import JarTailor.Proofs.ClassFile.Growth
import JarTailor.Proofs.Maps
import JarTailor.Proofs.Success
import JarTailor.References

/-!
# The classes that a class refers to

A class refers to the classes named by the texts it uses as types, each text read in the role in
which it is used first.
-/

namespace JarTailor

namespace TypeUse

/-- A use comes before every other use of its text. -/
def First (uses : List TypeUse) (use : TypeUse) : Prop :=
  uses.find? (·.index == use.index) = some use

theorem First.mem {uses : List TypeUse} {use : TypeUse} (h : First uses use) : use ∈ uses :=
  List.mem_of_find?_eq_some h

/-- A text that is used is used first in some role. -/
theorem exists_first {uses : List TypeUse} {use : TypeUse} (h : use ∈ uses) :
    ∃ first, First uses first ∧ first.index = use.index := by
  have hsome : (uses.find? (·.index == use.index)).isSome := by
    rw [List.find?_isSome]
    exact ⟨use, h, beq_self_eq_true _⟩
  obtain ⟨first, hfirst⟩ := Option.isSome_iff_exists.1 hsome
  have hindex : first.index = use.index := by simpa using List.find?_some hfirst
  exact ⟨first, by rw [First, hindex, hfirst], hindex⟩

theorem first_append_iff {front back : List TypeUse} {use : TypeUse} :
    First (front ++ back) use ↔
      First front use ∨ First back use ∧ ∀ old ∈ front, old.index ≠ use.index := by
  rw [First, First, First, List.find?_append]
  cases hfront : front.find? (·.index == use.index) with
  | some first =>
      have hmem := List.mem_of_find?_eq_some hfront
      have hindex : first.index = use.index := by simpa using List.find?_some hfront
      constructor
      · intro h
        exact Or.inl h
      · rintro (h | ⟨-, hnone⟩)
        · exact h
        · exact absurd hindex (hnone first hmem)
  | none =>
      rw [List.find?_eq_none] at hfront
      rw [Option.none_or]
      constructor
      · intro h
        exact Or.inr ⟨h, fun old hold => by simpa using hfront old hold⟩
      · rintro (h | ⟨h, -⟩)
        · cases h
        · exact h

theorem getElem?_foldl_insertIfNew {uses : List TypeUse} {start : Roles} {index : Index} :
    (uses.foldl (fun roles use => roles.insertIfNew use.index use.role) start)[index]? =
      start[index]?.or ((uses.find? (·.index == index)).map TypeUse.role) := by
  induction uses generalizing start with
  | nil => simp
  | cons use uses ih =>
      rw [List.foldl_cons, ih, Std.ExtTreeMap.getElem?_insertIfNew, List.find?_cons]
      by_cases hindex : use.index = index
      · subst hindex
        rw [beq_self_eq_true]
        by_cases hmem : use.index ∈ start
        · obtain ⟨role, hrole⟩ := mem_iff_exists_getElem?.1 hmem
          rw [if_neg (fun h => h.2 hmem), hrole, Option.some_or, Option.some_or]
        · have hnone : start[use.index]? = none := Std.ExtTreeMap.getElem?_eq_none hmem
          rw [if_pos ⟨Std.ReflCmp.compare_self, hmem⟩, hnone]
          rfl
      · have hcompare : ¬compare use.index index = .eq := by
          rwa [Std.compare_eq_iff_eq]
        rw [if_neg (fun h => hcompare h.1), beq_eq_false_iff_ne.2 hindex]

/-- The role of a text is that of its first use. -/
theorem mem_roles_iff {classFile : ClassFile} {table : Roles} {uses : List TypeUse}
    (hroles : roles classFile = .ok table) (huses : all classFile = .ok uses) {index : Index}
    {role : TypeRole} :
    (index, role) ∈ table.toList ↔ First uses ⟨index, role⟩ := by
  rw [roles, huses] at hroles
  obtain rfl := Except.ok.inj hroles
  rw [Std.ExtTreeMap.mem_toList_iff_getElem?_eq_some, getElem?_foldl_insertIfNew]
  simp only [Std.ExtTreeMap.getElem?_empty, Option.none_or, Option.map_eq_some_iff, First]
  constructor
  · rintro ⟨⟨found, role⟩, hfind, rfl⟩
    have hindex : found = index := by simpa using List.find?_some hfind
    rw [hfind, hindex]
  · intro hfind
    exact ⟨_, hfind, rfl⟩

end TypeUse

namespace References

theorem ofText_eq_ok_iff {pool : Pool} {index : Index} {role : TypeRole} {names : List String} :
    ofText pool index role = .ok names ↔
      ∃ text, pool.text index = .ok text ∧ role.classNames text = .ok names := by
  rw [ofText, Except.bind_eq_ok_iff]
  simp only [Except.within_eq_ok_iff]

/-- The methods that a pool refers to are those that its entries for methods name. -/
theorem mem_methodsOf_iff {pool : Pool} {methods : List MemberRef} {method : MemberRef}
    (h : methodsOf pool = .ok methods) :
    method ∈ methods ↔ ∃ slot : Nat, (∃ owner pair,
        pool.entries[slot]? = some (.methodRef owner pair) ∨
        pool.entries[slot]? = some (.interfaceMethodRef owner pair)) ∧
      pool.member (UInt16.ofNat slot) = .ok method := by
  obtain ⟨found, hfound, h⟩ := Except.bind_eq_ok_iff.1 h
  cases h
  have hall := Except.mapM_eq_ok_iff.1 hfound
  rw [List.mem_filterMap]
  constructor
  · rintro ⟨_, hmem, rfl⟩
    obtain ⟨slot, -, hslot⟩ := exists_related_left hall hmem
    refine ⟨slot, ?_⟩
    split at hslot
    · next owner pair hentry =>
        obtain ⟨other, hmember, heq⟩ := Except.map_eq_ok_iff.1 hslot
        cases heq
        exact ⟨⟨owner, pair, Or.inl hentry⟩, hmember⟩
    · next owner pair hentry =>
        obtain ⟨other, hmember, heq⟩ := Except.map_eq_ok_iff.1 hslot
        cases heq
        exact ⟨⟨owner, pair, Or.inr hentry⟩, hmember⟩
    · cases hslot
  · rintro ⟨slot, ⟨owner, pair, hentry⟩, hmember⟩
    have hlt : slot < pool.size := by
      rcases hentry with hentry | hentry
      · exact (Array.getElem?_eq_some_iff.1 hentry).1
      · exact (Array.getElem?_eq_some_iff.1 hentry).1
    obtain ⟨result, hresult, hslot⟩ := exists_related_right hall (List.mem_range.2 hlt)
    rcases hentry with hentry | hentry
    · rw [hentry] at hslot
      simp only [hmember] at hslot
      cases hslot
      exact ⟨_, hresult, rfl⟩
    · rw [hentry] at hslot
      simp only [hmember] at hslot
      cases hslot
      exact ⟨_, hresult, rfl⟩

/-- The entries for methods can be looked up. -/
theorem exists_member_of_methodsOf {pool : Pool} {methods : List MemberRef} {slot : Nat}
    {owner pair : Index} (h : methodsOf pool = .ok methods)
    (hentry : pool.entries[slot]? = some (.methodRef owner pair) ∨
      pool.entries[slot]? = some (.interfaceMethodRef owner pair)) :
    ∃ method ∈ methods, pool.member (UInt16.ofNat slot) = .ok method := by
  have hexists : ∃ method, pool.member (UInt16.ofNat slot) = .ok method := by
    obtain ⟨found, hfound, -⟩ := Except.bind_eq_ok_iff.1 h
    have hlt : slot < pool.size := by
      rcases hentry with hentry | hentry
      · exact (Array.getElem?_eq_some_iff.1 hentry).1
      · exact (Array.getElem?_eq_some_iff.1 hentry).1
    obtain ⟨result, -, hslot⟩ :=
      exists_related_right (Except.mapM_eq_ok_iff.1 hfound) (List.mem_range.2 hlt)
    rcases hentry with hentry | hentry
    · rw [hentry] at hslot
      obtain ⟨method, hmethod, -⟩ := Except.map_eq_ok_iff.1 hslot
      exact ⟨method, hmethod⟩
    · rw [hentry] at hslot
      obtain ⟨method, hmethod, -⟩ := Except.map_eq_ok_iff.1 hslot
      exact ⟨method, hmethod⟩
  obtain ⟨method, hmethod⟩ := hexists
  exact ⟨method, (mem_methodsOf_iff h).2 ⟨slot, ⟨owner, pair, hentry⟩, hmethod⟩, hmethod⟩

theorem exists_methodsOf {pool : Pool}
    (h : ∀ (slot : Nat) (owner pair : Index),
      pool.entries[slot]? = some (.methodRef owner pair) ∨
        pool.entries[slot]? = some (.interfaceMethodRef owner pair) →
      ∃ method, pool.member (UInt16.ofNat slot) = .ok method) :
    ∃ methods, methodsOf pool = .ok methods := by
  refine Exists.elim (Except.exists_mapM_eq_ok fun slot _ => ?_) fun found hfound =>
    ⟨_, Except.bind_eq_ok_iff.2 ⟨found, hfound, rfl⟩⟩
  split
  · next owner pair hentry =>
      obtain ⟨method, hmethod⟩ := h slot owner pair (Or.inl hentry)
      exact ⟨some method, Except.map_eq_ok_iff.2 ⟨method, hmethod, rfl⟩⟩
  · next owner pair hentry =>
      obtain ⟨method, hmethod⟩ := h slot owner pair (Or.inr hentry)
      exact ⟨some method, Except.map_eq_ok_iff.2 ⟨method, hmethod, rfl⟩⟩
  · exact ⟨none, rfl⟩

/-- What can be told of a class whose references are known. -/
structure Known (classFile : ClassFile) (references : References) (uses : List TypeUse) :
    Prop where
  all : TypeUse.all classFile = .ok uses
  name : classFile.name = .ok references.name
  texts : ∀ use, TypeUse.First uses use →
    ∃ names, ofText classFile.pool use.index use.role = .ok names
  classes : ∀ name, name ∈ references.classes ↔ name ≠ references.name ∧
    ∃ use, TypeUse.First uses use ∧
      ∃ names, ofText classFile.pool use.index use.role = .ok names ∧ name ∈ names
  methods : ∃ methods, methodsOf classFile.pool = .ok methods ∧
    ∀ method, method ∈ references.methods ↔ method ∈ methods

theorem Known.exists_roles {classFile : ClassFile} {references : References}
    {uses : List TypeUse} (h : Known classFile references uses) :
    ∃ table, TypeUse.roles classFile = .ok table :=
  ⟨_, Except.bind_eq_ok_iff.2 ⟨uses, h.all, rfl⟩⟩

/-- Every text that is used can be read. -/
theorem Known.exists_text {classFile : ClassFile} {references : References}
    {uses : List TypeUse} (h : Known classFile references uses) {use : TypeUse} (huse : use ∈ uses) :
    ∃ text, classFile.pool.text use.index = .ok text := by
  obtain ⟨first, hfirst, hindex⟩ := TypeUse.exists_first huse
  obtain ⟨names, hnames⟩ := h.texts first hfirst
  obtain ⟨text, htext, -⟩ := ofText_eq_ok_iff.1 hnames
  exact ⟨text, hindex ▸ htext⟩

theorem ofClass_eq_ok_iff {classFile : ClassFile} {references : References} :
    ofClass classFile = .ok references ↔
      ∃ name superName interfaces table classes methods,
        classFile.name = .ok name ∧ classFile.superName = .ok superName ∧
        classFile.interfaceNames = .ok interfaces ∧ TypeUse.roles classFile = .ok table ∧
        table.toList.mapM (fun (index, role) => ofText classFile.pool index role) = .ok classes ∧
        methodsOf classFile.pool = .ok methods ∧
        references = ⟨name, superName, interfaces,
          (Std.ExtTreeSet.ofList classes.flatten).erase name, .ofList methods⟩ := by
  constructor
  · intro h
    obtain ⟨name, hname, h⟩ := Except.bind_eq_ok_iff.1 h
    obtain ⟨superName, hsuper, h⟩ := Except.bind_eq_ok_iff.1 h
    obtain ⟨interfaces, hinterfaces, h⟩ := Except.bind_eq_ok_iff.1 h
    obtain ⟨table, htable, h⟩ := Except.bind_eq_ok_iff.1 h
    obtain ⟨classes, hclasses, h⟩ := Except.bind_eq_ok_iff.1 h
    obtain ⟨methods, hmethods, h⟩ := Except.bind_eq_ok_iff.1 h
    exact ⟨name, superName, interfaces, table, classes, methods, Except.within_eq_ok_iff.1 hname,
      Except.within_eq_ok_iff.1 hsuper, Except.within_eq_ok_iff.1 hinterfaces, htable, hclasses,
      hmethods, (Except.ok.inj h).symm⟩
  · rintro ⟨name, superName, interfaces, table, classes, methods, hname, hsuper, hinterfaces,
      htable, hclasses, hmethods, rfl⟩
    refine Except.bind_eq_ok_iff.2 ⟨name, Except.within_eq_ok_iff.2 hname, ?_⟩
    refine Except.bind_eq_ok_iff.2 ⟨superName, Except.within_eq_ok_iff.2 hsuper, ?_⟩
    refine Except.bind_eq_ok_iff.2 ⟨interfaces, Except.within_eq_ok_iff.2 hinterfaces, ?_⟩
    refine Except.bind_eq_ok_iff.2 ⟨table, htable, ?_⟩
    refine Except.bind_eq_ok_iff.2 ⟨classes, hclasses, ?_⟩
    exact Except.bind_eq_ok_iff.2 ⟨methods, hmethods, rfl⟩

theorem known_of_ofClass {classFile : ClassFile} {references : References}
    (h : ofClass classFile = .ok references) : ∃ uses, Known classFile references uses := by
  obtain ⟨name, _, _, table, classes, methods, hname, -, -, hroles, hclasses, hmethods, rfl⟩ :=
    ofClass_eq_ok_iff.1 h
  obtain ⟨uses, huses, -⟩ := Except.bind_eq_ok_iff.1 hroles
  have hall := Except.mapM_eq_ok_iff.1 hclasses
  refine ⟨uses, huses, hname, ?_, ?_, methods, hmethods, ?_⟩
  · rintro ⟨index, role⟩ hfirst
    obtain ⟨names, -, hnames⟩ :=
      exists_related_right hall ((TypeUse.mem_roles_iff hroles huses).2 hfirst)
    exact ⟨names, hnames⟩
  · intro other
    have hmem : other ∈ (Std.ExtTreeSet.ofList classes.flatten).erase name ↔
        other ≠ name ∧ other ∈ classes.flatten := by
      rw [Std.ExtTreeSet.mem_erase, Std.ExtTreeSet.mem_ofList, List.contains_iff_mem, ne_eq,
        Std.compare_eq_iff_eq, ne_eq, eq_comm]
    rw [hmem, List.mem_flatten]
    refine and_congr_right fun _ => ?_
    constructor
    · rintro ⟨names, hnames, hother⟩
      obtain ⟨⟨index, role⟩, hmem, hnames⟩ := exists_related_left hall hnames
      exact ⟨⟨index, role⟩, (TypeUse.mem_roles_iff hroles huses).1 hmem, names, hnames, hother⟩
    · rintro ⟨⟨index, role⟩, hfirst, names, hnames, hother⟩
      obtain ⟨found, hfound, hsame⟩ :=
        exists_related_right hall ((TypeUse.mem_roles_iff hroles huses).2 hfirst)
      obtain rfl : found = names := Except.ok.inj (hsame.symm.trans hnames)
      exact ⟨_, hfound, hother⟩
  · intro method
    rw [Std.ExtTreeSet.mem_ofList, List.contains_iff_mem]

end References

end JarTailor
