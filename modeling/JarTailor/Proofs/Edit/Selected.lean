import JarTailor.Proofs.Edit.Bodies
import JarTailor.Proofs.Jar.Prepared

/-!
# The methods that are selected

A method gets another body when a rule selects it, or when it is native and natives are delegated,
unless it is abstract. Which rules have been used and which body a method gets is told by the first
rule that selects it. `Treated` is what becomes of one method, `Selected` what becomes of a class.

The pool grows from method to method. What a method's body needs stays where it is, so that the body
is the one that is made in the pool as it is in the end; and the attributes of the method have the
names that they had before.
-/

namespace JarTailor.Replace

/-- A rule that selects a method, where none before it does. -/
structure FirstMatch (rules : List ReplaceRule) (method : MemberRef) (position : Nat)
    (rule : ReplaceRule) : Prop where
  found : rules[position]? = some rule
  selects : rule.selects method.owner method.name method.descriptor = true
  first : ∀ earlier < position, ∀ other, rules[earlier]? = some other →
    other.selects method.owner method.name method.descriptor = false

/-- The action for a method: that of the first rule that selects it, or delegation for a native
method that no rule selects, where natives are delegated. -/
inductive Chooses (rules : List ReplaceRule) (natives : Bool) (method : MemberRef)
    (flags : AccessFlags) : ReplaceAction → Prop
  | rule {position : Nat} {rule : ReplaceRule} (h : FirstMatch rules method position rule) :
      Chooses rules natives method flags rule.action
  | native (hnone : ∀ rule ∈ rules,
        rule.selects method.owner method.name method.descriptor = false)
      (hnatives : natives = true) (hnative : flags.has AccessFlags.nativeBit = true) :
      Chooses rules natives method flags .delegate

/-- A method of a class, as rules see it. -/
structure Declares (classFile : ClassFile) (member : Member) (method : MemberRef) : Prop where
  owner : classFile.name = .ok method.owner
  name : classFile.pool.text member.name = .ok method.name
  descriptor : classFile.pool.text member.descriptor = .ok method.descriptor
  isInterface : method.isInterface = false

theorem Declares.unique {classFile : ClassFile} {member : Member} {method other : MemberRef}
    (h : Declares classFile member method) (h' : Declares classFile member other) :
    method = other := by
  obtain ⟨owner, name, descriptor, isInterface⟩ := method
  obtain ⟨owner', name', descriptor', isInterface'⟩ := other
  obtain rfl : owner = owner' := Except.ok.inj (h.owner.symm.trans h'.owner)
  obtain rfl : name = name' := Except.ok.inj (h.name.symm.trans h'.name)
  obtain rfl : descriptor = descriptor' := Except.ok.inj (h.descriptor.symm.trans h'.descriptor)
  obtain rfl : isInterface = isInterface' := h.isInterface.trans h'.isInterface.symm
  rfl

section Choice

variable {rules : List ReplaceRule} {natives : Bool} {method : MemberRef} {flags : AccessFlags}

theorem find?_zipIdx_eq_some_iff {rule : ReplaceRule} {position : Nat} :
    rules.zipIdx.find? (·.1.selects method.owner method.name method.descriptor) =
      some (rule, position) ↔ FirstMatch rules method position rule := by
  rw [List.find?_eq_some_iff_getElem]
  constructor
  · rintro ⟨hselects, place, hplace, heq, hbefore⟩
    rw [List.getElem_zipIdx, Nat.zero_add] at heq
    obtain ⟨rfl, rfl⟩ := Prod.mk.inj heq
    rw [List.length_zipIdx] at hplace
    refine ⟨List.getElem?_eq_getElem hplace, hselects, fun earlier hearlier other hother => ?_⟩
    have hnot := hbefore earlier hearlier
    rw [List.getElem_zipIdx] at hnot
    obtain ⟨hlt, rfl⟩ := List.getElem?_eq_some_iff.1 hother
    simpa using hnot
  · rintro ⟨hfound, hselects, hfirst⟩
    obtain ⟨hlt, rfl⟩ := List.getElem?_eq_some_iff.1 hfound
    refine ⟨hselects, position, by rwa [List.length_zipIdx], ?_, fun earlier hearlier => ?_⟩
    · rw [List.getElem_zipIdx, Nat.zero_add]
    · have hnot := hfirst earlier hearlier _ (List.getElem?_eq_getElem (hearlier.trans hlt))
      rw [List.getElem_zipIdx, hnot]
      rfl

theorem FirstMatch.unique {position position' : Nat} {rule rule' : ReplaceRule}
    (h : FirstMatch rules method position rule) (h' : FirstMatch rules method position' rule') :
    position = position' ∧ rule = rule' := by
  have heq := (find?_zipIdx_eq_some_iff.2 h).symm.trans (find?_zipIdx_eq_some_iff.2 h')
  obtain ⟨hrule, hposition⟩ := Prod.mk.inj (Option.some.inj heq)
  exact ⟨hposition, hrule⟩

theorem find?_zipIdx_eq_none_iff :
    rules.zipIdx.find? (·.1.selects method.owner method.name method.descriptor) = none ↔
      ∀ rule ∈ rules, rule.selects method.owner method.name method.descriptor = false := by
  rw [List.find?_eq_none]
  constructor
  · intro h rule hrule
    obtain ⟨place, hplace, rfl⟩ := List.mem_iff_getElem.1 hrule
    have hmem : (rules[place], place) ∈ rules.zipIdx := by
      rw [List.mem_zipIdx_iff_getElem?]
      exact List.getElem?_eq_getElem hplace
    simpa using h _ hmem
  · rintro h ⟨rule, position⟩ hmem
    have hrule : rule ∈ rules := List.mem_of_getElem? (List.mem_zipIdx_iff_getElem?.1 hmem)
    simp [h rule hrule]

/-- What is chosen for a method is what its first match says, or else that natives are delegated. -/
theorem chooses_of_choice? {position : Option Nat} {action : ReplaceAction}
    (h : choice? rules natives method flags = some (position, action)) :
    Chooses rules natives method flags action ∧
      ∀ found, found ∈ position ↔ ∃ rule, FirstMatch rules method found rule := by
  unfold choice? at h
  split at h
  · next rule place hfind =>
      cases h
      have hfirst := find?_zipIdx_eq_some_iff.1 hfind
      refine ⟨.rule hfirst, fun found => ?_⟩
      constructor
      · rintro ⟨⟩
        exact ⟨rule, hfirst⟩
      · rintro ⟨other, hother⟩
        rw [(hfirst.unique hother).1]
        rfl
  · next hfind =>
      have hnone := find?_zipIdx_eq_none_iff.1 hfind
      split at h
      · next hnative =>
          cases h
          rw [Bool.and_eq_true] at hnative
          refine ⟨.native hnone hnative.1 hnative.2, fun found => ?_⟩
          constructor
          · rintro ⟨⟩
          · rintro ⟨rule, hrule⟩
            have hmem := List.mem_of_getElem? hrule.found
            exact absurd hrule.selects (by simp [hnone rule hmem])
      · cases h

theorem not_chooses_of_choice? (h : choice? rules natives method flags = none) :
    (∀ action, ¬ Chooses rules natives method flags action) ∧
      ∀ position rule, ¬ FirstMatch rules method position rule := by
  unfold choice? at h
  split at h
  · cases h
  · next hfind =>
      have hnone := find?_zipIdx_eq_none_iff.1 hfind
      have hfirst : ∀ position rule, ¬ FirstMatch rules method position rule := by
        intro position rule hrule
        have hmem := List.mem_of_getElem? hrule.found
        exact absurd hrule.selects (by simp [hnone rule hmem])
      split at h
      · cases h
      · next hnative =>
          refine ⟨?_, hfirst⟩
          rintro action (⟨hrule⟩ | ⟨-, hnatives, hflag⟩)
          · exact hfirst _ _ hrule
          · exact hnative (Bool.and_eq_true_iff.2 ⟨hnatives, hflag⟩)

end Choice

section Methods

variable {rules : List ReplaceRule} {natives : Bool} {owner : String}
variable {start pool after final : Pool} {member changed : Member}

/-- From method to method the pool only grows. -/
theorem extends_of_method {position : Option Nat}
    (h : (Replace.method rules natives owner pool member).result = .ok (after, changed, position))
    (hsize : pool.size ≤ Pool.capacity) : pool.Extends after ∧ after.size ≤ Pool.capacity := by
  obtain ⟨hgains, -⟩ : GainsBodies owner (fun _ => True) pool after ∧ _ :=
    gains_method h hsize (.refl _) fun _ _ _ _ => trivial
  exact ⟨hgains.extends, hgains.size_le hsize⟩

theorem extends_of_methods {members news : List Member} {positions : List Nat}
    (h : (methods rules natives owner pool members).result = .ok (after, news, positions))
    (hsize : pool.size ≤ Pool.capacity) : pool.Extends after := by
  obtain ⟨hgains, -⟩ : GainsBodies owner (fun _ => True) pool after ∧ _ :=
    gains_methods h hsize (.refl _) fun _ _ _ _ _ _ => trivial
  exact hgains.extends

end Methods

end JarTailor.Replace
