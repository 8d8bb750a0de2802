import JarTailor.Edit.Renaming
import JarTailor.Proofs.ClassFile.Kinds
import JarTailor.Proofs.Success

/-!
# What renaming changes

Renaming writes other texts into text entries and points string constants at copies of the old
ones. Every other slot of the pool stays as it was.
-/

namespace JarTailor

/-- One entry of a pool has its class names changed; string constants may point elsewhere, and
texts may be appended. -/
structure Renaming.Renames (names : Renaming) (index : Index) (role : TypeRole)
    (before after : Pool) : Prop where
  text : ∃ text mapped, before.text index = .ok text ∧ names.mapText role text = .ok mapped ∧
    after.text index = .ok (mapped.getD text)
  others : ∀ (slot : Nat) (constant : Constant), slot ≠ index.toNat →
    before.entries[slot]? = some constant → after.entries[slot]? = some constant ∨
      ∃ old new, constant = .stringRef old ∧ after.entries[slot]? = some (.stringRef new)
  added : ∀ (slot : Nat) (constant : Constant), before.size ≤ slot →
    after.entries[slot]? = some constant → ∃ bytes, constant = .utf8 bytes
  laidOut : before.LaidOut → after.LaidOut
  size_le : before.size ≤ Pool.capacity → after.size ≤ Pool.capacity

namespace Renaming

section Steps

variable {names : Renaming} {before after : Pool} {index : Index} {role : TypeRole}

theorem not_getElem?_of_size_le {pool : Pool} {slot : Nat} {constant : Constant}
    (hsize : pool.size ≤ slot) : pool.entries[slot]? ≠ some constant := by
  intro hslot
  exact absurd (Array.getElem?_eq_some_iff.1 hslot).1 (Nat.not_lt.2 hsize)

/-- A constant, with `copy` for its text if that was `index`. -/
def repointed (index copy : Index) : Constant → Constant
  | .stringRef text => .stringRef (if text = index then copy else text)
  | other => other

theorem repointed_of_ne {copy : Index} {constant : Constant} (h : constant ≠ .stringRef index) :
    repointed index copy constant = constant := by
  cases constant with
  | stringRef text =>
      have htext : text ≠ index := fun heq => h (heq ▸ rfl)
      rw [repointed, if_neg htext]
  | _ => rfl

theorem push_text_eq_ok {bytes : Bytes}
    (h : (Pool.push (.utf8 bytes)).complete before = .ok (index, after)) :
    index.toNat = before.size ∧ after.entries = before.entries.push (.utf8 bytes) := by
  obtain ⟨hroom, rfl, rfl⟩ := Pool.push_eq_ok_iff.1 h
  refine ⟨UInt16.toNat_ofNat_of_lt' ?_, Pool.entries_append_of_narrow before rfl⟩
  have hwidth : (Constant.utf8 bytes).width = 1 := rfl
  rw [hwidth, Pool.capacity] at hroom
  exact Nat.lt_of_succ_le (Nat.le_succ_of_le hroom)

theorem splitLiteral_eq_ok {bytes : Bytes}
    (h : (splitLiteral index (.utf8 bytes)).complete before = .ok ((), after)) :
    ∃ copy grown, (Pool.push (.utf8 bytes)).complete before = .ok (copy, grown) ∧
      after.entries = grown.entries.map (repointed index copy) := by
  obtain ⟨copy, grown, hpush, h⟩ := Pool.Edit.bind_eq_ok_iff.1 h
  rw [Pool.Edit.complete_eq_ok_iff] at h
  cases h
  exact ⟨copy, grown, hpush, rfl⟩

theorem set_eq_ok {pool found : Pool} {constant : Constant}
    (h : pool.set index constant = .ok found) :
    index.toNat < pool.entries.size ∧
      found.entries = pool.entries.setIfInBounds index.toNat constant := by
  unfold Pool.set at h
  split at h
  · next hlt =>
      cases h
      exact ⟨hlt, rfl⟩
  · cases h

/-- An entry stays, or another text is written there. String constants that it was the text of are
pointed at a copy first. -/
theorem renameEntry_eq_ok {literals : Std.ExtTreeSet Index} {changed : Bool}
    (h : names.renameEntry literals before index role = .ok (after, changed)) :
    ∃ text, before.text index = .ok text ∧
      (names.mapText role text = .ok none ∧ changed = false ∧ after = before ∨
        ∃ renamed split, names.mapText role text = .ok (some renamed) ∧ changed = true ∧
          (index ∈ literals ∧
              (splitLiteral index (.utf8 (Utf8.encode text))).complete before = .ok ((), split) ∨
            index ∉ literals ∧ split = before) ∧
          split.set index (.utf8 (Utf8.encode renamed)) = .ok after) := by
  obtain ⟨text, htext, h⟩ := Except.bind_eq_ok_iff.1 h
  obtain ⟨mapped, hmapped, h⟩ := Except.bind_eq_ok_iff.1 h
  have hmap := Except.within_eq_ok_iff.1 hmapped
  refine ⟨text, htext, ?_⟩
  cases mapped with
  | none =>
      cases h
      exact Or.inl ⟨hmap, rfl, rfl⟩
  | some renamed =>
      simp only at h
      split at h
      · next hliteral =>
          obtain ⟨split, hsplit, h⟩ := Except.bind_eq_ok_iff.1 h
          obtain ⟨written, hset, h⟩ := Except.bind_eq_ok_iff.1 h
          cases h
          obtain ⟨⟨⟨⟩, _⟩, hcopy, rfl⟩ := Except.map_eq_ok_iff.1 hsplit
          exact Or.inr ⟨renamed, _, hmap, rfl,
            Or.inl ⟨Std.ExtTreeSet.contains_iff_mem.1 hliteral, hcopy⟩, hset⟩
      · next hliteral =>
          obtain ⟨split, hsplit, h⟩ := Except.bind_eq_ok_iff.1 h
          obtain ⟨written, hset, h⟩ := Except.bind_eq_ok_iff.1 h
          cases h
          cases hsplit
          exact Or.inr ⟨renamed, before, hmap, rfl, Or.inr ⟨fun hmem =>
            hliteral (Std.ExtTreeSet.contains_iff_mem.2 hmem), rfl⟩, hset⟩

theorem renameEntry_of_mapText {literals : Std.ExtTreeSet Index} {text renamed : String}
    (htext : before.text index = .ok text) (hmap : names.mapText role text = .ok (some renamed))
    (hliteral : literals.contains index = false)
    (hset : before.set index (.utf8 (Utf8.encode renamed)) = .ok after) :
    names.renameEntry literals before index role = .ok (after, true) := by
  refine Except.bind_eq_ok_iff.2 ⟨text, htext, ?_⟩
  refine Except.bind_eq_ok_iff.2 ⟨some renamed, Except.within_eq_ok_iff.2 hmap, ?_⟩
  simp only [hliteral, Bool.false_eq_true, if_false]
  exact Except.bind_eq_ok_iff.2 ⟨before, rfl, Except.bind_eq_ok_iff.2 ⟨after, hset, rfl⟩⟩

/-- The second pool is the first with string constants that may point elsewhere. -/
def Repoints (before after : Pool) : Prop :=
  ∀ slot : Nat, after.entries[slot]? = before.entries[slot]? ∨
    ∃ old new, before.entries[slot]? = some (.stringRef old) ∧
      after.entries[slot]? = some (.stringRef new)

theorem Repoints.text (h : Repoints before after) {text : String}
    (htext : before.text index = .ok text) : after.text index = .ok text := by
  rw [Pool.text_eq_ok_iff, Pool.get_eq_ok_iff] at htext ⊢
  rcases h index.toNat with heq | ⟨old, new, hold, -⟩
  · rw [heq, htext]
  · rw [htext] at hold
    cases hold

theorem Repoints.sameKinds (h : Repoints before after) : Pool.SameKinds before after := by
  refine List.ext_getElem? fun slot => ?_
  rw [List.getElem?_map, List.getElem?_map, Array.getElem?_toList, Array.getElem?_toList]
  rcases h slot with heq | ⟨old, new, hold, hnew⟩
  · rw [heq]
  · rw [hold, hnew]
    rfl

/-- The second pool is the first with a text appended or not, and with string constants that may
point elsewhere. -/
structure Copies (before grown after : Pool) : Prop where
  gains : Pool.Gains (fun _ => False) (fun _ => False) before grown
  added : ∀ (slot : Nat) (constant : Constant), before.size ≤ slot →
    grown.entries[slot]? = some constant → ∃ bytes, constant = .utf8 bytes
  repoints : Repoints grown after

theorem copies_refl (pool : Pool) : Copies pool pool pool := by
  refine ⟨.refl pool, ?_, fun slot => Or.inl rfl⟩
  intro slot constant hsize hslot
  exact absurd hslot (not_getElem?_of_size_le hsize)

theorem copies_of_splitLiteral {bytes : Bytes}
    (h : (splitLiteral index (.utf8 bytes)).complete before = .ok ((), after)) :
    ∃ grown, Copies before grown after := by
  obtain ⟨copy, grown, hpush, hentries⟩ := splitLiteral_eq_ok h
  refine ⟨grown, (Pool.gains_push hpush trivial).1, ?_, fun slot => ?_⟩
  · intro slot constant hsize hslot
    rw [(push_text_eq_ok hpush).2, Array.getElem?_push] at hslot
    split at hslot
    · exact ⟨bytes, (Option.some.inj hslot).symm⟩
    · exact absurd hslot (not_getElem?_of_size_le hsize)
  · rw [hentries, Array.getElem?_map]
    cases grown.entries[slot]? with
    | none => exact Or.inl rfl
    | some constant =>
        cases constant with
        | stringRef text => exact Or.inr ⟨text, _, rfl, rfl⟩
        | _ => exact Or.inl rfl

theorem renames_refl {text : String} (htext : before.text index = .ok text)
    (hmap : names.mapText role text = .ok none) : names.Renames index role before before := by
  refine ⟨⟨text, none, htext, hmap, htext⟩, ?_, ?_, id, id⟩
  · intro slot constant _ hslot
    exact Or.inl hslot
  · intro slot constant hsize hslot
    exact absurd hslot (not_getElem?_of_size_le hsize)

/-- A text makes room for another text. -/
theorem sameKinds_of_set {text : String} {bytes : Bytes} (htext : before.text index = .ok text)
    (hset : before.set index (.utf8 bytes) = .ok after) : Pool.SameKinds before after := by
  obtain ⟨hlt, hentries⟩ := set_eq_ok hset
  rw [Pool.text_eq_ok_iff, Pool.get_eq_ok_iff] at htext
  refine List.ext_getElem? fun slot => ?_
  rw [List.getElem?_map, List.getElem?_map, Array.getElem?_toList, Array.getElem?_toList, hentries,
    Array.getElem?_setIfInBounds]
  by_cases hslot : index.toNat = slot
  · subst hslot
    rw [if_pos rfl, if_pos hlt, htext]
    rfl
  · rw [if_neg hslot]

theorem renames_of_copies {grown split : Pool} {text renamed : String}
    (hcopies : Copies before grown split) (htext : before.text index = .ok text)
    (hmap : names.mapText role text = .ok (some renamed))
    (hset : split.set index (.utf8 (Utf8.encode renamed)) = .ok after) :
    names.Renames index role before after := by
  obtain ⟨hlt, hentries⟩ := set_eq_ok hset
  have hgrown : grown.text index = .ok text := hcopies.gains.extends.text htext
  have hkinds := sameKinds_of_set (hcopies.repoints.text hgrown) hset
  have hmoved := hcopies.repoints.sameKinds
  have hself : after.entries[index.toNat]? = some (.utf8 (Utf8.encode renamed)) := by
    rw [hentries, Array.getElem?_setIfInBounds_self]
    exact if_pos hlt
  refine ⟨⟨text, some renamed, htext, hmap, ?_⟩, ?_, ?_, ?_, ?_⟩
  · rw [Pool.text_eq_ok_iff, Pool.get_eq_ok_iff, hself]
    rfl
  · intro slot constant hslot hbefore
    have hfound := hcopies.gains.extends slot constant hbefore
    rw [hentries, Array.getElem?_setIfInBounds_ne (Ne.symm hslot)]
    rcases hcopies.repoints slot with heq | ⟨old, new, hold, hnew⟩
    · rw [heq]
      exact Or.inl hfound
    · rw [hfound] at hold
      exact Or.inr ⟨old, new, Option.some.inj hold, hnew⟩
  · intro slot constant hsize hslot
    by_cases heq : slot = index.toNat
    · subst heq
      rw [hself] at hslot
      exact ⟨_, (Option.some.inj hslot).symm⟩
    · rw [hentries, Array.getElem?_setIfInBounds_ne (Ne.symm heq)] at hslot
      rcases hcopies.repoints slot with hsame | ⟨old, new, hold, -⟩
      · rw [hsame] at hslot
        exact hcopies.added slot constant hsize hslot
      · obtain ⟨bytes, hbytes⟩ := hcopies.added slot _ hsize hold
        cases hbytes
  · intro hlaidOut
    exact .of_sameKinds hkinds (.of_sameKinds hmoved (.of_gains hcopies.gains hlaidOut))
  · intro hsize
    rw [hkinds.size_eq, hmoved.size_eq]
    exact hcopies.gains.size_le hsize

theorem renames_of_renameEntry {literals : Std.ExtTreeSet Index} {changed : Bool}
    (h : names.renameEntry literals before index role = .ok (after, changed)) :
    names.Renames index role before after := by
  obtain ⟨text, htext, ⟨hmap, -, rfl⟩ | ⟨renamed, split, hmap, -, hsplit, hset⟩⟩ :=
    renameEntry_eq_ok h
  · exact renames_refl htext hmap
  · rcases hsplit with ⟨-, hcopy⟩ | ⟨-, rfl⟩
    · obtain ⟨grown, hcopies⟩ := copies_of_splitLiteral hcopy
      exact renames_of_copies hcopies htext hmap hset
    · exact renames_of_copies (copies_refl split) htext hmap hset

theorem Renames.keepsKinds (h : names.Renames index role before after) :
    before.KeepsKinds after := by
  intro slot constant hslot
  by_cases heq : slot = index.toNat
  · obtain ⟨text, mapped, htext, -, hafter⟩ := h.text
    rw [Pool.text_eq_ok_iff, Pool.get_eq_ok_iff] at htext hafter
    rw [heq, htext] at hslot
    exact ⟨_, heq ▸ hafter, Option.some.inj hslot ▸ rfl⟩
  · rcases h.others slot constant heq hslot with hsame | ⟨old, new, rfl, hnew⟩
    · exact ⟨constant, hsame, rfl⟩
    · exact ⟨_, hnew, rfl⟩

/-- An entry that was a text is one. -/
theorem Renames.exists_text (h : names.Renames index role before after) {other : Index}
    {text : String} (htext : before.text other = .ok text) :
    ∃ text, after.text other = .ok text := by
  by_cases heq : other = index
  · obtain ⟨_, _, -, -, hafter⟩ := h.text
    exact ⟨_, heq ▸ hafter⟩
  · rw [Pool.text_eq_ok_iff, Pool.get_eq_ok_iff] at htext
    have hne : other.toNat ≠ index.toNat := fun hsame => heq (UInt16.toNat_inj.1 hsame)
    rcases h.others _ _ hne htext with hsame | ⟨_, _, hstring, -⟩
    · exact ⟨text, Pool.text_eq_ok_iff.2 (Pool.get_eq_ok_iff.2 hsame)⟩
    · cases hstring

/-- What is no text and no string constant is where it was. -/
theorem Renames.getElem?_eq_some_iff (h : names.Renames index role before after) {slot : Nat}
    {constant : Constant} (htext : ∀ bytes, constant ≠ .utf8 bytes)
    (hstring : ∀ text, constant ≠ .stringRef text) :
    after.entries[slot]? = some constant ↔ before.entries[slot]? = some constant := by
  obtain ⟨_, _, hold, -, hnew⟩ := h.text
  rw [Pool.text_eq_ok_iff, Pool.get_eq_ok_iff] at hold hnew
  by_cases hslot : slot = index.toNat
  · subst hslot
    rw [hold, hnew]
    constructor
    · intro heq
      exact absurd (Option.some.inj heq).symm (htext _)
    · intro heq
      exact absurd (Option.some.inj heq).symm (htext _)
  · constructor
    · intro hafter
      by_cases hsize : before.size ≤ slot
      · obtain ⟨bytes, rfl⟩ := h.added slot constant hsize hafter
        exact absurd rfl (htext bytes)
      · have hbefore := Array.getElem?_eq_getElem (Nat.lt_of_not_le hsize)
        rcases h.others slot _ hslot hbefore with hsame | ⟨_, new, -, hmoved⟩
        · rw [hbefore, ← hsame, hafter]
        · rw [hafter] at hmoved
          exact absurd (Option.some.inj hmoved) (hstring new)
    · intro hbefore
      rcases h.others slot constant hslot hbefore with hsame | ⟨old, _, rfl, -⟩
      · exact hsame
      · exact absurd rfl (hstring old)

end Steps

/-- Some entries of a pool are renamed one after another. -/
inductive RenamesAll (names : Renaming) : List (Index × TypeRole) → Pool → Pool → Prop
  | nil (pool : Pool) : RenamesAll names [] pool pool
  | cons {index : Index} {role : TypeRole} {uses : List (Index × TypeRole)}
      {before middle after : Pool} (h : names.Renames index role before middle)
      (hrest : RenamesAll names uses middle after) :
      RenamesAll names ((index, role) :: uses) before after

/-- Renames within the entries of a list, one after another. -/
def renameEntries (names : Renaming) (literals : Std.ExtTreeSet Index)
    (uses : List (Index × TypeRole)) (pool : Pool) (changed : Bool) :
    Except Failure (Pool × Bool) :=
  uses.foldlM (fun (pool, changed) (index, role) => do
    let (pool, renamed) ← names.renameEntry literals pool index role
    return (pool, changed || renamed)) (pool, changed)

section Runs

variable {names : Renaming} {uses : List (Index × TypeRole)} {before after : Pool}
variable {literals : Std.ExtTreeSet Index} {changed result : Bool} {index : Index}

theorem renameEntries_cons_eq_ok {use : Index × TypeRole}
    (h : names.renameEntries literals (use :: uses) before changed = .ok (after, result)) :
    ∃ middle renamed, names.renameEntry literals before use.1 use.2 = .ok (middle, renamed) ∧
      names.renameEntries literals uses middle (changed || renamed) = .ok (after, result) := by
  rw [renameEntries, List.foldlM_cons] at h
  obtain ⟨⟨middle, _⟩, hfirst, hrest⟩ := Except.bind_eq_ok_iff.1 h
  obtain ⟨⟨_, renamed⟩, hentry, hpair⟩ := Except.bind_eq_ok_iff.1 hfirst
  cases hpair
  exact ⟨middle, renamed, hentry, hrest⟩

theorem renamesAll_of_renameEntries
    (h : names.renameEntries literals uses before changed = .ok (after, result)) :
    names.RenamesAll uses before after := by
  induction uses generalizing before changed with
  | nil =>
      cases h
      exact .nil _
  | cons use uses ih =>
      obtain ⟨middle, renamed, hentry, hrest⟩ := renameEntries_cons_eq_ok h
      exact .cons (renames_of_renameEntry hentry) (ih hrest)

/-- A run that changes no entry leaves the pool. -/
theorem eq_of_renameEntries_false
    (h : names.renameEntries literals uses before changed = .ok (after, false)) :
    changed = false ∧ after = before := by
  induction uses generalizing before changed with
  | nil =>
      cases h
      exact ⟨rfl, rfl⟩
  | cons use uses ih =>
      obtain ⟨middle, renamed, hentry, hrest⟩ := renameEntries_cons_eq_ok h
      obtain ⟨hfalse, rfl⟩ := ih hrest
      obtain ⟨hchanged, rfl⟩ := Bool.or_eq_false_iff.1 hfalse
      obtain ⟨text, -, ⟨-, -, hsame⟩ | ⟨_, _, -, htrue, -⟩⟩ := renameEntry_eq_ok hentry
      · exact ⟨hchanged, hsame⟩
      · cases htrue

/-- What every renamed entry keeps of a pool, a run keeps. -/
theorem RenamesAll.preserves (h : names.RenamesAll uses before after) (holds : Pool → Prop)
    (hstep : ∀ index role first second, names.Renames index role first second → holds first →
      holds second) (hbefore : holds before) : holds after := by
  induction h with
  | nil => exact hbefore
  | cons hfirst _ ih => exact ih (hstep _ _ _ _ hfirst hbefore)

theorem RenamesAll.getElem?_eq_some_iff (h : names.RenamesAll uses before after) {slot : Nat}
    {constant : Constant} (htext : ∀ bytes, constant ≠ .utf8 bytes)
    (hstring : ∀ text, constant ≠ .stringRef text) :
    after.entries[slot]? = some constant ↔ before.entries[slot]? = some constant := by
  induction h with
  | nil => exact Iff.rfl
  | cons hfirst _ ih => rw [ih, hfirst.getElem?_eq_some_iff htext hstring]

theorem RenamesAll.get (h : names.RenamesAll uses before after) {constant : Constant}
    (htext : ∀ bytes, constant ≠ .utf8 bytes) (hstring : ∀ text, constant ≠ .stringRef text)
    (hget : before.get index = .ok constant) : after.get index = .ok constant := by
  rw [Pool.get_eq_ok_iff] at hget ⊢
  exact (h.getElem?_eq_some_iff htext hstring).2 hget

theorem RenamesAll.exists_text (h : names.RenamesAll uses before after) {text : String}
    (htext : before.text index = .ok text) : ∃ text, after.text index = .ok text :=
  h.preserves (fun pool => ∃ text, pool.text index = .ok text)
    (fun _ _ _ _ hstep ⟨_, hold⟩ => hstep.exists_text hold) ⟨text, htext⟩

theorem RenamesAll.exists_className (h : names.RenamesAll uses before after) {name : String}
    (hname : before.className index = .ok name) : ∃ name, after.className index = .ok name := by
  obtain ⟨text, hget, htext⟩ := Pool.className_eq_ok_iff.1 hname
  obtain ⟨renamed, hrenamed⟩ := h.exists_text htext
  exact ⟨renamed, Pool.className_eq_ok_iff.2
    ⟨text, h.get (by simp) (by simp) hget, hrenamed⟩⟩

end Runs

section Classes

variable {names : Renaming} {before after : ClassFile} {changed : Bool}

/-- There is nothing to rename, or the texts that a class uses as types are renamed. -/
theorem entries_of_apply (h : names.apply before = .ok (after, changed)) :
    after = { before with pool := after.pool } ∧
      (names.isEmpty = true ∧ after.pool = before.pool ∨
        ∃ table, TypeUse.roles before = .ok table ∧
          names.renameEntries (literalTexts before.pool) table.toList before.pool false =
            .ok (after.pool, changed)) := by
  unfold apply at h
  split at h
  · next hempty =>
      cases h
      exact ⟨rfl, Or.inl ⟨hempty, rfl⟩⟩
  · obtain ⟨table, htable, h⟩ := Except.bind_eq_ok_iff.1 h
    obtain ⟨⟨pool, result⟩, hrun, h⟩ := Except.bind_eq_ok_iff.1 h
    cases h
    exact ⟨rfl, Or.inr ⟨table, htable, hrun⟩⟩

/-- A class is renamed in the texts that it uses as types, or there is nothing to rename. -/
theorem apply_eq_ok (h : names.apply before = .ok (after, changed)) :
    after = { before with pool := after.pool } ∧
      (names.isEmpty = true ∧ after.pool = before.pool ∨
        ∃ roles, TypeUse.roles before = .ok roles ∧
          names.RenamesAll roles.toList before.pool after.pool) := by
  obtain ⟨hothers, hsame | ⟨table, htable, hrun⟩⟩ := entries_of_apply h
  · exact ⟨hothers, Or.inl hsame⟩
  · exact ⟨hothers, Or.inr ⟨table, htable, renamesAll_of_renameEntries hrun⟩⟩

/-- A class in which nothing is renamed stays as it is. -/
theorem eq_of_apply_false (h : names.apply before = .ok (after, false)) : after = before := by
  obtain ⟨hothers, ⟨-, hsame⟩ | ⟨table, -, hrun⟩⟩ := entries_of_apply h
  · rw [hothers, hsame]
  · rw [hothers, (eq_of_renameEntries_false hrun).2]

end Classes

end Renaming

end JarTailor
