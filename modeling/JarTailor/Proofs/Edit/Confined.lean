import JarTailor.Proofs.Edit.Renamed
import Mathlib

/-!
# What renaming leaves alone

Renaming changes texts that are used as types and nothing else that a pool held, but for string
constants, which go on saying what they said: those whose text changes are given a copy of it first.
-/

namespace JarTailor

/-- Of the slots of a pool only listed texts change. String constants may point elsewhere, to the
same bytes, and copies of listed texts may be appended. -/
structure Pool.Confined (listed : Index → Prop) (before after : Pool) : Prop where
  size_le : before.size ≤ after.size
  added : ∀ (slot : Nat) (constant : Constant), before.size ≤ slot →
    after.entries[slot]? = some constant → ∃ index bytes, listed index ∧
      before.get index = .ok (.utf8 bytes) ∧ constant = .utf8 bytes
  kept : ∀ (slot : Nat) (constant : Constant), before.entries[slot]? = some constant →
    (∀ text, constant ≠ .stringRef text) →
    (∀ index bytes, listed index → constant = .utf8 bytes → slot ≠ index.toNat) →
    after.entries[slot]? = some constant
  strings : ∀ (slot : Nat) (text : Index) (bytes : Bytes),
    before.entries[slot]? = some (.stringRef text) → before.get text = .ok (.utf8 bytes) →
    ∃ copy, after.entries[slot]? = some (.stringRef copy) ∧ after.get copy = .ok (.utf8 bytes)

namespace Renaming

open TypeUse

theorem mem_literalTexts_iff {pool : Pool} {index : Index} :
    index ∈ literalTexts pool ↔ .stringRef index ∈ pool.entries := by
  rw [literalTexts, Std.ExtTreeSet.mem_ofList, List.contains_iff_mem, List.mem_filterMap]
  constructor
  · rintro ⟨constant, hconstant, h⟩
    cases constant with
    | stringRef text =>
        cases h
        exact Array.mem_toList_iff.1 hconstant
    | _ => cases h
  · intro h
    exact ⟨_, Array.mem_toList_iff.2 h, rfl⟩

/-- One text of a pool may change. If it is one of the literals, the string constants that it was
the text of hold a copy of it, which is new. -/
structure Touches (literals : Index → Prop) (index : Index) (before after : Pool) : Prop where
  size_le : before.size ≤ after.size
  text : ∃ bytes, after.get index = .ok (.utf8 bytes)
  added : ∀ (slot : Nat) (constant : Constant), before.size ≤ slot →
    after.entries[slot]? = some constant → before.get index = .ok constant
  kept : ∀ (slot : Nat) (constant : Constant), before.entries[slot]? = some constant →
    slot ≠ index.toNat → constant ≠ .stringRef index → after.entries[slot]? = some constant
  strings : ∀ slot : Nat, before.entries[slot]? = some (.stringRef index) → literals index →
    ∃ copy, after.entries[slot]? = some (.stringRef copy) ∧ after.get copy = before.get index ∧
      (copy = index ∨ before.size ≤ copy.toNat)

section Steps

variable {names : Renaming} {literals : Index → Prop} {before split after : Pool}
variable {index : Index} {role : TypeRole}

theorem touches_refl {bytes : Bytes} (hget : before.get index = .ok (.utf8 bytes)) :
    Touches literals index before before := by
  refine ⟨le_rfl, ⟨bytes, hget⟩, ?_, fun _ _ h _ _ => h, ?_⟩
  · intro slot constant hsize hslot
    exact absurd hslot (not_getElem?_of_size_le hsize)
  · intro slot hslot _
    exact ⟨index, hslot, rfl, Or.inl rfl⟩

theorem lt_size_of_get {pool : Pool} {constant : Constant} (h : pool.get index = .ok constant) :
    index.toNat < pool.size :=
  (Array.getElem?_eq_some_iff.1 (Pool.get_eq_ok_iff.1 h)).1

theorem get_of_set {pool : Pool} {constant : Constant} (h : pool.set index constant = .ok after) :
    after.get index = .ok constant := by
  obtain ⟨hlt, hentries⟩ := set_eq_ok h
  rw [Pool.get_eq_ok_iff, hentries, Array.getElem?_setIfInBounds_self, if_pos hlt]

theorem touches_of_set {bytes : Bytes} (hset : before.set index (.utf8 bytes) = .ok after)
    (hliterals : ¬literals index) : Touches literals index before after := by
  obtain ⟨-, hentries⟩ := set_eq_ok hset
  have hsize : after.size = before.size := by
    rw [Pool.size, hentries, Array.size_setIfInBounds]
    rfl
  refine ⟨hsize.ge, ⟨bytes, get_of_set hset⟩, ?_, ?_, fun _ _ h => absurd h hliterals⟩
  · intro slot constant hle hslot
    exact absurd hslot (not_getElem?_of_size_le (hsize.le.trans hle))
  · intro slot constant hslot hne _
    rw [hentries, Array.getElem?_setIfInBounds_ne (Ne.symm hne), hslot]

/-- The copy is a new entry, and the string constants that held `index` hold it. -/
theorem touches_of_split {bytes renamed : Bytes}
    (hget : before.get index = .ok (.utf8 bytes))
    (hsplit : (splitLiteral index (.utf8 bytes)).complete before = .ok ((), split))
    (hset : split.set index (.utf8 renamed) = .ok after) : Touches literals index before after := by
  obtain ⟨copy, grown, hpush, hmoved⟩ := splitLiteral_eq_ok hsplit
  obtain ⟨-, hentries⟩ := set_eq_ok hset
  obtain ⟨hcopy, hgrown⟩ := push_text_eq_ok hpush
  obtain ⟨hgains, hnew⟩ : Pool.Gains (fun _ => False) (fun _ => False) before grown ∧ _ :=
    Pool.gains_push hpush trivial
  have hold := hgains.extends
  have hindex := Pool.get_eq_ok_iff.1 hget
  have hlt := lt_size_of_get hget
  have hsize : after.size = before.size + 1 := by
    rw [Pool.size, hentries, Array.size_setIfInBounds, hmoved, Array.size_map, hgrown,
      Array.size_push]
    rfl
  have hslot : ∀ {slot : Nat}, slot ≠ index.toNat →
      after.entries[slot]? = grown.entries[slot]?.map (repointed index copy) := by
    intro slot hne
    rw [hentries, Array.getElem?_setIfInBounds_ne (Ne.symm hne), hmoved, Array.getElem?_map]
  have hcopied : after.entries[copy.toNat]? = some (.utf8 bytes) := by
    rw [hslot (by omega), Pool.get_eq_ok_iff.1 hnew]
    rfl
  refine ⟨by omega, ⟨renamed, get_of_set hset⟩, ?_, ?_, ?_⟩
  · intro slot constant hle hafter
    have hbound : slot < after.size := (Array.getElem?_eq_some_iff.1 hafter).1
    obtain rfl : slot = copy.toNat := by omega
    rw [hget, ← Option.some.inj (hcopied.symm.trans hafter)]
  · intro slot constant hbefore hne hstring
    rw [hslot hne, hold slot constant hbefore, Option.map_some, repointed_of_ne hstring]
  · intro slot hbefore _
    have hne : slot ≠ index.toNat := by
      rintro rfl
      rw [hindex] at hbefore
      cases hbefore
    refine ⟨copy, ?_, ?_, Or.inr hcopy.ge⟩
    · rw [hslot hne, hold slot _ hbefore, Option.map_some, repointed, if_pos rfl]
    · rw [hget, Pool.get_eq_ok_iff, hcopied]

theorem touches_of_renameEntry {literals : Std.ExtTreeSet Index} {changed : Bool}
    (h : names.renameEntry literals before index role = .ok (after, changed)) :
    Touches (· ∈ literals) index before after := by
  obtain ⟨text, htext, ⟨-, -, rfl⟩ | ⟨renamed, split, -, -, hsplit, hset⟩⟩ := renameEntry_eq_ok h
  · exact touches_refl (Pool.text_eq_ok_iff.1 htext)
  · rcases hsplit with ⟨-, hcopy⟩ | ⟨hliteral, rfl⟩
    · exact touches_of_split (Pool.text_eq_ok_iff.1 htext) hcopy hset
    · exact touches_of_set hset hliteral

/-- Any other text is the same before and after. -/
theorem Touches.get_utf8 (h : Touches literals index before after) {other : Index} {bytes : Bytes}
    (hne : other ≠ index) (hget : before.get other = .ok (.utf8 bytes)) :
    after.get other = .ok (.utf8 bytes) := by
  rw [Pool.get_eq_ok_iff] at hget ⊢
  exact h.kept _ _ hget (fun hslot => hne (UInt16.toNat_inj.1 hslot)) (by simp)

end Steps

section Runs

variable {names : Renaming} {literals : Index → Prop} {before middle after : Pool}
variable {index : Index} {uses : List Index}

theorem Touches.confined (h : Touches literals index before middle)
    (hrest : Pool.Confined (· ∈ uses) middle after) (hnew : index ∉ uses)
    (htexts : ∀ other ∈ index :: uses, ∃ bytes, before.get other = .ok (.utf8 bytes))
    (hliteral : .stringRef index ∈ before.entries → literals index) :
    Pool.Confined (· ∈ index :: uses) before after := by
  have hlater : ∀ other ∈ uses, other ≠ index ∧ other.toNat < before.size := by
    intro other hother
    obtain ⟨bytes, hbytes⟩ := htexts other (List.mem_cons_of_mem _ hother)
    exact ⟨fun heq => hnew (heq ▸ hother), lt_size_of_get hbytes⟩
  obtain ⟨content, hcontent⟩ := htexts index List.mem_cons_self
  refine ⟨h.size_le.trans hrest.size_le, ?_, ?_, ?_⟩
  · intro slot constant hsize hslot
    by_cases hmiddle : middle.size ≤ slot
    · obtain ⟨other, bytes, hother, hget, hconstant⟩ := hrest.added slot constant hmiddle hslot
      obtain ⟨old, hold⟩ := htexts other (List.mem_cons_of_mem _ hother)
      have hsame := h.get_utf8 (hlater other hother).1 hold
      rw [hsame] at hget
      exact ⟨other, bytes, List.mem_cons_of_mem _ hother, hold.trans hget, hconstant⟩
    · -- A copy of this step: the run comes to no entry that was not there before.
      obtain ⟨copied, hcopied⟩ : ∃ copied, middle.entries[slot]? = some copied :=
        ⟨_, Array.getElem?_eq_getElem (Nat.lt_of_not_le hmiddle)⟩
      have hget := h.added slot copied hsize hcopied
      obtain rfl : Constant.utf8 content = copied := Except.ok.inj (hcontent.symm.trans hget)
      have hstays := hrest.kept slot _ hcopied (by simp) fun other _ hother _ heq =>
        absurd (hlater other hother).2 (Nat.not_lt.2 (heq ▸ hsize))
      exact ⟨index, content, List.mem_cons_self, hget,
        (Option.some.inj (hstays.symm.trans hslot)).symm⟩
  · intro slot constant hslot hstring hlisted
    have hne : slot ≠ index.toNat := by
      rintro rfl
      have hutf8 := Option.some.inj (hslot.symm.trans (Pool.get_eq_ok_iff.1 hcontent))
      exact hlisted index content List.mem_cons_self hutf8 rfl
    refine hrest.kept slot constant (h.kept slot constant hslot hne (hstring index)) hstring ?_
    exact fun other bytes hother => hlisted other bytes (List.mem_cons_of_mem _ hother)
  · intro slot text bytes hslot hget
    by_cases htext : text = index
    · subst htext
      obtain ⟨copy, hcopy, hsame, -⟩ :=
        h.strings slot hslot (hliteral (Array.mem_of_getElem? hslot))
      exact hrest.strings slot copy bytes hcopy (hsame.trans hget)
    · have hne : slot ≠ index.toNat := by
        rintro rfl
        rw [Pool.get_eq_ok_iff.1 hcontent] at hslot
        cases hslot
      have hkept := h.kept slot _ hslot hne (by simp [htext])
      exact hrest.strings slot text bytes hkept (h.get_utf8 htext hget)

/-- A string constant whose text is yet to come is an old one. -/
theorem Touches.stringRef_mem (h : Touches literals index before middle)
    (hcontent : ∃ bytes, before.get index = .ok (.utf8 bytes)) {other : Index}
    (hne : other ≠ index) (hlt : other.toNat < before.size)
    (hliteral : .stringRef index ∈ before.entries → literals index)
    (hmem : .stringRef other ∈ middle.entries) : .stringRef other ∈ before.entries := by
  obtain ⟨bytes, hbytes⟩ := hcontent
  obtain ⟨slot, hslot⟩ := Array.mem_iff_getElem?.1 hmem
  by_cases hsize : before.size ≤ slot
  · rw [h.added slot _ hsize hslot] at hbytes
    cases hbytes
  · obtain ⟨old, hold⟩ : ∃ old, before.entries[slot]? = some old :=
      ⟨_, Array.getElem?_eq_getElem (Nat.lt_of_not_le hsize)⟩
    by_cases hstring : old = .stringRef index
    · subst hstring
      obtain ⟨copy, hcopy, -, hfresh⟩ :=
        h.strings slot hold (hliteral (Array.mem_of_getElem? hold))
      rw [hcopy] at hslot
      cases hslot
      rcases hfresh with heq | hle
      · exact absurd heq hne
      · exact absurd hlt (Nat.not_lt.2 hle)
    · by_cases hself : slot = index.toNat
      · subst hself
        obtain ⟨renamed, hrenamed⟩ := h.text
        rw [Pool.get_eq_ok_iff.1 hrenamed] at hslot
        cases hslot
      · rw [h.kept slot old hold hself hstring] at hslot
        cases hslot
        exact Array.mem_of_getElem? hold

theorem confined_nil (pool : Pool) {listed : Index → Prop} : Pool.Confined listed pool pool := by
  refine ⟨le_rfl, ?_, fun _ _ h _ _ => h, fun _ text _ h hget => ⟨text, h, hget⟩⟩
  intro slot constant hsize hslot
  exact absurd hslot (not_getElem?_of_size_le hsize)

theorem confined_of_renameEntries {uses : List (Index × TypeRole)}
    {literals : Std.ExtTreeSet Index} {changed result : Bool}
    (h : names.renameEntries literals uses before changed = .ok (after, result))
    (hdistinct : (uses.map Prod.fst).Nodup)
    (htexts : ∀ index ∈ uses.map Prod.fst, ∃ bytes, before.get index = .ok (.utf8 bytes))
    (hliterals : ∀ index ∈ uses.map Prod.fst, .stringRef index ∈ before.entries →
      index ∈ literals) :
    Pool.Confined (· ∈ uses.map Prod.fst) before after := by
  -- The literals were found before the run. They are right for the entries that are still to come:
  -- a step points string constants at entries that were not there, and the run comes to none.
  induction uses generalizing before changed with
  | nil =>
      cases h
      exact confined_nil _
  | cons use uses ih =>
      obtain ⟨middle, renamed, hentry, hrest⟩ := renameEntries_cons_eq_ok h
      rw [List.map_cons] at hdistinct htexts hliterals
      obtain ⟨hnew, hdistinct⟩ := List.nodup_cons.1 hdistinct
      have htouches := touches_of_renameEntry hentry
      have hliteral := hliterals use.1 List.mem_cons_self
      have hlater : ∀ other ∈ uses.map Prod.fst, other ≠ use.1 ∧
          ∃ bytes, before.get other = .ok (.utf8 bytes) :=
        fun other hother => ⟨fun heq => hnew (heq ▸ hother),
          htexts other (List.mem_cons_of_mem _ hother)⟩
      refine htouches.confined (ih hrest hdistinct ?_ ?_) hnew htexts hliteral
      · intro other hother
        obtain ⟨hne, bytes, hbytes⟩ := hlater other hother
        exact ⟨bytes, htouches.get_utf8 hne hbytes⟩
      · intro other hother hmem
        obtain ⟨hne, bytes, hbytes⟩ := hlater other hother
        exact hliterals other (List.mem_cons_of_mem _ hother) (htouches.stringRef_mem
          (htexts use.1 List.mem_cons_self) hne (lt_size_of_get hbytes) hliteral hmem)

end Runs

theorem confined_of_known {names : Renaming} {before after : ClassFile} {references : References}
    {uses : List TypeUse} {table : Roles} {changed : Bool}
    (hknown : References.Known before references uses) (htable : roles before = .ok table)
    (happly : names.apply before = .ok (after, changed)) :
    Pool.Confined (· ∈ table) before.pool after.pool := by
  obtain ⟨-, ⟨-, hsame⟩ | ⟨other, hother, hrun⟩⟩ := entries_of_apply happly
  · rw [hsame]
    exact confined_nil before.pool
  · obtain rfl : table = other := Except.ok.inj (htable.symm.trans hother)
    have hlisted : ∀ index, index ∈ table.toList.map Prod.fst ↔ index ∈ table := by
      intro index
      rw [Std.ExtTreeMap.map_fst_toList_eq_keys, Std.ExtTreeMap.mem_keys]
    simp only [← hlisted]
    refine confined_of_renameEntries hrun (nodup_keys table) ?_ fun index _ hmem =>
      mem_literalTexts_iff.2 hmem
    intro index hindex
    obtain ⟨⟨_, role⟩, hentry, rfl⟩ := List.mem_map.1 hindex
    have hfirst := (mem_roles_iff htable hknown.all).1 hentry
    obtain ⟨text, htext⟩ := hknown.exists_text hfirst.mem
    exact ⟨_, Pool.text_eq_ok_iff.1 htext⟩

/-- Renaming changes no part of a class but its pool, and there only texts that are used as types.
Its string constants say what they said. -/
theorem confined_of_apply {names : Renaming} {before after : ClassFile} {references : References}
    {changed : Bool} (hreferences : References.ofClass before = .ok references)
    (happly : names.apply before = .ok (after, changed)) :
    ∃ table, roles before = .ok table ∧ after = { before with pool := after.pool } ∧
      Pool.Confined (· ∈ table) before.pool after.pool := by
  obtain ⟨uses, hknown⟩ := References.known_of_ofClass hreferences
  obtain ⟨table, htable⟩ := hknown.exists_roles
  exact ⟨table, htable, (apply_eq_ok happly).1, confined_of_known hknown htable happly⟩

/-- A class `A` with two string constants that say so. -/
def classSayingA : ClassFile :=
  { minor := 0, major := 52
    pool := ⟨#[.unusable, .utf8 (Utf8.encode "A"), .classRef 1, .stringRef 1, .stringRef 1]⟩
    flags := 0x21, thisClass := 2, superClass := 0
    interfaces := [], fields := [], methods := [], attributes := [] }

/-- The same class under the name `B`. -/
def classSayingARenamed : ClassFile :=
  { classSayingA with
    pool := ⟨#[.unusable, .utf8 (Utf8.encode "B"), .classRef 1, .stringRef 5, .stringRef 5,
      .utf8 (Utf8.encode "A")]⟩ }

theorem confined_of_apply_classSayingA :
    (ofPairs [("A", "B")]).apply classSayingA = .ok (classSayingARenamed, true) ∧
      ∃ table, roles classSayingA = .ok table ∧
        Pool.Confined (· ∈ table) classSayingA.pool classSayingARenamed.pool := by
  have happly : (ofPairs [("A", "B")]).apply classSayingA = .ok (classSayingARenamed, true) := by
    cbv
  have hok : (References.ofClass classSayingA).toBool = true := by cbv
  obtain ⟨references, hreferences⟩ := Except.exists_eq_ok hok
  obtain ⟨table, htable, -, hconfined⟩ := confined_of_apply hreferences happly
  exact ⟨happly, table, htable, hconfined⟩

end Renaming

end JarTailor
