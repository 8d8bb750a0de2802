import JarTailor.Proofs.Edit.Renaming
import JarTailor.Proofs.TypeUse.Role
import JarTailor.Proofs.TypeUse.Uses

/-!
# What a renamed class names

As long as attributes keep their names, a renamed class uses the same texts in the same roles, and
each of them names the renamed classes.
-/

namespace JarTailor.Renaming

open TypeUse

section Texts

variable {names : Renaming} {index : Index} {role : TypeRole} {before after : Pool}

/-- An entry that is not renamed keeps its text. -/
theorem Renames.text_of_ne (h : names.Renames index role before after) {other : Index}
    (hne : other ≠ index) {text : String} (htext : before.text other = .ok text) :
    after.text other = .ok text := by
  rw [Pool.text_eq_ok_iff, Pool.get_eq_ok_iff] at htext ⊢
  have hslot : other.toNat ≠ index.toNat := fun hsame => hne (UInt16.toNat_inj.1 hsame)
  rcases h.others _ _ hslot htext with hsame | ⟨_, _, hstring, -⟩
  · exact hsame
  · cases hstring

/-- A text is renamed by the one step of a run that is about it, from what it was at the start. -/
theorem RenamesAll.text {uses : List (Index × TypeRole)} (h : names.RenamesAll uses before after)
    (hdistinct : (uses.map Prod.fst).Nodup) {text : String} (htext : before.text index = .ok text) :
    (index ∉ uses.map Prod.fst → after.text index = .ok text) ∧
      ∀ role, (index, role) ∈ uses → ∃ mapped, names.mapText role text = .ok mapped ∧
        after.text index = .ok (mapped.getD text) := by
  induction h generalizing text with
  | nil => exact ⟨fun _ => htext, fun _ h => by cases h⟩
  | @cons first firstRole uses before middle after hfirst hrest ih =>
      rw [List.map_cons, List.nodup_cons] at hdistinct
      obtain ⟨hnew, hdistinct⟩ := hdistinct
      constructor
      · intro hother
        rw [List.map_cons, List.mem_cons, not_or] at hother
        exact (ih hdistinct (hfirst.text_of_ne hother.1 htext)).1 hother.2
      · intro otherRole hother
        rcases List.mem_cons.1 hother with heq | hother
        · cases heq
          obtain ⟨old, mapped, hold, hmapped, hmiddle⟩ := hfirst.text
          obtain rfl := Except.ok.inj (hold.symm.trans htext)
          exact ⟨mapped, hmapped, (ih hdistinct hmiddle).1 hnew⟩
        · have hkey : index ∈ uses.map Prod.fst := List.mem_map.2 ⟨_, hother, rfl⟩
          have hne : index ≠ first := fun heq => hnew (heq ▸ hkey)
          exact (ih hdistinct (hfirst.text_of_ne hne htext)).2 otherRole hother

theorem filterMap_congr_getElem? {α β : Type} {f : α → Option β} {first second : List α}
    (h : ∀ slot : Nat, second[slot]?.bind f = first[slot]?.bind f) :
    second.filterMap f = first.filterMap f := by
  induction first generalizing second with
  | nil =>
      rw [List.filterMap_nil, List.filterMap_eq_nil_iff]
      intro value hvalue
      obtain ⟨slot, hslot⟩ := List.mem_iff_getElem?.1 hvalue
      have hnone := h slot
      rwa [hslot, Option.bind_some, List.getElem?_nil, Option.bind_none] at hnone
  | cons value values ih =>
      cases second with
      | nil =>
          rw [List.filterMap_nil, eq_comm, List.filterMap_eq_nil_iff]
          intro other hother
          obtain ⟨slot, hslot⟩ := List.mem_iff_getElem?.1 hother
          have hnone := h slot
          rwa [hslot, Option.bind_some, List.getElem?_nil, Option.bind_none, eq_comm] at hnone
      | cons other others =>
          have hhead : f other = f value := h 0
          rw [List.filterMap_cons, List.filterMap_cons, hhead, ih fun slot => h (slot + 1)]

/-- Whatever does not depend on texts and string constants finds the same entries. -/
theorem Renames.filterMap_entries {β : Type} {f : Constant → Option β}
    (htext : ∀ bytes, f (.utf8 bytes) = none) (hstring : ∀ text, f (.stringRef text) = none)
    (h : names.Renames index role before after) :
    after.entries.toList.filterMap f = before.entries.toList.filterMap f := by
  refine filterMap_congr_getElem? fun slot => Option.ext fun value => ?_
  rw [Array.getElem?_toList, Array.getElem?_toList, Option.bind_eq_some_iff,
    Option.bind_eq_some_iff]
  refine exists_congr fun constant => and_congr_left fun hvalue => ?_
  refine h.getElem?_eq_some_iff ?_ ?_
  · rintro bytes rfl
    rw [htext] at hvalue
    cases hvalue
  · rintro text rfl
    rw [hstring] at hvalue
    cases hvalue

theorem RenamesAll.entries {uses : List (Index × TypeRole)}
    (h : names.RenamesAll uses before after) :
    ofClassEntries after = ofClassEntries before ∧
      ofDescriptorEntries after = ofDescriptorEntries before := by
  induction h with
  | nil => exact ⟨rfl, rfl⟩
  | cons hfirst _ ih =>
      rw [ih.1, ih.2]
      exact ⟨hfirst.filterMap_entries (fun _ => rfl) fun _ => rfl,
        hfirst.filterMap_entries (fun _ => rfl) fun _ => rfl⟩

end Texts

/-- An attribute of a class or of one of its members, or an attribute inside such an attribute. -/
def Held (classFile : ClassFile) (entry : Attribute) : Prop :=
  ∃ outer, (outer ∈ classFile.attributes ∨
      ∃ member ∈ classFile.fields ++ classFile.methods, outer ∈ member.attributes) ∧
    Meets classFile.pool (.inAttribute outer) (.inAttribute entry)

/-- The attributes of a class have the same names in another pool. -/
def KeepsAttributeNames (before after : ClassFile) : Prop :=
  ∀ entry, Held before entry → after.pool.text entry.name = before.pool.text entry.name

/-- Of attributes that hold no others only the names at hand count. -/
theorem keepsAttributeNames_of_flat {before after : ClassFile}
    (hmembers : before.fields ++ before.methods = [])
    (hflat : ∀ entry ∈ before.attributes, ∃ uses,
      step before.pool (.inAttribute entry) = .ok (uses, []))
    (hnames : ∀ entry ∈ before.attributes,
      after.pool.text entry.name = before.pool.text entry.name) :
    KeepsAttributeNames before after := by
  rintro entry ⟨outer, houter | ⟨member, hmember, -⟩, hmet⟩
  · obtain ⟨uses, huses⟩ := hflat outer houter
    cases hmet with
    | self => exact hnames _ houter
    | inside hstep hinner _ =>
        rw [huses] at hstep
        cases hstep
        cases hinner
  · rw [hmembers] at hmember
    cases hmember

section Uses

variable {names : Renaming} {before after : ClassFile} {uses : List TypeUse}

theorem all_eq_of_keepsAttributeNames
    (hothers : after = { before with pool := after.pool })
    (hentries : ofClassEntries after.pool = ofClassEntries before.pool ∧
      ofDescriptorEntries after.pool = ofDescriptorEntries before.pool)
    (hkeeps : KeepsAttributeNames before after) : all after = all before := by
  have hclass : ofAttributes after.pool before.attributes =
      ofAttributes before.pool before.attributes :=
    ofAttributes_congr fun outer houter entry hmet =>
      hkeeps entry ⟨outer, Or.inl houter, hmet⟩
  have hmembers : (before.fields ++ before.methods).mapM (ofMember after.pool) =
      (before.fields ++ before.methods).mapM (ofMember before.pool) :=
    Except.mapM_congr fun member hmember => ofMember_congr fun outer houter entry hmet =>
      hkeeps entry ⟨outer, Or.inr ⟨member, hmember, houter⟩, hmet⟩
  rw [hothers]
  simp only [all, hclass, hmembers, hentries.1, hentries.2]

/-- The texts that are used can be read, those of class entries as names of classes. -/
def Readable (classFile : ClassFile) (uses : List TypeUse) : Prop :=
  ∀ use, First uses use → ∃ text, classFile.pool.text use.index = .ok text ∧
    (use.role = .className → InClassEntry text)

theorem Readable.exists_text {classFile : ClassFile} (h : Readable classFile uses) {use : TypeUse}
    (huse : First uses use) : ∃ text, classFile.pool.text use.index = .ok text :=
  (h use huse).imp fun _ hread => hread.1

theorem rename_of_isEmpty (h : names.isEmpty = true) (name : String) :
    names.rename name = name := by
  have hempty : names.table = ∅ := Std.ExtTreeMap.isEmpty_iff.1 h
  have hlist : (∅ : Std.ExtTreeMap String String).toList = [] :=
    Std.ExtTreeMap.toList_eq_nil_iff.2 rfl
  rw [rename, mapClass, hempty, Std.ExtTreeMap.getElem?_empty, hlist]
  rfl

theorem nodup_keys (table : Roles) : (table.toList.map Prod.fst).Nodup := by
  rw [Std.ExtTreeMap.map_fst_toList_eq_keys]
  exact Std.ExtTreeMap.nodup_keys

/-- A text is renamed in a role. -/
def Rewrites (names : Renaming) (role : TypeRole) (index : Index) (before after : Pool) : Prop :=
  ∃ text mapped, before.text index = .ok text ∧ names.mapText role text = .ok mapped ∧
    after.text index = .ok (mapped.getD text)

/-- A text that is used is renamed in the role in which it is used first. -/
theorem rewrites_of_run {table : Roles} (htable : roles before = .ok table)
    (huses : all before = .ok uses) (hrun : names.RenamesAll table.toList before.pool after.pool)
    (htexts : ∀ use, First uses use → ∃ text, before.pool.text use.index = .ok text)
    {use : TypeUse} (huse : First uses use) :
    names.Rewrites use.role use.index before.pool after.pool := by
  have hmem : ∀ {index : Index} {role : TypeRole},
      (index, role) ∈ table.toList ↔ First uses ⟨index, role⟩ := mem_roles_iff htable huses
  obtain ⟨text, htext⟩ := htexts use huse
  obtain ⟨mapped, hmapped, hafter⟩ := (hrun.text (nodup_keys table) htext).2 use.role (hmem.2 huse)
  exact ⟨text, mapped, htext, hmapped, hafter⟩

/-- When the references of a class are known, each text it uses is renamed in the role in which it
is used first. -/
theorem rewrites_of_apply {references : References} {changed : Bool}
    (hbefore : References.Known before references uses)
    (happly : names.apply before = .ok (after, changed)) {use : TypeUse} (huse : First uses use) :
    names.Rewrites use.role use.index before.pool after.pool := by
  obtain ⟨hothers, ⟨hempty, hpool⟩ | ⟨table, htable, hrun⟩⟩ := apply_eq_ok happly
  · obtain ⟨found, hfound⟩ := hbefore.texts use huse
    obtain ⟨text, htext, hnames⟩ := References.ofText_eq_ok_iff.1 hfound
    obtain ⟨mapped, hmapped⟩ : ∃ mapped, names.mapText use.role text = .ok mapped :=
      exists_mapText hnames
    have hsame : mapped.getD text = text :=
      getD_mapText_of_rename_eq (funext (rename_of_isEmpty hempty)) hmapped
    exact ⟨text, mapped, htext, hmapped, by rw [hpool, hsame, htext]⟩
  · exact rewrites_of_run htable hbefore.all hrun (fun _ h => hbefore.exists_text h.mem) huse

/-- As long as attributes keep their names, a renamed class uses the same texts. -/
theorem all_of_apply {changed : Bool} (happly : names.apply before = .ok (after, changed))
    (hkeeps : KeepsAttributeNames before after) : all after = all before := by
  obtain ⟨hothers, ⟨-, hpool⟩ | ⟨table, -, hrun⟩⟩ := apply_eq_ok happly
  · rw [hothers, hpool]
  · exact all_eq_of_keepsAttributeNames hothers hrun.entries hkeeps

theorem roles_of_apply {changed : Bool} (happly : names.apply before = .ok (after, changed))
    (hkeeps : KeepsAttributeNames before after) : roles after = roles before := by
  rw [roles, all_of_apply happly hkeeps, ← roles]

/-- A renamed class uses the texts of the class, and each of them names the renamed classes. -/
theorem ofText_of_apply {references : References} {changed : Bool} (hlegal : names.Legal)
    (happly : names.apply before = .ok (after, changed))
    (hafter : References.Known after references uses)
    (hkeeps : KeepsAttributeNames before after)
    (hread : ∀ uses, all before = .ok uses → Readable before uses) :
    all before = .ok uses ∧ ∀ use, First uses use → ∃ found,
      References.ofText before.pool use.index use.role = .ok found ∧
        References.ofText after.pool use.index use.role = .ok (found.map names.rename) := by
  obtain ⟨hothers, ⟨hempty, hpool⟩ | ⟨table, htable, hrun⟩⟩ := apply_eq_ok happly
  · obtain rfl : after = before := by rw [hothers, hpool]
    refine ⟨hafter.all, fun use huse => ?_⟩
    obtain ⟨found, hfound⟩ := hafter.texts use huse
    have hsame : found.map names.rename = found :=
      (List.map_congr_left fun name _ => rename_of_isEmpty hempty name).trans (List.map_id _)
    exact ⟨found, hfound, hsame.symm ▸ hfound⟩
  · have hall : all before = .ok uses := by
      rw [← all_eq_of_keepsAttributeNames hothers hrun.entries hkeeps, hafter.all]
    refine ⟨hall, fun use huse => ?_⟩
    obtain ⟨text, mapped, htext, hmapped, hnew⟩ :=
      rewrites_of_run htable hall hrun (fun _ => (hread uses hall).exists_text) huse
    obtain ⟨found, hfound, hrenamed⟩ := classNames_mapText hlegal hmapped
    exact ⟨found, References.ofText_eq_ok_iff.2 ⟨text, htext, hfound⟩,
      References.ofText_eq_ok_iff.2 ⟨_, hnew, hrenamed⟩⟩

/-- A renamed class has the new name of the class, unless that is one for arrays of classes. -/
theorem name_of_apply {name : String} {changed : Bool} (hadmissible : names.Admissible)
    (happly : names.apply before = .ok (after, changed)) (hname : before.name = .ok name)
    (hsemicolon : name.toList.head? = some '[' → ';' ∉ name.toList)
    (htexts : ∀ uses, all before = .ok uses →
      ∀ use, First uses use → ∃ text, before.pool.text use.index = .ok text) :
    after.name = .ok (names.rename name) := by
  obtain ⟨hothers, ⟨hempty, hpool⟩ | ⟨table, htable, hrun⟩⟩ := apply_eq_ok happly
  · obtain rfl : after = before := by rw [hothers, hpool]
    rw [rename_of_isEmpty hempty, hname]
  · obtain ⟨uses, huses, -⟩ := Except.bind_eq_ok_iff.1 htable
    obtain ⟨text, hget, htext⟩ := Pool.className_eq_ok_iff.1 hname
    have hfirst : First uses ⟨text, .className⟩ :=
      first_of_classRef huses (Array.mem_of_getElem? (Pool.get_eq_ok_iff.1 hget))
    obtain ⟨old, mapped, hold, hmapped, hnew⟩ :=
      rewrites_of_run htable huses hrun (htexts uses huses) hfirst
    obtain rfl : old = name := Except.ok.inj (hold.symm.trans htext)
    have hthis : after.pool.get before.thisClass = .ok (.classRef text) :=
      hrun.get (by simp) (by simp) hget
    have hsame : after.thisClass = before.thisClass := by rw [hothers]
    rw [ClassFile.name, hsame]
    refine Pool.className_eq_ok_iff.2 ⟨text, hthis, ?_⟩
    rw [hnew, getD_mapText_className hadmissible hsemicolon hmapped]

/-- The same of a class that is not named like an array, whatever else it holds. -/
theorem name_of_apply_of_head?_ne {name : String} {changed : Bool}
    (happly : names.apply before = .ok (after, changed)) (hname : before.name = .ok name)
    (harray : name.toList.head? ≠ some '[') : after.name = .ok (names.rename name) := by
  obtain ⟨hothers, ⟨hempty, hpool⟩ | ⟨table, htable, hrun⟩⟩ := apply_eq_ok happly
  · obtain rfl : after = before := by rw [hothers, hpool]
    rw [rename_of_isEmpty hempty, hname]
  · obtain ⟨uses, huses, -⟩ := Except.bind_eq_ok_iff.1 htable
    obtain ⟨index, hget, htext⟩ := Pool.className_eq_ok_iff.1 hname
    have hfirst : First uses ⟨index, .className⟩ :=
      first_of_classRef huses (Array.mem_of_getElem? (Pool.get_eq_ok_iff.1 hget))
    have hmem : (index, TypeRole.className) ∈ table.toList := (mem_roles_iff htable huses).2 hfirst
    obtain ⟨mapped, hmapped, hnew⟩ := (hrun.text (nodup_keys table) htext).2 _ hmem
    obtain rfl := Except.ok.inj ((mapText_className harray).symm.trans hmapped)
    have hthis : after.pool.get before.thisClass = .ok (.classRef index) :=
      hrun.get (by simp) (by simp) hget
    have hsame : after.thisClass = before.thisClass := by rw [hothers]
    rw [ClassFile.name, hsame]
    exact Pool.className_eq_ok_iff.2 ⟨index, hthis, hnew⟩

end Uses

end JarTailor.Renaming
