import JarTailor.Proofs.ClassFile.Layout

/-!
# Pools that grow

An edit only appends to a pool. `Pool.Gains` says what it may append, and that whatever could be
looked up before still can be.
-/

namespace JarTailor

namespace Pool

/-- Every slot of the first pool holds the same in the second. -/
def Extends (before after : Pool) : Prop :=
  ∀ (slot : Nat) (constant : Constant), before.entries[slot]? = some constant →
    after.entries[slot]? = some constant

section Lookups

variable {before after : Pool} {index : Index}

theorem Extends.refl (pool : Pool) : Extends pool pool :=
  fun _ _ h => h

theorem Extends.trans {middle : Pool} (h : Extends before middle) (h' : Extends middle after) :
    Extends before after :=
  fun slot constant hslot => h' slot constant (h slot constant hslot)

theorem get_eq_ok_iff {pool : Pool} {constant : Constant} :
    pool.get index = .ok constant ↔ pool.entries[index.toNat]? = some constant := by
  unfold get
  cases pool.entries[index.toNat]? with
  | none => simp
  | some found => simp [pure, Except.pure]

theorem text_eq_ok_iff {pool : Pool} {text : String} :
    pool.text index = .ok text ↔ pool.get index = .ok (.utf8 (Utf8.encode text)) := by
  rw [Pool.text, Except.bind_eq_ok_iff]
  constructor
  · rintro ⟨constant, hget, h⟩
    cases constant with
    | utf8 bytes =>
        cases hdecode : Utf8.decode bytes with
        | error fault => simp [hdecode] at h
        | ok found =>
            simp only [hdecode, pure, Except.pure, Except.ok.injEq] at h
            rw [hget, ← h, Utf8.decode_eq_ok_iff.1 hdecode]
    | _ => cases h
  · intro hget
    refine ⟨_, hget, ?_⟩
    simp only [Utf8.decode_encode, pure, Except.pure]

theorem isText_iff {pool : Pool} {text : String} :
    pool.isText index text = true ↔ pool.text index = .ok text := by
  rw [isText]
  cases pool.text index with
  | error failure => simp
  | ok found => simp

theorem className_eq_ok_iff {pool : Pool} {name : String} :
    pool.className index = .ok name ↔
      ∃ text, pool.get index = .ok (.classRef text) ∧ pool.text text = .ok name := by
  rw [Pool.className, Except.bind_eq_ok_iff]
  constructor
  · rintro ⟨constant, hget, h⟩
    cases constant with
    | classRef text => exact ⟨text, hget, h⟩
    | _ => cases h
  · rintro ⟨text, hget, h⟩
    exact ⟨_, hget, h⟩

theorem nameAndType_eq_ok_iff {pool : Pool} {name descriptor : String} :
    pool.nameAndType index = .ok (name, descriptor) ↔
      ∃ first second, pool.get index = .ok (.nameAndType first second) ∧
        pool.text first = .ok name ∧ pool.text second = .ok descriptor := by
  rw [Pool.nameAndType, Except.bind_eq_ok_iff]
  constructor
  · rintro ⟨constant, hget, h⟩
    cases constant with
    | nameAndType first second =>
        obtain ⟨_, hfirst, h⟩ := Except.bind_eq_ok_iff.1 h
        obtain ⟨_, hsecond, h⟩ := Except.bind_eq_ok_iff.1 h
        cases h
        exact ⟨first, second, hget, hfirst, hsecond⟩
    | _ => cases h
  · rintro ⟨first, second, hget, hfirst, hsecond⟩
    refine ⟨_, hget, Except.bind_eq_ok_iff.2 ⟨name, hfirst, ?_⟩⟩
    exact Except.bind_eq_ok_iff.2 ⟨descriptor, hsecond, rfl⟩

theorem resolveMember_eq_ok_iff {pool : Pool} {owner member : Index} {isInterface : Bool}
    {found : MemberRef} :
    pool.resolveMember isInterface owner member = .ok found ↔
      pool.className owner = .ok found.owner ∧
        pool.nameAndType member = .ok (found.name, found.descriptor) ∧
        found.isInterface = isInterface := by
  rw [resolveMember, Except.bind_eq_ok_iff]
  constructor
  · rintro ⟨name, howner, h⟩
    obtain ⟨pair, hmember, h⟩ := Except.bind_eq_ok_iff.1 h
    cases h
    exact ⟨howner, hmember, rfl⟩
  · rintro ⟨howner, hmember, rfl⟩
    exact ⟨_, howner, Except.bind_eq_ok_iff.2 ⟨_, hmember, rfl⟩⟩

theorem member_eq_ok_iff {pool : Pool} {method : MemberRef} :
    pool.member index = .ok method ↔ ∃ owner pair isInterface,
      (pool.get index = .ok (.fieldRef owner pair) ∧ isInterface = false ∨
        pool.get index = .ok (.methodRef owner pair) ∧ isInterface = false ∨
        pool.get index = .ok (.interfaceMethodRef owner pair) ∧ isInterface = true) ∧
      pool.resolveMember isInterface owner pair = .ok method := by
  rw [Pool.member, Except.bind_eq_ok_iff]
  constructor
  · rintro ⟨constant, hget, h⟩
    cases constant with
    | fieldRef owner pair => exact ⟨owner, pair, false, Or.inl ⟨hget, rfl⟩, h⟩
    | methodRef owner pair => exact ⟨owner, pair, false, Or.inr (Or.inl ⟨hget, rfl⟩), h⟩
    | interfaceMethodRef owner pair =>
        exact ⟨owner, pair, true, Or.inr (Or.inr ⟨hget, rfl⟩), h⟩
    | _ => cases h
  · rintro ⟨owner, pair, isInterface, hget | hget | hget, h⟩
    · obtain ⟨hget, rfl⟩ := hget
      exact ⟨_, hget, h⟩
    · obtain ⟨hget, rfl⟩ := hget
      exact ⟨_, hget, h⟩
    · obtain ⟨hget, rfl⟩ := hget
      exact ⟨_, hget, h⟩

theorem Extends.get (h : Extends before after) {constant : Constant}
    (hget : before.get index = .ok constant) : after.get index = .ok constant :=
  get_eq_ok_iff.2 (h _ _ (get_eq_ok_iff.1 hget))

theorem Extends.text (h : Extends before after) {text : String}
    (htext : before.text index = .ok text) : after.text index = .ok text :=
  text_eq_ok_iff.2 (h.get (text_eq_ok_iff.1 htext))

/-- A text of the larger pool at an index inside the smaller one is a text there. -/
theorem Extends.text_of_lt (h : Extends before after) {text : String}
    (htext : after.text index = .ok text) (hlt : index.toNat < before.size) :
    before.text index = .ok text := by
  rw [text_eq_ok_iff, get_eq_ok_iff] at htext ⊢
  have hslot : before.entries[index.toNat]? = some before.entries[index.toNat] :=
    Array.getElem?_eq_getElem hlt
  rw [hslot, ← h _ _ hslot, htext]

theorem Extends.className (h : Extends before after) {name : String}
    (hname : before.className index = .ok name) : after.className index = .ok name := by
  obtain ⟨text, hget, htext⟩ := className_eq_ok_iff.1 hname
  exact className_eq_ok_iff.2 ⟨text, h.get hget, h.text htext⟩

theorem Extends.nameAndType (h : Extends before after) {name descriptor : String}
    (hpair : before.nameAndType index = .ok (name, descriptor)) :
    after.nameAndType index = .ok (name, descriptor) := by
  obtain ⟨first, second, hget, hfirst, hsecond⟩ := nameAndType_eq_ok_iff.1 hpair
  exact nameAndType_eq_ok_iff.2 ⟨first, second, h.get hget, h.text hfirst, h.text hsecond⟩

theorem Extends.member (h : Extends before after) {method : MemberRef}
    (hmethod : before.member index = .ok method) : after.member index = .ok method := by
  rw [member_eq_ok_iff] at hmethod ⊢
  obtain ⟨owner, pair, isInterface, hget, hfound⟩ := hmethod
  rw [resolveMember_eq_ok_iff] at hfound
  refine ⟨owner, pair, isInterface, ?_, resolveMember_eq_ok_iff.2
    ⟨h.className hfound.1, h.nameAndType hfound.2.1, hfound.2.2⟩⟩
  rcases hget with ⟨hget, hkind⟩ | ⟨hget, hkind⟩ | ⟨hget, hkind⟩
  · exact Or.inl ⟨h.get hget, hkind⟩
  · exact Or.inr (Or.inl ⟨h.get hget, hkind⟩)
  · exact Or.inr (Or.inr ⟨h.get hget, hkind⟩)

/-- A string constant stands at an index. -/
def IsString (pool : Pool) (index : Index) (text : String) : Prop :=
  ∃ string, pool.get index = .ok (.stringRef string) ∧ pool.text string = .ok text

/-- A method constant stands at an index. -/
def IsMethod (pool : Pool) (index : Index) (method : MemberRef) : Prop :=
  ∃ owner pair,
    pool.get index = .ok (if method.isInterface then .interfaceMethodRef owner pair
      else .methodRef owner pair) ∧
    pool.className owner = .ok method.owner ∧
    pool.nameAndType pair = .ok (method.name, method.descriptor)

theorem Extends.isString (h : Extends before after) {text : String}
    (htext : before.IsString index text) : after.IsString index text := by
  obtain ⟨string, hget, hstring⟩ := htext
  exact ⟨string, h.get hget, h.text hstring⟩

theorem Extends.isMethod (h : Extends before after) {method : MemberRef}
    (hmethod : before.IsMethod index method) : after.IsMethod index method := by
  obtain ⟨owner, pair, hget, howner, hpair⟩ := hmethod
  exact ⟨owner, pair, h.get hget, h.className howner, h.nameAndType hpair⟩

theorem IsMethod.member {pool : Pool} {method : MemberRef} (h : pool.IsMethod index method) :
    pool.member index = .ok method := by
  obtain ⟨owner, pair, hget, howner, hpair⟩ := h
  refine member_eq_ok_iff.2 ⟨owner, pair, method.isInterface, ?_,
    resolveMember_eq_ok_iff.2 ⟨howner, hpair, rfl⟩⟩
  cases hkind : method.isInterface with
  | false =>
      rw [hkind, if_neg Bool.false_ne_true] at hget
      exact Or.inr (Or.inl ⟨hget, rfl⟩)
  | true =>
      rw [hkind, if_pos rfl] at hget
      exact Or.inr (Or.inr ⟨hget, rfl⟩)

end Lookups

end Pool

/-- A constant that an edit may append: a class or a descriptor it names is one of the given. -/
def Constant.Adds (classes descriptors : String → Prop) (pool : Pool) : Constant → Prop
  | .utf8 _ | .stringRef _ | .methodRef _ _ | .interfaceMethodRef _ _ => True
  | .classRef name => ∃ text, pool.text name = .ok text ∧ classes text
  | .nameAndType _ descriptor => ∃ text, pool.text descriptor = .ok text ∧ descriptors text
  | _ => False

section Adds

variable {classes descriptors : String → Prop} {before after : Pool} {constant : Constant}

theorem Constant.Adds.isWide (h : constant.Adds classes descriptors before) :
    constant.isWide = false := by
  cases constant with
  | long | double => exact h.elim
  | _ => rfl

theorem Constant.Adds.extends (h : constant.Adds classes descriptors before)
    (hextends : before.Extends after) : constant.Adds classes descriptors after := by
  cases constant with
  | classRef name =>
      obtain ⟨text, htext, hclass⟩ := h
      exact ⟨text, hextends.text htext, hclass⟩
  | nameAndType name descriptor =>
      obtain ⟨text, htext, hdescriptor⟩ := h
      exact ⟨text, hextends.text htext, hdescriptor⟩
  | _ => exact h

theorem Constant.Adds.mono {larger longer : String → Prop}
    (h : constant.Adds classes descriptors before) (hclasses : ∀ name, classes name → larger name)
    (hdescriptors : ∀ text, descriptors text → longer text) :
    constant.Adds larger longer before := by
  cases constant with
  | classRef name =>
      obtain ⟨text, htext, hclass⟩ := h
      exact ⟨text, htext, hclasses text hclass⟩
  | nameAndType name descriptor =>
      obtain ⟨text, htext, hdescriptor⟩ := h
      exact ⟨text, htext, hdescriptors text hdescriptor⟩
  | _ => exact h

end Adds

namespace Pool

/-- The second pool is the first with constants appended that an edit may append. -/
structure Gains (classes descriptors : String → Prop) (before after : Pool) : Prop where
  added : ∃ added : List Constant, after.entries.toList = before.entries.toList ++ added ∧
    ∀ constant ∈ added, constant.Adds classes descriptors after
  size_le : before.size ≤ capacity → after.size ≤ capacity

section Gains

variable {classes descriptors : String → Prop} {before middle after : Pool}

theorem Gains.extends (h : Gains classes descriptors before after) : before.Extends after := by
  obtain ⟨added, hentries, -⟩ := h.added
  intro slot constant hslot
  rw [← Array.getElem?_toList] at hslot ⊢
  rw [hentries]
  rw [List.getElem?_append_left (List.getElem?_eq_some_iff.1 hslot).1]
  exact hslot

theorem Gains.refl (pool : Pool) : Gains classes descriptors pool pool :=
  ⟨⟨[], by simp, by simp⟩, id⟩

theorem Gains.mono {larger longer : String → Prop} (h : Gains classes descriptors before after)
    (hclasses : ∀ name, classes name → larger name)
    (hdescriptors : ∀ text, descriptors text → longer text) : Gains larger longer before after := by
  obtain ⟨added, hentries, hadds⟩ := h.added
  exact ⟨⟨added, hentries, fun constant hconstant =>
    (hadds constant hconstant).mono hclasses hdescriptors⟩, h.size_le⟩

theorem Gains.trans (h : Gains classes descriptors before middle)
    (h' : Gains classes descriptors middle after) : Gains classes descriptors before after := by
  obtain ⟨first, hfirst, hadds⟩ := h.added
  obtain ⟨second, hsecond, hadds'⟩ := h'.added
  refine ⟨⟨first ++ second, ?_, ?_⟩, fun hsize => h'.size_le (h.size_le hsize)⟩
  · rw [hsecond, hfirst, List.append_assoc]
  · intro constant hconstant
    rcases List.mem_append.1 hconstant with hconstant | hconstant
    · exact (hadds constant hconstant).extends h'.extends
    · exact hadds' constant hconstant

end Gains

/-- The second pool is the first with constants appended, whatever these name. -/
abbrev Grows : Pool → Pool → Prop :=
  Gains (fun _ => True) fun _ => True

namespace Edit

variable {α β : Type} {before after : Pool}

theorem complete_eq_ok_iff {edit : Edit α} {result : α} :
    edit.complete before = .ok (result, after) ↔ edit before = (.ok result, after) := by
  unfold complete ExceptT.run
  rcases edit before with ⟨failure | value, pool⟩
  · constructor <;> intro h <;> cases h
  · constructor <;> intro h <;> cases h <;> rfl

theorem bind_eq_ok_iff {edit : Edit α} {next : α → Edit β} {result : β} :
    (edit >>= next).complete before = .ok (result, after) ↔
      ∃ value middle, edit.complete before = .ok (value, middle) ∧
        (next value).complete middle = .ok (result, after) := by
  simp only [complete_eq_ok_iff]
  have hbind : (edit >>= next) before =
      ExceptT.bindCont next (edit before).1 (edit before).2 := rfl
  rw [hbind]
  rcases edit before with ⟨failure | value, pool⟩
  · constructor
    · intro h
      cases h
    · rintro ⟨_, _, h, -⟩
      cases h
  · constructor
    · intro h
      exact ⟨value, pool, rfl, h⟩
    · rintro ⟨_, _, h, hnext⟩
      cases h
      exact hnext

theorem pure_eq_ok_iff {value result : α} :
    (pure value : Edit α).complete before = .ok (result, after) ↔
      value = result ∧ before = after := by
  rw [complete_eq_ok_iff]
  constructor
  · intro h
    cases h
    exact ⟨rfl, rfl⟩
  · rintro ⟨rfl, rfl⟩
    rfl

theorem get_eq_ok_iff {found : Pool} :
    (MonadState.get : Edit Pool).complete before = .ok (found, after) ↔
      before = found ∧ before = after :=
  pure_eq_ok_iff

theorem lift_eq_ok_iff {value : Except Failure α} {result : α} :
    (liftM value : Edit α).complete before = .ok (result, after) ↔
      value = .ok result ∧ before = after := by
  rw [complete_eq_ok_iff]
  exact Prod.mk.injEq .. ▸ Iff.rfl

end Edit

section Interning

variable {classes descriptors : String → Prop} {before after : Pool} {index : Index}

theorem entries_append_of_narrow (pool : Pool) {constant : Constant}
    (hnarrow : constant.isWide = false) :
    (pool.append constant).entries = pool.entries.push constant := by
  simp [append, hnarrow]

theorem extends_append {pool : Pool} {constant : Constant} (hnarrow : constant.isWide = false) :
    Extends pool (pool.append constant) := by
  intro slot other hslot
  have hlt := (Array.getElem?_eq_some_iff.1 hslot).1
  rw [entries_append_of_narrow _ hnarrow, Array.getElem?_push_lt hlt,
    ← Array.getElem?_eq_getElem hlt]
  exact hslot

theorem push_eq_ok_iff {constant : Constant} :
    (push constant).complete before = .ok (index, after) ↔
      before.size + constant.width ≤ capacity ∧ UInt16.ofNat before.size = index ∧
        before.append constant = after := by
  rw [Edit.complete_eq_ok_iff, push]
  split
  · next hfull =>
      constructor
      · intro h
        cases h
      · rintro ⟨hroom, -⟩
        exact absurd hroom (Nat.not_le.2 hfull)
  · next hroom =>
      constructor
      · intro h
        cases h
        exact ⟨Nat.le_of_not_gt hroom, rfl, rfl⟩
      · rintro ⟨-, rfl, rfl⟩
        rfl

theorem gains_push {constant : Constant} (h : (push constant).complete before = .ok (index, after))
    (hadds : constant.Adds classes descriptors (before.append constant)) :
    Gains classes descriptors before after ∧ after.get index = .ok constant := by
  obtain ⟨hroom, rfl, rfl⟩ := push_eq_ok_iff.1 h
  have hentries := entries_append_of_narrow before hadds.isWide
  have hsize : before.size < 2 ^ 16 := by
    have hpos := width_pos constant
    rw [capacity] at hroom
    omega
  refine ⟨⟨⟨[constant], ?_, ?_⟩, fun _ => ?_⟩, ?_⟩
  · simp [hentries]
  · intro other hother
    rwa [List.mem_singleton.1 hother]
  · rwa [size_append]
  · rw [get_eq_ok_iff, UInt16.toNat_ofNat_of_lt' hsize, hentries, size, Array.getElem?_push_size]

theorem find?_eq_some {pool : Pool} {constant : Constant} (hsize : pool.size ≤ capacity)
    (h : pool.find? constant = some index) : pool.get index = .ok constant := by
  obtain ⟨slot, hslot, rfl⟩ := Option.map_eq_some_iff.1 h
  rw [Array.idxOf?_eq_map_finIdxOf?_val, Option.map_eq_some_iff] at hslot
  obtain ⟨⟨slot, hlt⟩, hfound, rfl⟩ := hslot
  obtain ⟨hfound, -⟩ := Array.finIdxOf?_eq_some_iff.1 hfound
  have hbound : slot < 2 ^ 16 := by
    rw [capacity, size] at hsize
    omega
  rw [get_eq_ok_iff, UInt16.toNat_ofNat_of_lt' hbound, Array.getElem?_eq_getElem hlt]
  exact congrArg some hfound

/-- Interning finds or appends its constant. -/
theorem gains_intern {constant : Constant} (hsize : before.size ≤ capacity)
    (h : (intern constant).complete before = .ok (index, after))
    (hadds : constant.Adds classes descriptors before) :
    Gains classes descriptors before after ∧ after.get index = .ok constant := by
  rw [Edit.complete_eq_ok_iff, intern] at h
  cases hfind : before.find? constant with
  | some found =>
      rw [hfind] at h
      cases h
      exact ⟨.refl _, find?_eq_some hsize hfind⟩
  | none =>
      rw [hfind] at h
      exact gains_push (Edit.complete_eq_ok_iff.2 h)
        (hadds.extends (extends_append hadds.isWide))

theorem gains_internText {text : String} (hsize : before.size ≤ capacity)
    (h : (internText text).complete before = .ok (index, after)) :
    Gains classes descriptors before after ∧ after.text index = .ok text := by
  obtain ⟨hgains, hget⟩ := gains_intern hsize h trivial
  exact ⟨hgains, text_eq_ok_iff.2 hget⟩

theorem gains_internClass {name : String} (hsize : before.size ≤ capacity)
    (h : (internClass name).complete before = .ok (index, after)) (hname : classes name) :
    Gains classes descriptors before after ∧ after.className index = .ok name := by
  obtain ⟨text, middle, htext, h⟩ := Edit.bind_eq_ok_iff.1 h
  obtain ⟨hfirst, htext⟩ : Gains classes descriptors before middle ∧ _ :=
    gains_internText hsize htext
  obtain ⟨hsecond, hget⟩ := gains_intern (hfirst.size_le hsize) h ⟨name, htext, hname⟩
  refine ⟨hfirst.trans hsecond, className_eq_ok_iff.2 ⟨text, hget, ?_⟩⟩
  exact hsecond.extends.text htext

theorem gains_internString {text : String} (hsize : before.size ≤ capacity)
    (h : (internString text).complete before = .ok (index, after)) :
    Gains classes descriptors before after ∧ after.IsString index text := by
  obtain ⟨string, middle, htext, h⟩ := Edit.bind_eq_ok_iff.1 h
  obtain ⟨hfirst, htext⟩ : Gains classes descriptors before middle ∧ _ :=
    gains_internText hsize htext
  obtain ⟨hsecond, hget⟩ : Gains classes descriptors middle after ∧ _ :=
    gains_intern (hfirst.size_le hsize) h trivial
  exact ⟨hfirst.trans hsecond, string, hget, hsecond.extends.text htext⟩

theorem gains_internNameAndType {name descriptor : String} (hsize : before.size ≤ capacity)
    (h : (internNameAndType name descriptor).complete before = .ok (index, after))
    (hdescriptor : descriptors descriptor) :
    Gains classes descriptors before after ∧
      after.nameAndType index = .ok (name, descriptor) := by
  obtain ⟨first, middle, hfirst, h⟩ := Edit.bind_eq_ok_iff.1 h
  obtain ⟨second, last, hsecond, h⟩ := Edit.bind_eq_ok_iff.1 h
  obtain ⟨hgains, hname⟩ : Gains classes descriptors before middle ∧ _ :=
    gains_internText hsize hfirst
  have hmiddle := hgains.size_le hsize
  obtain ⟨hgains', htext⟩ : Gains classes descriptors middle last ∧ _ :=
    gains_internText hmiddle hsecond
  obtain ⟨hgains'', hget⟩ :=
    gains_intern (hgains'.size_le hmiddle) h ⟨descriptor, htext, hdescriptor⟩
  refine ⟨(hgains.trans hgains').trans hgains'', nameAndType_eq_ok_iff.2 ⟨_, _, hget, ?_, ?_⟩⟩
  · exact hgains''.extends.text (hgains'.extends.text hname)
  · exact hgains''.extends.text htext

theorem gains_internMethod {method : MemberRef} (hsize : before.size ≤ capacity)
    (h : (internMethod method).complete before = .ok (index, after))
    (howner : classes method.owner) (hdescriptor : descriptors method.descriptor) :
    Gains classes descriptors before after ∧ after.IsMethod index method := by
  obtain ⟨owner, middle, howner', h⟩ := Edit.bind_eq_ok_iff.1 h
  obtain ⟨pair, last, hpair, h⟩ := Edit.bind_eq_ok_iff.1 h
  obtain ⟨hfirst, hname⟩ : Gains classes descriptors before middle ∧ _ :=
    gains_internClass hsize howner' howner
  obtain ⟨hsecond, hmember⟩ : Gains classes descriptors middle last ∧ _ :=
    gains_internNameAndType (hfirst.size_le hsize) hpair hdescriptor
  have hlast := hsecond.size_le (hfirst.size_le hsize)
  have hconstant : (intern (if method.isInterface then .interfaceMethodRef owner pair
      else .methodRef owner pair)).complete last = .ok (index, after) := by
    split at h <;> simp only [*] <;> exact h
  obtain ⟨hthird, hget⟩ : Gains classes descriptors last after ∧ _ := by
    refine gains_intern hlast hconstant ?_
    split <;> trivial
  refine ⟨(hfirst.trans hsecond).trans hthird, owner, pair, hget, ?_, ?_⟩
  · exact hthird.extends.className (hsecond.extends.className hname)
  · exact hthird.extends.nameAndType hmember

end Interning

end Pool

end JarTailor
