import JarTailor.Proofs.Edit.Renamed
import JarTailor.Proofs.Jar.Prepared
import JarTailor.Proofs.Receiver

/-!
# The classes that a prepared class names

Before it is renamed, a class names nothing but itself, the classes it referred to, the targets of
the redirects that select a method it called, and what new bodies need.
-/

namespace JarTailor

open TypeUse

/-- A text as a class entry should hold it: a legal name, or the descriptor of an array of legal
names. -/
def LegalEntry (text : String) : Prop :=
  LegalName text ∨ text.toList.head? = some '[' ∧
    ∃ names, TypeRole.descriptor.classNames text = .ok names ∧ ∀ name ∈ names, LegalName name

theorem LegalEntry.inClassEntry {text : String} (h : LegalEntry text) : InClassEntry text :=
  h.imp id And.left

namespace ClassFile

/-- An entry is the descriptor of a field, of a method or of a name and type. -/
def Declares (classFile : ClassFile) (index : Index) : Prop :=
  (∃ member ∈ classFile.fields ++ classFile.methods, member.descriptor = index) ∨
    ∃ name, .nameAndType name index ∈ classFile.pool.entries

/-- An attribute of a method, or one inside such an attribute, names a type by a descriptor. -/
def HoldsInMethods (classFile : ClassFile) (index : Index) : Prop :=
  ∃ method ∈ classFile.methods, ∃ entry ∈ method.attributes,
    Finds classFile.pool ⟨index, .descriptor⟩ (.inAttribute entry)

/-- The class entries and some descriptors of a class name only legal classes, and its calls are
calls of methods. -/
structure Orderly (described : Index → Prop) (classFile : ClassFile) : Prop where
  entries : ∀ index text, .classRef index ∈ classFile.pool.entries →
    classFile.pool.text index = .ok text → LegalEntry text
  descriptors : ∀ index text names, described index → classFile.pool.text index = .ok text →
    TypeRole.descriptor.classNames text = .ok names → ∀ name ∈ names, LegalName name
  calls : classFile.CallsMethods

theorem Orderly.mono {wide narrow : Index → Prop} {classFile : ClassFile}
    (h : classFile.Orderly wide) (hsub : ∀ index, narrow index → wide index) :
    classFile.Orderly narrow where
  entries := h.entries
  descriptors index text names hindex := h.descriptors index text names (hsub index hindex)
  calls := h.calls

end ClassFile

/-- The names in the rules of a configuration are legal, and no nested class is renamed by a rule
of its own. -/
structure Config.Legal (config : Config) : Prop where
  sources : ∀ rule ∈ config.renames, LegalName (internalName rule.source) ∧
    '$' ∉ (internalName rule.source).toList
  targets : ∀ rule ∈ config.renames, LegalName (internalName rule.target)
  redirected : ∀ rule ∈ config.redirects, LegalName (internalName rule.pattern.className)
  redirectTargets : ∀ rule ∈ config.redirects, LegalName rule.targetClass

/-- The classes that new bodies of the methods of a class name. -/
def Replace.Needs (owner name : String) : Prop :=
  name = Body.exceptionClass ∨ name = "java/lang/String" ∨ name = Body.delegateClass owner

namespace Tailor

/-- What a class may name before it is renamed. -/
def MayName (tailor : Tailor) (flags : ClassFlags) (references : References) (name : String) :
    Prop :=
  name = references.name ∨ name ∈ references.classes ∨
    Redirect.Targets tailor.config.redirects (· ∈ references.methods) name ∨
    flags.stubbed = true ∧ Replace.Needs references.name name

section Names

variable {original : ClassFile} {references : References} {uses : List TypeUse}

/-- The classes that a text names in the role it is used in first. -/
theorem referred_of_first (h : References.Known original references uses) {use : TypeUse}
    (huse : First uses use) {names : List String}
    (hnames : References.ofText original.pool use.index use.role = .ok names) {name : String}
    (hname : name ∈ names) : name = references.name ∨ name ∈ references.classes := by
  by_cases hself : name = references.name
  · exact Or.inl hself
  · exact Or.inr ((h.classes name).2 ⟨hself, use, huse, names, hnames, hname⟩)

theorem referred_of_classRef (h : References.Known original references uses) {index : Index}
    {name : String} (hentry : .classRef index ∈ original.pool.entries)
    (htext : original.pool.text index = .ok name) (hlegal : LegalName name) :
    name = references.name ∨ name ∈ references.classes := by
  have hnames : TypeRole.className.classNames name = .ok [name] := if_neg hlegal.head?_ne
  exact referred_of_first h (first_of_classRef h.all hentry)
    (References.ofText_eq_ok_iff.2 ⟨name, htext, hnames⟩) (List.mem_singleton.2 rfl)

/-- The classes that a text names as a descriptor, if it is used so and they are legal. -/
theorem referred_of_descriptor {described : Index → Prop}
    (h : References.Known original references uses) (horderly : original.Orderly described)
    {use : TypeUse} (huse : use ∈ uses) (hdescribed : described use.index) {text : String}
    (htext : original.pool.text use.index = .ok text) {names : List String}
    (hnames : TypeRole.descriptor.classNames text = .ok names) {name : String}
    (hname : name ∈ names) : name = references.name ∨ name ∈ references.classes := by
  obtain ⟨⟨index, role⟩, hfirst, hindex⟩ := exists_first huse
  simp only at hindex
  obtain ⟨found, hfound⟩ := h.texts _ hfirst
  obtain ⟨text', htext', hclasses⟩ := References.ofText_eq_ok_iff.1 hfound
  rw [hindex] at htext'
  obtain rfl : text = text' := Except.ok.inj (htext.symm.trans htext')
  refine referred_of_first h hfirst hfound ?_
  simp only at hclasses
  cases role with
  | className =>
      have hentry := classRef_of_role h.all hfirst.mem rfl
      have htext : original.pool.text index = .ok text := by rw [hindex, htext]
      rcases horderly.entries index text hentry htext with hlegal | ⟨hhead, -⟩
      · obtain ⟨descriptor, hparse, rfl⟩ := Except.map_eq_ok_iff.1 hnames
        obtain ⟨-, rfl⟩ := Descriptor.parse_eq_ok_iff.1 hparse
        have hsemicolon := Descriptor.semicolon_mem_text hname
        exact absurd rfl (hlegal.2 ';' hsemicolon).2.1
      · have hsame : TypeRole.className.classNames text = TypeRole.descriptor.classNames text :=
          if_pos hhead
        rw [hsame, hnames] at hclasses
        rwa [← Except.ok.inj hclasses]
  | descriptor =>
      rw [hnames] at hclasses
      rwa [← Except.ok.inj hclasses]
  | signature =>
      have hlegal := horderly.descriptors use.index text
      have hsame : found = names := TypeRole.classNames_unique (by simp) (by simp)
        (fun _ names h => hlegal names hdescribed htext h) hclasses hnames
      rwa [hsame]

end Names

section Introduced

variable {tailor : Tailor} {flags : ClassFlags} {original : ClassFile} {references : References}
variable {uses : List TypeUse} {described : Index → Prop} {text name : String}
variable {names : List String}

theorem legalEntry_name (h : References.Known original references uses)
    (horderly : original.Orderly described) : LegalEntry references.name := by
  obtain ⟨index, hget, htext⟩ := Pool.className_eq_ok_iff.1 h.name
  exact horderly.entries index _ (Array.mem_of_getElem? (Pool.get_eq_ok_iff.1 hget)) htext

theorem legalName_delegateClass (h : LegalName name) : LegalName (Body.delegateClass name) := by
  have hsuffix : LegalName "_Delegate" := by decide
  constructor
  · intro hempty
    have hlength := congrArg String.toList hempty
    rw [Body.delegateClass, String.toList_append] at hlength
    exact absurd (List.append_eq_nil_iff.1 hlength).2 (by decide)
  · intro c hc
    rw [Body.delegateClass, String.toList_append] at hc
    rcases List.mem_append.1 hc with hc | hc
    · exact h.2 c hc
    · exact hsuffix.2 c hc

theorem inClassEntry_of_introduces (hconfig : tailor.config.Legal)
    (hself : LegalEntry references.name) (h : tailor.Introduces flags references text) :
    InClassEntry text := by
  rcases h with ⟨rule, callee, ⟨hrule, -, -⟩, rfl⟩ | ⟨-, rfl | rfl⟩
  · exact Or.inl (hconfig.redirectTargets rule hrule)
  · exact Or.inl (by decide)
  · rcases hself with hlegal | ⟨hhead, -⟩
    · exact Or.inl (legalName_delegateClass hlegal)
    · obtain ⟨rest, hrest⟩ := List.head?_eq_some_iff.1 hhead
      refine Or.inr ?_
      rw [Body.delegateClass, String.toList_append, hrest]
      rfl

/-- The class of an entry that is added. -/
theorem mayName_of_introduces (hconfig : tailor.config.Legal)
    (hself : LegalEntry references.name) (h : tailor.Introduces flags references text)
    (hnames : TypeRole.className.classNames text = .ok names) (hname : name ∈ names) :
    tailor.MayName flags references name := by
  have hsingle : LegalName text → name = text := by
    intro hlegal
    have hsame : TypeRole.className.classNames text = .ok [text] := if_neg hlegal.head?_ne
    rw [hsame] at hnames
    rw [← Except.ok.inj hnames] at hname
    exact List.mem_singleton.1 hname
  rcases h with ⟨rule, callee, hselects, rfl⟩ | ⟨hstubbed, rfl | rfl⟩
  · rw [hsingle (hconfig.redirectTargets rule hselects.1)]
    exact Or.inr (Or.inr (Or.inl ⟨rule, callee, hselects, rfl⟩))
  · rw [hsingle (by decide)]
    exact Or.inr (Or.inr (Or.inr ⟨hstubbed, Or.inl rfl⟩))
  · rcases hself with hlegal | ⟨hhead, found, hfound, -⟩
    · rw [hsingle (legalName_delegateClass hlegal)]
      exact Or.inr (Or.inr (Or.inr ⟨hstubbed, Or.inr (Or.inr rfl)⟩))
    · obtain ⟨descriptor, hparse, -⟩ := Except.map_eq_ok_iff.1 hfound
      obtain ⟨rest, hrest⟩ := List.head?_eq_some_iff.1 hhead
      have hhead' : (Body.delegateClass references.name).toList.head? = some '[' := by
        rw [Body.delegateClass, String.toList_append, hrest]
        rfl
      have hsame : TypeRole.className.classNames (Body.delegateClass references.name) =
          TypeRole.descriptor.classNames (Body.delegateClass references.name) := if_pos hhead'
      rw [hsame] at hnames
      obtain ⟨longer, hlonger, -⟩ := Except.map_eq_ok_iff.1 hnames
      exact absurd hlonger (Descriptor.not_parse_append hparse hhead (by decide))

/-- What a class names a method by whose calls it makes. -/
theorem exists_entries_of_callee (h : References.Known original references uses)
    {callee : MemberRef} (hcallee : callee ∈ references.methods) :
    (∃ index, .classRef index ∈ original.pool.entries ∧
      original.pool.text index = .ok callee.owner) ∧
    ∃ member index, .nameAndType member index ∈ original.pool.entries ∧
      original.pool.text index = .ok callee.descriptor := by
  obtain ⟨methods, hmethods, hmem⟩ := h.methods
  obtain ⟨slot, -, hmember⟩ :=
    (References.mem_methodsOf_iff hmethods).1 ((hmem callee).1 hcallee)
  obtain ⟨owner, pair, isInterface, -, hfound⟩ := Pool.member_eq_ok_iff.1 hmember
  obtain ⟨howner, hpair, -⟩ := Pool.resolveMember_eq_ok_iff.1 hfound
  obtain ⟨index, hget, htext⟩ := Pool.className_eq_ok_iff.1 howner
  obtain ⟨first, second, hget', -, hsecond⟩ := Pool.nameAndType_eq_ok_iff.1 hpair
  exact ⟨⟨index, Array.mem_of_getElem? (Pool.get_eq_ok_iff.1 hget), htext⟩,
    first, second, Array.mem_of_getElem? (Pool.get_eq_ok_iff.1 hget'), hsecond⟩

/-- The classes of a descriptor that is added for a call. -/
theorem referred_of_redirected (h : References.Known original references uses)
    (horderly : original.Orderly described)
    (hdescribed : ∀ index, original.Declares index → described index)
    (hconfig : tailor.config.Legal)
    (htext : Redirect.Describes tailor.config.redirects (· ∈ references.methods) text)
    (hnames : TypeRole.descriptor.classNames text = .ok names) (hname : name ∈ names) :
    name = references.name ∨ name ∈ references.classes := by
  obtain ⟨rule, callee, ⟨hrule, hcallee, hselects⟩, htext⟩ := htext
  obtain ⟨⟨owner, hentry, howner⟩, member, index, hpair, hindex⟩ :=
    exists_entries_of_callee h hcallee
  have hreferred : ∀ {names : List String},
      TypeRole.descriptor.classNames callee.descriptor = .ok names → name ∈ names →
        name = references.name ∨ name ∈ references.classes := by
    intro names hnames hname
    exact referred_of_descriptor h horderly (mem_of_nameAndType h.all hpair)
      (hdescribed _ (Or.inr ⟨member, hpair⟩)) hindex hnames hname
  rcases htext with rfl | hreceived
  · exact hreferred hnames hname
  · have hlegal : LegalName callee.owner := by
      rw [← (MemberSpec.selects_iff.1 hselects).1]
      exact hconfig.redirected rule hrule
    obtain ⟨descriptor, hparse, rfl⟩ := Except.map_eq_ok_iff.1 hnames
    have hfront : ';' ∈ callee.owner.toList →
        ∃ front, callee.owner.toList = front ++ [';'] ∧ ';' ∉ front :=
      fun hmem => absurd rfl (hlegal.2 ';' hmem).2.1
    rcases Descriptor.mem_classNames_withReceiver hreceived hparse hfront hname with rfl |
      ⟨other, hother, hname⟩
    · exact referred_of_classRef h hentry howner hlegal
    · exact hreferred (Except.map_eq_ok_iff.2 ⟨other, hother, rfl⟩) hname

/-- The classes of a descriptor that is added for a new body. -/
theorem mayName_of_replaced (h : References.Known original references uses)
    (horderly : original.Orderly described)
    (hdescribed : ∀ index, original.Declares index → described index)
    (hstubbed : flags.stubbed = true)
    (htext : Replace.Describes references.name original.Describes text)
    (hnames : TypeRole.descriptor.classNames text = .ok names) (hname : name ∈ names) :
    tailor.MayName flags references name := by
  rcases htext with rfl | ⟨descriptor, ⟨method, hmethod, hindex⟩, htext⟩
  · have hstring : TypeRole.descriptor.classNames Body.exceptionConstructor.descriptor =
        .ok ["java/lang/String"] := by
      refine Except.map_eq_ok_iff.2
        ⟨.method ⟨[⟨0, .object "java/lang/String"⟩], none⟩, ?_, rfl⟩
      refine Descriptor.parse_eq_ok_iff.2 ⟨⟨?_, by simp⟩, rfl⟩
      intro parameter hparameter
      rw [List.mem_singleton.1 hparameter]
      rintro found ⟨⟩
      exact ⟨by decide, by decide⟩
    rw [hstring] at hnames
    rw [← Except.ok.inj hnames] at hname
    exact Or.inr (Or.inr (Or.inr ⟨hstubbed, Or.inr (Or.inl (List.mem_singleton.1 hname))⟩))
  · have hreferred : ∀ {names : List String},
        TypeRole.descriptor.classNames descriptor = .ok names → name ∈ names →
          tailor.MayName flags references name := by
      intro names hnames hname
      have hmember : method ∈ original.fields ++ original.methods :=
        List.mem_append_right _ hmethod
      have hfound := referred_of_descriptor h horderly (mem_of_member h.all hmember)
        (hdescribed _ (Or.inl ⟨method, hmember, rfl⟩)) hindex hnames hname
      exact hfound.imp id Or.inl
    rcases htext with rfl | hreceived
    · exact hreferred hnames hname
    · obtain ⟨parsed, hparse, rfl⟩ := Except.map_eq_ok_iff.1 hnames
      have hfront : ';' ∈ references.name.toList →
          ∃ front, references.name.toList = front ++ [';'] ∧ ';' ∉ front := by
        intro hmem
        rcases legalEntry_name h horderly with hlegal | ⟨hhead, found, hfound, -⟩
        · exact absurd rfl (hlegal.2 ';' hmem).2.1
        · obtain ⟨array, harray, -⟩ := Except.map_eq_ok_iff.1 hfound
          exact Descriptor.exists_front harray hhead hmem
      rcases Descriptor.mem_classNames_withReceiver hreceived hparse hfront hname with hself |
        ⟨other, hother, hname⟩
      · exact Or.inl hself
      · exact hreferred (Except.map_eq_ok_iff.2 ⟨other, hother, rfl⟩) hname

end Introduced

section Prepared

variable {tailor : Tailor} {flags : ClassFlags} {original prepared : ClassFile}
variable {references : References} {uses uses' : List TypeUse}

/-- What methods name by a descriptor is the descriptor of one or held by one. -/
theorem described_of_mem {ofMethods : List (List TypeUse)}
    (h : MembersUse original.pool original.methods ofMethods) {use : TypeUse}
    (huse : use ∈ ofMethods.flatten) (hrole : use.role = .descriptor) :
    original.Declares use.index ∨ original.HoldsInMethods use.index := by
  obtain ⟨found, hfound, huse⟩ := List.mem_flatten.1 huse
  obtain ⟨method, hmethod, hofMethod⟩ := exists_related_left h hfound
  rcases (mem_ofMember_iff hofMethod).1 huse with rfl | ⟨entry, hentry, hfinds⟩
  · exact Or.inl (Or.inl ⟨method, List.mem_append_right _ hmethod, rfl⟩)
  · refine Or.inr ⟨method, hmethod, entry, hentry, ?_⟩
    rwa [← hrole]

/-- Before it is renamed, the texts of a class can be read as those of the class it was. -/
theorem readable_of_edited {described : Index → Prop}
    (h : References.Known original references uses) (horderly : original.Orderly described)
    (hconfig : tailor.config.Legal)
    (hedited : Edited flags.stubbed (tailor.Introduces flags references)
      (tailor.Describes flags references original) original prepared)
    (hall : all prepared = .ok uses') : Renaming.Readable prepared uses' := by
  intro use hfirst
  obtain ⟨ofClass, ofFields, ofMethods, hlists⟩ := lists_of_all h.all
  have hold : use ∈ uses → ∃ text, original.pool.text use.index = .ok text ∧
      prepared.pool.text use.index = .ok text := by
    intro huse
    obtain ⟨text, htext⟩ := h.exists_text huse
    exact ⟨text, htext, hedited.gains.extends.text htext⟩
  rcases hedited.first hlists hall hfirst with ⟨-, text, htext, hnew⟩ | ⟨hrole, text, htext, -⟩ |
    hfirst | ⟨-, huse, -⟩
  · exact ⟨text, htext, fun _ => inClassEntry_of_introduces hconfig (legalEntry_name h horderly) hnew⟩
  · refine ⟨text, htext, fun hclass => ?_⟩
    rw [hrole] at hclass
    cases hclass
  · obtain ⟨text, htext, hprepared⟩ := hold hfirst.mem
    refine ⟨text, hprepared, fun hclass => ?_⟩
    have hentry := classRef_of_role h.all hfirst.mem hclass
    exact (horderly.entries _ text hentry htext).inClassEntry
  · have hmem : use ∈ uses := by
      rw [hlists.uses]
      exact List.mem_append_right _ huse
    obtain ⟨text, -, hprepared⟩ := hold hmem
    exact ⟨text, hprepared, fun hclass => absurd hclass (role_of_mem_flatten hlists.methods huse)⟩

/-- Two uses of a text by methods name the same classes. -/
theorem classNames_unique_of_methods {described : Index → Prop} {ofMethods : List (List TypeUse)}
    (hmethods : MembersUse original.pool original.methods ofMethods)
    (horderly : original.Orderly described)
    (hdescribed : ∀ index, original.Declares index ∨ original.HoldsInMethods index →
      described index) {first use : TypeUse} (hfirst : first ∈ ofMethods.flatten)
    (huse : use ∈ ofMethods.flatten) (hindex : first.index = use.index) {text : String}
    (htext : original.pool.text use.index = .ok text) {found names : List String}
    (hfound : first.role.classNames text = .ok found)
    (hnames : use.role.classNames text = .ok names) : found = names := by
  refine TypeRole.classNames_unique (role_of_mem_flatten hmethods hfirst)
    (role_of_mem_flatten hmethods huse) (fun hrole names hnames => ?_) hfound hnames
  refine horderly.descriptors use.index text names (hdescribed _ ?_) htext hnames
  rcases hrole with hrole | hrole
  · rw [← hindex]
    exact described_of_mem hmethods hfirst hrole
  · exact described_of_mem hmethods huse hrole

/-- A class names nothing before it is renamed but what it may name. -/
theorem mayName_of_edited (h : References.Known original references uses)
    (horderly : original.Orderly fun index =>
      original.Declares index ∨ flags.stubbed = true ∧ original.HoldsInMethods index)
    (hconfig : tailor.config.Legal)
    (hedited : Edited flags.stubbed (tailor.Introduces flags references)
      (tailor.Describes flags references original) original prepared)
    (hall : all prepared = .ok uses') {use : TypeUse} (hfirst : First uses' use)
    {names : List String}
    (hnames : References.ofText prepared.pool use.index use.role = .ok names) {name : String}
    (hname : name ∈ names) : tailor.MayName flags references name := by
  obtain ⟨ofClass, ofFields, ofMethods, hlists⟩ := lists_of_all h.all
  obtain ⟨text, htext, hclasses⟩ := References.ofText_eq_ok_iff.1 hnames
  have hself := legalEntry_name h horderly
  have hread : ∀ {old : TypeUse}, old ∈ uses → old.index = use.index →
      original.pool.text use.index = .ok text := by
    intro old hmem hindex
    obtain ⟨found, hfound⟩ := h.exists_text hmem
    rw [hindex] at hfound
    have hsame := hedited.gains.extends.text hfound
    rwa [Except.ok.inj (htext.symm.trans hsame)]
  have hreferred : ∀ {found : List String} {first : TypeUse}, First uses first →
      first.index = use.index → first.role.classNames text = .ok found → name ∈ found →
        tailor.MayName flags references name := by
    intro found first hfirst hindex hfound hname
    have hold := References.ofText_eq_ok_iff.2 ⟨text, hread hfirst.mem hindex, hfound⟩
    rw [← hindex] at hold
    exact (referred_of_first h hfirst hold hname).imp id Or.inl
  rcases hedited.first hlists hall hfirst with ⟨hrole, text', htext', hnew⟩ |
    ⟨hrole, text', htext', hnew⟩ | hfirst | ⟨hstubbed, huse, hothers⟩
  · obtain rfl := Except.ok.inj (htext.symm.trans htext')
    rw [hrole] at hclasses
    exact mayName_of_introduces hconfig hself hnew hclasses hname
  · obtain rfl := Except.ok.inj (htext.symm.trans htext')
    rw [hrole] at hclasses
    rcases hnew with hredirected | ⟨hstubbed, hreplaced⟩
    · exact (referred_of_redirected h horderly (fun _ => Or.inl) hconfig hredirected hclasses
        hname).imp id Or.inl
    · exact mayName_of_replaced h horderly (fun _ => Or.inl) hstubbed hreplaced hclasses hname
  · exact hreferred hfirst rfl hclasses hname
  · -- its first use went with a body that was replaced
    have hmem : use ∈ uses := by
      rw [hlists.uses]
      exact List.mem_append_right _ huse
    obtain ⟨first, hbefore, hindex⟩ := exists_first hmem
    obtain ⟨found, hfound⟩ := h.texts first hbefore
    obtain ⟨old, hold, hfound⟩ := References.ofText_eq_ok_iff.1 hfound
    have htext := hread hmem rfl
    rw [hindex, htext] at hold
    obtain rfl := Except.ok.inj hold
    have hsame : found = names := by
      refine classNames_unique_of_methods hlists.methods horderly ?_
        (hothers first hbefore.mem hindex) huse hindex htext hfound hclasses
      exact fun index hindex => hindex.imp id fun hholds => ⟨hstubbed, hholds⟩
    exact hreferred hbefore hindex hfound (hsame ▸ hname)

end Prepared

end Tailor

end JarTailor
