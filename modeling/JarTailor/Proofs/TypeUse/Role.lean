import JarTailor.Proofs.Edit.Names
import JarTailor.Proofs.Signature.Descriptors
import JarTailor.Proofs.Success

/-!
# What texts name in each role

A descriptor of legal names that is read as a signature names the same classes. Whatever the role of
a text, renaming its classes leads to a text that names the renamed classes.
-/

namespace JarTailor

theorem LegalName.named {name : String} (h : LegalName name) : Signature.Named name := by
  refine ⟨h.1, fun c hc => ?_⟩
  obtain ⟨hdot, hsemicolon, -, hless⟩ := h.2 c hc
  simp [Signature.takeName.inName, hdot, hsemicolon, hless]

theorem LegalName.head?_ne {name : String} (h : LegalName name) :
    name.toList.head? ≠ some '[' := by
  intro hhead
  exact (h.2 '[' (List.mem_of_head? hhead)).2.2.1 rfl

/-- A text as a class entry holds it: a legal name or the descriptor of an array. -/
def InClassEntry (text : String) : Prop :=
  LegalName text ∨ text.toList.head? = some '['

namespace Descriptor

/-- A descriptor of names that a signature can hold says the same when it is read as a signature. -/
theorem pieces_of_parse {text : String} {descriptor : Descriptor}
    {found : List Signature.Piece} (hparse : Descriptor.parse text = .ok descriptor)
    (hnamed : ∀ name ∈ descriptor.classNames, Signature.Named name)
    (hpieces : Signature.pieces text = .ok found) :
    Signature.classNames found = descriptor.classNames ∧
      ∀ f, Signature.spell (found.map (Signature.Piece.rename f)) =
        (descriptor.rename f).text := by
  obtain ⟨-, rfl⟩ := parse_eq_ok_iff.1 hparse
  by_cases hvoid : descriptor = .void
  · subst hvoid
    have hstep : Signature.step .whole "V".toList =
        .error (.unexpected (Utf8.lead 'V')) := rfl
    unfold Signature.pieces Descriptor.text at hpieces
    rw [Signature.run_cons_of_error hstep] at hpieces
    cases hpieces
  · obtain rfl := Except.ok.inj (hpieces.symm.trans (pieces_text hvoid hnamed))
    exact ⟨descriptor.classNames_pieces, fun _ => descriptor.spell_rename_pieces⟩

/-- The descriptor of an array is one after its class is renamed. -/
theorem head?_text_rename {f : String → String} {descriptor : Descriptor}
    (h : descriptor.text.toList.head? = some '[') :
    (descriptor.rename f).text.toList.head? = some '[' := by
  cases descriptor with
  | void => cases h
  | field type =>
      rcases type with ⟨_ | rank, base | name⟩
      · cases base <;> cases h
      · rw [text, FieldType.text, String.toList_ofList] at h
        cases h
      · rw [rename, text, FieldType.text, String.toList_ofList]
        rfl
      · rw [rename, text, FieldType.text, String.toList_ofList]
        rfl
  | method type =>
      rw [text, head?_text_method] at h
      cases h

end Descriptor

namespace TypeRole

variable {role : TypeRole} {text : String}

/-- Whatever is read in two of the roles but that of a class entry names the same classes, unless it
names others than legal ones as a descriptor. -/
theorem classNames_unique {other : TypeRole} {found names : List String}
    (hrole : role ≠ .className) (hother : other ≠ .className)
    (hlegal : role = .descriptor ∨ other = .descriptor → ∀ names,
      TypeRole.descriptor.classNames text = .ok names → ∀ name ∈ names, LegalName name)
    (hfound : role.classNames text = .ok found) (hnames : other.classNames text = .ok names) :
    found = names := by
  have hagree : ∀ {first second : List String}, role = .descriptor ∨ other = .descriptor →
      TypeRole.descriptor.classNames text = .ok first →
      TypeRole.signature.classNames text = .ok second → second = first := by
    intro first second hroles hfirst hsecond
    have hnames := hlegal hroles first hfirst
    obtain ⟨descriptor, hparse, rfl⟩ := Except.map_eq_ok_iff.1 hfirst
    obtain ⟨pieces, hpieces, rfl⟩ := Except.map_eq_ok_iff.1 hsecond
    exact (Descriptor.pieces_of_parse hparse (fun name hname => (hnames name hname).named)
      hpieces).1
  cases role with
  | className => exact absurd rfl hrole
  | descriptor =>
      cases other with
      | className => exact absurd rfl hother
      | descriptor => exact Except.ok.inj (hfound.symm.trans hnames)
      | signature => exact (hagree (Or.inl rfl) hfound hnames).symm
  | signature =>
      cases other with
      | className => exact absurd rfl hother
      | descriptor => exact hagree (Or.inr rfl) hnames hfound
      | signature => exact Except.ok.inj (hfound.symm.trans hnames)

/-- No name that is read from a text holds the character that ends a class. -/
theorem semicolon_notMem {names : List String} (hentry : role = .className → InClassEntry text)
    (h : role.classNames text = .ok names) : ∀ name ∈ names, ';' ∉ name.toList := by
  have hdescriptor : ∀ {names : List String}, TypeRole.descriptor.classNames text = .ok names →
      ∀ name ∈ names, ';' ∉ name.toList := by
    intro names hnames name hname
    obtain ⟨descriptor, hparse, rfl⟩ := Except.map_eq_ok_iff.1 hnames
    exact (Descriptor.enclosable_of_mem (Descriptor.parse_eq_ok_iff.1 hparse).1 hname).2
  cases role with
  | className =>
      by_cases hhead : text.toList.head? = some '['
      · exact hdescriptor ((if_pos hhead).symm.trans h)
      · have hsingle : names = [text] :=
          Except.ok.inj (h.symm.trans (if_neg hhead))
        rcases hentry rfl with hlegal | hbracket
        · intro name hname hmem
          rw [hsingle, List.mem_singleton] at hname
          exact (hlegal.2 ';' (hname ▸ hmem)).2.1 rfl
        · exact absurd hbracket hhead
  | descriptor => exact hdescriptor h
  | signature =>
      obtain ⟨pieces, hpieces, rfl⟩ := Except.map_eq_ok_iff.1 h
      have hinName : ∀ {name : String}, Signature.Named name → ';' ∉ name.toList := by
        intro name hname hmem
        have hin := hname.2 ';' hmem
        simp [Signature.takeName.inName] at hin
      have hnested : ∀ name segment : String, ';' ∉ name.toList → Signature.Named segment →
          ';' ∉ (name ++ "$" ++ segment).toList := by
        intro name segment hname hsegment
        simp [hname, hinName hsegment]
      exact Signature.classNames_hold (fun _ => hinName) hnested hpieces

end TypeRole

namespace Renaming

variable {names : Renaming} {role : TypeRole} {text : String} {mapped : Option String}

/-- A descriptor that is renamed has the new names of its classes. -/
theorem exists_parse_of_mapText (hmap : names.mapText .descriptor text = .ok mapped) :
    ∃ descriptor, Descriptor.parse text = .ok descriptor ∧
      mapped.getD text = (descriptor.rename names.rename).text := by
  obtain ⟨descriptor, hparse, h⟩ := Except.bind_eq_ok_iff.1 hmap
  cases h
  obtain ⟨-, rfl⟩ := Descriptor.parse_eq_ok_iff.1 hparse
  have hrename := Descriptor.getD_mapNamesM (g := names.mapClass) descriptor
  have hsame : (fun name => (names.mapClass name).getD name) = names.rename := rfl
  refine ⟨descriptor, hparse, ?_⟩
  rw [← hsame, ← hrename]
  exact Option.getD_map ..

/-- A signature that is renamed has the new names of its classes. -/
theorem exists_pieces_of_mapText (hmap : names.mapText .signature text = .ok mapped) :
    ∃ pieces, Signature.pieces text = .ok pieces ∧
      mapped.getD text = Signature.spell (pieces.map (Signature.Piece.rename names.rename)) := by
  obtain ⟨pieces, hpieces, h⟩ := Except.bind_eq_ok_iff.1 hmap
  cases h
  have hrename := Signature.getD_mapNamesM (g := names.mapClass) pieces
  rw [Signature.spell_pieces hpieces] at hrename
  exact ⟨pieces, hpieces, hrename⟩

theorem mapText_className (h : text.toList.head? ≠ some '[') :
    names.mapText .className text = .ok (names.mapClass text) :=
  if_neg h

/-- A class entry of an array is renamed like a descriptor. -/
theorem mapText_array (h : text.toList.head? = some '[') :
    names.mapText .className text = names.mapText .descriptor text :=
  if_pos h

/-- Whether a text can be renamed does not depend on the rules. -/
theorem exists_mapText {found : List String} (h : role.classNames text = .ok found) :
    ∃ mapped, names.mapText role text = .ok mapped := by
  have hdescriptor : ∀ {found : List String}, TypeRole.descriptor.classNames text = .ok found →
      ∃ mapped, names.mapText .descriptor text = .ok mapped := by
    intro found hfound
    obtain ⟨descriptor, hparse, -⟩ := Except.map_eq_ok_iff.1 hfound
    exact ⟨_, Except.bind_eq_ok_iff.2 ⟨descriptor, hparse, rfl⟩⟩
  cases role with
  | className =>
      by_cases hhead : text.toList.head? = some '['
      · rw [mapText_array hhead]
        exact hdescriptor ((if_pos hhead).symm.trans h)
      · exact ⟨_, mapText_className hhead⟩
  | descriptor => exact hdescriptor h
  | signature =>
      obtain ⟨pieces, hpieces, -⟩ := Except.map_eq_ok_iff.1 h
      exact ⟨_, Except.bind_eq_ok_iff.2 ⟨pieces, hpieces, rfl⟩⟩

theorem getD_mapText_of_rename_eq (hrename : names.rename = id)
    (hmap : names.mapText role text = .ok mapped) : mapped.getD text = text := by
  have hdescriptor : names.mapText .descriptor text = .ok mapped → mapped.getD text = text := by
    intro hmap
    obtain ⟨descriptor, hparse, htext⟩ := exists_parse_of_mapText hmap
    rw [htext, hrename, Descriptor.rename_id, (Descriptor.parse_eq_ok_iff.1 hparse).2]
  cases role with
  | className =>
      by_cases hhead : text.toList.head? = some '['
      · rw [mapText_array hhead] at hmap
        exact hdescriptor hmap
      · obtain rfl := Except.ok.inj ((mapText_className hhead).symm.trans hmap)
        exact congrFun hrename text
  | descriptor => exact hdescriptor hmap
  | signature =>
      obtain ⟨pieces, hpieces, htext⟩ := exists_pieces_of_mapText hmap
      rw [htext, hrename, Signature.Piece.rename_id, List.map_id, Signature.spell_pieces hpieces]

section Admissible

variable (hadmissible : names.Admissible)

include hadmissible

theorem keepsNamed : Signature.KeepsNamed names.rename := by
  rintro name ⟨hne, hchars⟩
  refine ⟨rename_ne_empty hadmissible hne, rename_all hadmissible ?_ hchars⟩
  rintro c ⟨hdot, hsemicolon, -, hless⟩
  simp [Signature.takeName.inName, hdot, hsemicolon, hless]

theorem enclosable_rename (name : String) (hname : Enclosable name) :
    Enclosable (names.rename name) := by
  refine ⟨rename_ne_empty hadmissible hname.1, fun hmem => ?_⟩
  have hchars : ∀ c ∈ (names.rename name).toList, c ≠ ';' :=
    rename_all hadmissible (fun c hc => hc.2.1) fun c hc hsemicolon => hname.2 (hsemicolon ▸ hc)
  exact hchars ';' hmem rfl

theorem parse_rename {descriptor : Descriptor} (hparse : Descriptor.parse text = .ok descriptor) :
    Descriptor.parse (descriptor.rename names.rename).text =
      .ok (descriptor.rename names.rename) := by
  obtain ⟨hreadable, -⟩ := Descriptor.parse_eq_ok_iff.1 hparse
  refine Descriptor.parse_eq_ok_iff.2 ⟨?_, rfl⟩
  exact Descriptor.readable_rename (enclosable_rename hadmissible) hreadable

theorem classNames_mapText_descriptor (hmap : names.mapText .descriptor text = .ok mapped) :
    ∃ found, TypeRole.descriptor.classNames text = .ok found ∧
      TypeRole.descriptor.classNames (mapped.getD text) = .ok (found.map names.rename) := by
  obtain ⟨descriptor, hparse, htext⟩ := exists_parse_of_mapText hmap
  refine ⟨descriptor.classNames, Except.map_eq_ok_iff.2 ⟨descriptor, hparse, rfl⟩, ?_⟩
  rw [htext]
  exact Except.map_eq_ok_iff.2
    ⟨_, parse_rename hadmissible hparse, Descriptor.classNames_rename descriptor⟩

/-- A class entry is that of an array before it is renamed if it is afterwards. -/
theorem head?_mapText_className (hmap : names.mapText .className text = .ok mapped) :
    (mapped.getD text).toList.head? = some '[' ↔ text.toList.head? = some '[' := by
  by_cases hhead : text.toList.head? = some '['
  · rw [mapText_array hhead] at hmap
    obtain ⟨descriptor, hparse, htext⟩ := exists_parse_of_mapText hmap
    obtain ⟨-, rfl⟩ := Descriptor.parse_eq_ok_iff.1 hparse
    rw [htext]
    exact iff_of_true (Descriptor.head?_text_rename hhead) hhead
  · obtain rfl := Except.ok.inj ((mapText_className hhead).symm.trans hmap)
    refine iff_of_false ?_ hhead
    rcases head?_rename hadmissible text with heq | ⟨c, hc, -, -, hbracket, -⟩
    · exact heq ▸ hhead
    · intro hnew
      exact hbracket (Option.some.inj (hc.symm.trans hnew))

theorem classNames_mapText_className (hmap : names.mapText .className text = .ok mapped) :
    ∃ found, TypeRole.className.classNames text = .ok found ∧
      TypeRole.className.classNames (mapped.getD text) = .ok (found.map names.rename) := by
  have hnew := head?_mapText_className hadmissible hmap
  by_cases hhead : text.toList.head? = some '['
  · rw [mapText_array hhead] at hmap
    obtain ⟨found, hfound, hrenamed⟩ := classNames_mapText_descriptor hadmissible hmap
    exact ⟨found, (if_pos hhead).trans hfound, (if_pos (hnew.2 hhead)).trans hrenamed⟩
  · obtain rfl := Except.ok.inj ((mapText_className hhead).symm.trans hmap)
    exact ⟨[text], if_neg hhead, if_neg (mt hnew.1 hhead)⟩

theorem becomes_mapText_signature (hmap : names.mapText .signature text = .ok mapped) :
    ∃ found found', TypeRole.signature.classNames text = .ok found ∧
      TypeRole.signature.classNames (mapped.getD text) = .ok found' ∧
        List.Forall₂ (Signature.Becomes names.rename) found found' := by
  obtain ⟨pieces, hpieces, htext⟩ := exists_pieces_of_mapText hmap
  obtain ⟨pieces', hbecomes, hpieces'⟩ :=
    Signature.pieces_becomes (keepsNamed hadmissible) hpieces
  rw [htext]
  exact ⟨_, _, Except.map_eq_ok_iff.2 ⟨pieces, hpieces, rfl⟩,
    Except.map_eq_ok_iff.2 ⟨pieces', hpieces', rfl⟩, Signature.related_classNames hbecomes⟩

/-- A text that is renamed in its role names what the classes become. Only the classes nested in
those of a signature may miss a rule of their own. -/
theorem becomes_mapText (hmap : names.mapText role text = .ok mapped) :
    ∃ found found', role.classNames text = .ok found ∧
      role.classNames (mapped.getD text) = .ok found' ∧
        (found' = found.map names.rename ∨ role = .signature ∧
          List.Forall₂ (Signature.Becomes names.rename) found found') := by
  cases role with
  | className =>
      obtain ⟨found, hfound, hrenamed⟩ := classNames_mapText_className hadmissible hmap
      exact ⟨found, _, hfound, hrenamed, Or.inl rfl⟩
  | descriptor =>
      obtain ⟨found, hfound, hrenamed⟩ := classNames_mapText_descriptor hadmissible hmap
      exact ⟨found, _, hfound, hrenamed, Or.inl rfl⟩
  | signature =>
      obtain ⟨found, found', hfound, hrenamed, hbecomes⟩ :=
        becomes_mapText_signature hadmissible hmap
      exact ⟨found, found', hfound, hrenamed, Or.inr ⟨rfl, hbecomes⟩⟩

/-- The name of a class that no class is an element of changes like the name of a class. -/
theorem getD_mapText_className (hsemicolon : text.toList.head? = some '[' → ';' ∉ text.toList)
    (hmap : names.mapText .className text = .ok mapped) : mapped.getD text = names.rename text := by
  by_cases hhead : text.toList.head? = some '['
  · rw [mapText_array hhead] at hmap
    obtain ⟨descriptor, hparse, htext⟩ := exists_parse_of_mapText hmap
    obtain ⟨-, rfl⟩ := Descriptor.parse_eq_ok_iff.1 hparse
    rw [htext, rename_of_head?_bracket hadmissible hhead]
    cases descriptor with
    | void => rfl
    | field type =>
        rcases type with ⟨rank, base | name⟩
        · rfl
        · refine absurd ?_ (hsemicolon hhead)
          simp [Descriptor.text, FieldType.text, FieldType.chars, ElementType.chars]
    | method type =>
        rw [Descriptor.text, Descriptor.head?_text_method] at hhead
        cases hhead
  · obtain rfl := Except.ok.inj ((mapText_className hhead).symm.trans hmap)
    rfl

end Admissible

theorem follows (hlegal : names.Legal) : Signature.Follows names.rename :=
  ⟨keepsNamed hlegal.admissible, rename_nested hlegal⟩

/-- A text that is renamed in its role names the renamed classes in it, when no rule is for a
nested class. -/
theorem classNames_mapText (hlegal : names.Legal) (hmap : names.mapText role text = .ok mapped) :
    ∃ found, role.classNames text = .ok found ∧
      role.classNames (mapped.getD text) = .ok (found.map names.rename) := by
  obtain ⟨found, found', hfound, hrenamed, rfl | ⟨-, hbecomes⟩⟩ :=
    becomes_mapText hlegal.admissible hmap
  · exact ⟨found, hfound, hrenamed⟩
  · have hsame : found.map names.rename = found'.map id :=
      map_eq_map_of_related hbecomes fun _ _ h => ((follows hlegal).eq_of_becomes h).symm
    rw [List.map_id] at hsame
    exact ⟨found, hfound, hsame ▸ hrenamed⟩

end Renaming

end JarTailor
