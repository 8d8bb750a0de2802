import JarTailor.Proofs.Toml.Strings
import JarTailor.Toml.Document

/-!
# Written lines are read back

The machine that reads documents goes through written text piece by piece. A line with a field adds
the field to the table that the last header leads to, and a line with a header opens a table.
-/

namespace JarTailor.Toml.Document

/-- Reads on in a text. -/
def run (state : State) (input : List Char) : Option State := do
  (← Lex.between input).foldlM step state

/-- Whatever follows the text, reading it leads from one state to another. -/
def Reads (before : State) (text : String) (after : State) : Prop :=
  ∀ rest, run before (text.toList ++ rest) = run after rest

section Pieces

variable {state before middle after : State} {rest : List Char}

theorem run_nil (state : State) : run state [] = some state := by
  rw [run, Lex.between]
  rfl

theorem run_of_between {token : Token} {input : List Char}
    (h : Lex.between input = (token :: ·) <$> Lex.between rest) :
    run state input = (step state token).bind fun after => run after rest := by
  rw [run, h]
  cases hrest : Lex.between rest with
  | none => cases hstep : step state token <;> simp [run, hrest]
  | some tokens => cases hstep : step state token <;> simp [run, hrest, hstep]

theorem run_space : run state (' ' :: rest) = run state rest := by
  rw [run, Lex.between, run]

theorem run_newline :
    run state ('\n' :: rest) = (step state .newline).bind fun after => run after rest :=
  run_of_between (by rw [Lex.between])

theorem run_equals :
    run state ('=' :: rest) = (step state .equals).bind fun after => run after rest :=
  run_of_between (by rw [Lex.between])

theorem run_comma :
    run state (',' :: rest) = (step state .comma).bind fun after => run after rest :=
  run_of_between (by rw [Lex.between])

theorem run_opening :
    run state ('[' :: rest) =
      (step state (.opening (Lex.startsWith '[' rest))).bind fun after => run after rest :=
  run_of_between (by rw [Lex.between])

theorem run_closing :
    run state (']' :: rest) =
      (step state (.closing (Lex.startsWith ']' rest))).bind fun after => run after rest :=
  run_of_between (by rw [Lex.between])

theorem startsWith_self (c : Char) : Lex.startsWith c (c :: rest) = true :=
  beq_self_eq_true c

theorem Reads.refl (state : State) : Reads state "" state := fun _ => rfl

theorem Reads.append {text text' : String} (h : Reads before text middle)
    (h' : Reads middle text' after) : Reads before (text ++ text') after := by
  intro rest
  rw [String.toList_append, List.append_assoc, h, h']

end Pieces

/-! ## Keys -/

/-- A key that may be written without quotes. -/
def IsWord (key : String) : Prop :=
  key.toList ≠ [] ∧ ∀ c ∈ key.toList, Lex.isWordChar c = true

instance (key : String) : Decidable (IsWord key) :=
  decidable_of_iff (!key.toList.isEmpty && key.toList.all Lex.isWordChar) (by simp [IsWord])

section Keys

variable {state : State} {word rest : List Char} {c d : Char}

theorem ne_of_isWordChar (h : Lex.isWordChar c = true) (hd : Lex.isWordChar d = false) :
    c ≠ d := by
  rintro rfl
  exact nomatch h.symm.trans hd

theorem continuesBare_of_isWordChar (h : Lex.isWordChar c = true) :
    Lex.continuesBare (c :: rest) = true := by
  have hspace := ne_of_isWordChar h (d := ' ') rfl
  simp [Lex.continuesBare, Lex.isBareChar, hspace, h]

theorem bare_word {taken : List Char} (hword : ∀ c ∈ word, Lex.isWordChar c = true)
    (hrest : Lex.continuesBare rest = false) :
    Lex.bare taken (c :: (word ++ rest)) =
      (.bare (Lex.spell (word.reverse ++ c :: taken)) :: ·) <$> Lex.between rest := by
  induction word generalizing c taken with
  | nil => simp [Lex.bare, hrest]
  | cons d word ih =>
      obtain ⟨hd, hword⟩ := List.forall_mem_cons.1 hword
      rw [Lex.bare, List.cons_append, if_pos (continuesBare_of_isWordChar hd), ih hword,
        List.reverse_cons, List.append_assoc, List.singleton_append]

theorem between_word {key : String} (hkey : IsWord key) (hrest : Lex.continuesBare rest = false) :
    Lex.between (key.toList ++ rest) = (.bare key :: ·) <$> Lex.between rest := by
  obtain ⟨hne, hword⟩ := hkey
  obtain ⟨c, word, htext⟩ := List.exists_cons_of_ne_nil hne
  have hkey : key = String.ofList (c :: word) := by rw [← htext, String.ofList_toList]
  rw [htext] at hword ⊢
  obtain ⟨hc, hword⟩ := List.forall_mem_cons.1 hword
  have hbare : Lex.isBareChar c = true := by simp [Lex.isBareChar, hc]
  rw [List.cons_append, Lex.between, if_neg (by simp [hbare])]
  · cases word with
    | nil => rw [List.nil_append, if_neg (by simp [hrest]), hkey, Lex.spell, List.reverse_singleton]
    | cons d word =>
        obtain ⟨hd, hword⟩ := List.forall_mem_cons.1 hword
        rw [List.cons_append, if_pos (continuesBare_of_isWordChar hd), bare_word hword hrest, hkey,
          Lex.spell, List.reverse_append, List.reverse_reverse]
        rfl
  -- a word begins with none of the characters that other tokens begin with
  all_goals
    intros
    exact absurd ‹c = _› (ne_of_isWordChar hc rfl)

theorem keyPieces_word (hword : ∀ c ∈ word, Lex.isWordChar c = true)
    (hc : Lex.isWordChar c = true) : keyPieces (c :: word) = some [.part (c :: word)] := by
  have hspace := ne_of_isWordChar hc (d := ' ') rfl
  have hdot := ne_of_isWordChar hc (d := '.') rfl
  induction word generalizing c with
  | nil => simp [keyPieces, hspace, hdot, hc, startsWord]
  | cons d word ih =>
      obtain ⟨hd, hword⟩ := List.forall_mem_cons.1 hword
      have hrest := ih hword hd (ne_of_isWordChar hd rfl) (ne_of_isWordChar hd rfl)
      rw [keyPieces, hrest]
      simp [hspace, hdot, hc, startsWord, hd]

theorem keyPieces_of_isWord {key : String} (hkey : IsWord key) :
    keyPieces key.toList = some [.part key.toList] := by
  obtain ⟨hne, hword⟩ := hkey
  obtain ⟨c, word, htext⟩ := List.exists_cons_of_ne_nil hne
  rw [htext] at hword ⊢
  obtain ⟨hc, hword⟩ := List.forall_mem_cons.1 hword
  exact keyPieces_word hword hc

end Keys

/-! ## Fields -/

/-- Between lines, under a header. -/
def atLine (root : Entries) (header : List String) : State :=
  ⟨root, header, [], .expression⟩

/-- Behind a key and its equals sign. -/
def atValue (root : Entries) (header : List String) (key : String) : State :=
  ⟨root, header, [.pair [] key], .value⟩

section Fields

variable {root changed : Entries} {header : List String} {key : String} {rest : List Char}

theorem run_key (hkey : IsWord key) :
    run (atLine root header) (key.toList ++ (' ' :: '=' :: ' ' :: rest)) =
      run (atValue root header key) rest := by
  have hpart : step (atLine root header) (.bare key) =
      some ⟨root, header, [], .keyRest [key]⟩ := by
    simp [step, atLine, keyPieces_of_isWord hkey, stepKey, withPart, depthLimit]
  have hequals : step ⟨root, header, [], .keyRest [key]⟩ .equals =
      some (atValue root header key) := rfl
  rw [run_of_between (between_word hkey rfl), hpart, Option.bind_some, run_space, run_equals,
    hequals, Option.bind_some, run_space]

/-- The text of a value is read as the value, which becomes that of the key. -/
def Spells (text : String) (value : Value) : Prop :=
  ∀ {root changed : Entries} {header : List String} {key : String},
    root.modifyAt header (Entries.insert [] key value) = some changed →
      ∀ {rest : List Char}, Ends rest →
        run (atValue root header key) (text.toList ++ rest) =
          run ⟨changed, header, [], .lineEnd⟩ rest

theorem ends_cons {c : Char} (hquote : c ≠ '"') (happostrophe : c ≠ '\'') : Ends (c :: rest) where
  quote _ h := hquote (List.cons.inj h).1
  apostrophe _ h := happostrophe (List.cons.inj h).1

/-- A line with a key and a value adds the value. -/
theorem reads_writeField {text : String} {value : Value} (hkey : IsWord key)
    (hvalue : Spells text value)
    (h : root.modifyAt header (Entries.insert [] key value) = some changed) :
    Reads (atLine root header) (writeField key text) (atLine changed header) := by
  intro rest
  have hend : step ⟨changed, header, [], .lineEnd⟩ .newline = some (atLine changed header) := rfl
  have hlines : " = ".toList = [' ', '=', ' '] := rfl
  have hline : "\n".toList = ['\n'] := rfl
  simp only [writeField, String.toList_append, hlines, hline, List.append_assoc,
    List.cons_append, List.nil_append]
  rw [run_key hkey, hvalue h (ends_cons (by decide) (by decide)), run_newline, hend,
    Option.bind_some]

theorem spells_writeString (text : String) : Spells (writeString text) (.string text) := by
  intro root changed header key h rest hrest
  obtain ⟨isLong, hstring⟩ := exists_between_writeString text hrest
  have hstep : step (atValue root header key) (.string isLong text) =
      some ⟨changed, header, [], .lineEnd⟩ := by
    simp [step, atValue, beginValue, finish, h]
  rw [run_of_between hstring, hstep, Option.bind_some]

/-- In an array, with the items read so far, the last one first. -/
def inArray (root : Entries) (header : List String) (key : String) (items : List Value)
    (expect : Expect) : State :=
  ⟨root, header, [.array items, .pair [] key], expect⟩

theorem run_item {items : List Value} {text : String} (hrest : Ends rest) :
    run (inArray root header key items .item) ((writeString text).toList ++ rest) =
      run (inArray root header key (.string text :: items) .itemRest) rest := by
  obtain ⟨isLong, hstring⟩ := exists_between_writeString text hrest
  have hstep : step (inArray root header key items .item) (.string isLong text) =
      some (inArray root header key (.string text :: items) .itemRest) := rfl
  rw [run_of_between hstring, hstep, Option.bind_some]

theorem reads_items (texts : List String) (items : List Value) :
    Reads (inArray root header key items .item)
      (String.join (texts.map fun text => "    " ++ writeString text ++ ",\n"))
      (inArray root header key ((texts.map Value.string).reverse ++ items) .item) := by
  induction texts generalizing items with
  | nil => exact .refl _
  | cons text texts ih =>
      rw [List.map_cons, String.join_cons, List.map_cons, List.reverse_cons, List.append_assoc,
        List.singleton_append]
      refine Reads.append (fun rest => ?_) (ih _)
      have hspaces : "    ".toList = [' ', ' ', ' ', ' '] := rfl
      have hcomma : ",\n".toList = [',', '\n'] := rfl
      have hafter : step (inArray root header key (.string text :: items) .itemRest) .comma =
          some (inArray root header key (.string text :: items) .item) := rfl
      have hline : step (inArray root header key (.string text :: items) .item) .newline =
          some (inArray root header key (.string text :: items) .item) := rfl
      simp only [String.toList_append, hspaces, hcomma, List.append_assoc, List.cons_append,
        List.nil_append, run_space]
      rw [run_item (ends_cons (by decide) (by decide)), run_comma, hafter, Option.bind_some,
        run_newline, hline, Option.bind_some]

theorem spells_writeStrings (texts : List String) :
    Spells (writeStrings texts) (.array (texts.map Value.string)) := by
  intro root changed header key h rest _
  have hopen (doubled : Bool) : step (atValue root header key) (.opening doubled) =
      some (inArray root header key [] .item) := rfl
  have hclose {items : List Value} {expect : Expect} (hitems : items.reverse = texts.map .string)
      (hexpect : expect = .item ∨ expect = .itemRest) (doubled : Bool) :
      step (inArray root header key items expect) (.closing doubled) =
        some ⟨changed, header, [], .lineEnd⟩ := by
    rcases hexpect with rfl | rfl
    · simp [step, inArray, endArray, finish, hitems, h]
    · simp [step, inArray, endArray, finish, hitems, h]
  match texts with
  | [] =>
      have hempty : (writeStrings []).toList = ['[', ']'] := rfl
      rw [hempty, List.cons_append, List.singleton_append, run_opening, hopen, Option.bind_some,
        run_closing, hclose rfl (.inl rfl), Option.bind_some]
  | [text] =>
      have hbrackets : "[".toList = ['['] ∧ "]".toList = [']'] := ⟨rfl, rfl⟩
      simp only [writeStrings, String.toList_append, hbrackets, List.append_assoc,
        List.cons_append, List.nil_append]
      rw [run_opening, hopen, Option.bind_some, run_item (ends_cons (by decide) (by decide)),
        run_closing, hclose rfl (.inr rfl), Option.bind_some]
  | first :: second :: others =>
      have hbrackets : "[\n".toList = ['[', '\n'] ∧ "]".toList = [']'] := ⟨rfl, rfl⟩
      have hline : step (inArray root header key [] .item) .newline =
          some (inArray root header key [] .item) := rfl
      simp only [writeStrings, String.toList_append, hbrackets, List.append_assoc,
        List.cons_append, List.nil_append]
      rw [run_opening, hopen, Option.bind_some, run_newline, hline, Option.bind_some, reads_items,
        run_closing, hclose _ (.inl rfl), Option.bind_some]
      rw [List.append_nil, List.reverse_reverse]

end Fields

/-! ## Headers -/

/-- A line with a double-bracket header opens a table. -/
theorem reads_header {root changed : Entries} {header : List String} {key : String}
    (hkey : IsWord key) (h : root.openTables [] key = some changed) :
    Reads (atLine root header) ("\n[[" ++ key ++ "]]\n") (atLine changed [key]) := by
  intro rest
  have hopen : "\n[[".toList = ['\n', '[', '['] := rfl
  have hclose : "]]\n".toList = [']', ']', '\n'] := rfl
  have hpart : step ⟨root, header, [], .headerKey true []⟩ (.bare key) =
      some ⟨root, header, [], .headerRest true [key]⟩ := by
    simp [step, keyPieces_of_isWord hkey, stepKey, withPart, depthLimit]
  have hheader (doubled : Bool) : step ⟨root, header, [], .headerClose [key]⟩ (.closing doubled) =
      some ⟨changed, [key], [], .lineEnd⟩ := by
    simp [step, openHeader, h]
  have hblank : step (atLine root header) .newline = some (atLine root header) := rfl
  have hfirst : step (atLine root header) (.opening true) =
      some ⟨root, header, [], .headerOpen⟩ := rfl
  have hsecond (doubled : Bool) : step ⟨root, header, [], .headerOpen⟩ (.opening doubled) =
      some ⟨root, header, [], .headerKey true []⟩ := rfl
  have hthird : step ⟨root, header, [], .headerRest true [key]⟩ (.closing true) =
      some ⟨root, header, [], .headerClose [key]⟩ := rfl
  have hline : step ⟨changed, [key], [], .lineEnd⟩ .newline = some (atLine changed [key]) := rfl
  simp only [String.toList_append, hopen, hclose, List.append_assoc, List.cons_append,
    List.nil_append]
  rw [run_newline, hblank, Option.bind_some, run_opening, startsWith_self, hfirst,
    Option.bind_some, run_opening, hsecond, Option.bind_some,
    run_of_between (between_word hkey rfl), hpart, Option.bind_some, run_closing, startsWith_self,
    hthird, Option.bind_some, run_closing, hheader, Option.bind_some, run_newline, hline,
    Option.bind_some]

end JarTailor.Toml.Document

namespace JarTailor.Toml

theorem parse_of_reads {text : String} {root : Entries} {header : List String}
    (hmark : text.toList.head? ≠ some '\ufeff')
    (h : Document.Reads Document.start text (Document.atLine root header)) :
    parse text = some root := by
  have htokens : tokens text = Lex.between text.toList := by
    unfold tokens
    split
    · next heq => exact absurd (congrArg List.head? heq) hmark
    · rfl
  have hrun := h []
  rw [List.append_nil, Document.run_nil] at hrun
  obtain ⟨found, hfound, hsteps⟩ := Option.bind_eq_some_iff.1 hrun
  exact Option.bind_eq_some_iff.2 ⟨found, htokens.trans hfound,
    Option.bind_eq_some_iff.2 ⟨_, hsteps, rfl⟩⟩

end JarTailor.Toml
