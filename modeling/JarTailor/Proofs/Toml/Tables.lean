import JarTailor.Proofs.Toml.Lines

/-!
# Tables of written lines

Lines with fields add to the table that the last header leads to. Each double-bracket header adds
such a table to those of its key.
-/

namespace JarTailor.Toml

namespace Entries

variable {entries others : Entries} {key : String} {value : Value}

def keys (entries : Entries) : List String :=
  entries.map Prod.fst

theorem keys_append (entries others : Entries) :
    keys (entries ++ others) = keys entries ++ keys others :=
  List.map_append

@[simp] theorem find?_append (entries others : Entries) (key : String) :
    find? (entries ++ others) key = (find? entries key).or (find? others key) := by
  rw [find?, List.find?_append, Option.map_or, find?, find?]

theorem find?_singleton (key other : String) (value : Value) :
    find? [(key, value)] other = if key = other then some value else none := by
  by_cases h : key = other <;> simp [find?, h]

theorem find?_eq_none_iff : find? entries key = none ↔ key ∉ keys entries := by
  rw [find?, Option.map_eq_none_iff, List.find?_eq_none, keys, List.mem_map, not_exists]
  simp only [beq_iff_eq, not_and]

theorem replace_of_notMem (h : key ∉ keys entries) : replace entries key value = entries := by
  refine (List.map_congr_left fun entry hentry => if_neg ?_).trans (List.map_id _)
  rintro rfl
  exact h (List.mem_map_of_mem hentry)

theorem insert_of_notMem (h : key ∉ keys entries) :
    insert [] key value entries = some (entries ++ [(key, value)]) := by
  rw [insert, find?_eq_none_iff.2 h]
  rfl

/-- Behind entries with other keys a key has the value that it is given there. -/
theorem find?_append_singleton (h : key ∉ keys entries) :
    find? (entries ++ [(key, value)]) key = some value := by
  rw [find?_append, find?_eq_none_iff.2 h, find?_singleton, if_pos rfl, Option.none_or]

theorem replace_append_singleton (h : key ∉ keys entries) (value changed : Value) :
    replace (entries ++ [(key, value)]) key changed = entries ++ [(key, changed)] := by
  have happend : replace (entries ++ [(key, value)]) key changed =
      replace entries key changed ++ replace [(key, value)] key changed := List.map_append
  rw [happend, replace_of_notMem h]
  simp [replace]

end Entries

open Entries Document

/-! ## Fields -/

/-- A header leads to a table, which has this place in the document. -/
def Leads (header : List String) (place : Entries → Entries) : Prop :=
  ∀ change table, modifyAt header change (place table) = (change table).map place

theorem leads_root : Leads [] id := by
  intro change table
  rw [modifyAt, Option.map_id]
  rfl

theorem leads_tables {before : Entries} {key : String} (h : key ∉ keys before)
    (earlier : List Entries) :
    Leads [key] fun table => before ++ [(key, .tables (table :: earlier))] := by
  intro change table
  simp only [modifyAt, find?_append_singleton h, replace_append_singleton h]

/-- Wherever a header leads to, lines add entries to the table there if these have keys of their
own. -/
def Adds (text : String) (added : Entries) : Prop :=
  ∀ header place, Leads header place →
    ∀ table : Entries, (keys (table ++ added)).Nodup →
      Reads (atLine (place table) header) text (atLine (place (table ++ added)) header)

theorem adds_nil : Adds "" [] := by
  intro header place _ table _
  rw [List.append_nil]
  exact .refl _

theorem Adds.append {text text' : String} {added added' : Entries} (h : Adds text added)
    (h' : Adds text' added') : Adds (text ++ text') (added ++ added') := by
  intro header place hplace table hkeys
  rw [← List.append_assoc] at hkeys ⊢
  refine (h header place hplace table ?_).append (h' header place hplace _ hkeys)
  rw [keys_append] at hkeys
  exact (List.nodup_append.1 hkeys).1

theorem adds_writeField {key text : String} {value : Value} (hkey : IsWord key)
    (hvalue : Spells text value) : Adds (writeField key text) [(key, value)] := by
  intro header place hplace table hkeys
  have hfresh : key ∉ keys table := by
    rw [keys_append] at hkeys
    exact fun hmem => (List.nodup_append.1 hkeys).2.2 key hmem key List.mem_cons_self rfl
  refine reads_writeField hkey hvalue ?_
  rw [hplace, insert_of_notMem hfresh, Option.map_some]

/-! ## Tables -/

/-- What double-bracket headers make of the tables of a key. -/
def tablesOf (key : String) (tables : List Entries) : Entries :=
  if tables.isEmpty then [] else [(key, .tables tables.reverse)]

@[simp] theorem find?_tablesOf (key other : String) (tables : List Entries) :
    find? (tablesOf key tables) other =
      if key = other ∧ tables ≠ [] then some (.tables tables.reverse) else none := by
  cases tables with
  | nil => simp [tablesOf, find?]
  | cons table tables => simp [tablesOf, find?_singleton]

theorem openTables_tablesOf {before : Entries} {key : String} (h : key ∉ keys before)
    (tables : List Entries) :
    openTables [] key (before ++ tablesOf key tables) =
      some (before ++ [(key, .tables ([] :: tables.reverse))]) := by
  rw [openTables, modifyAt]
  cases tables with
  | nil =>
      have hnone : find? (before ++ tablesOf key []) key = none := by
        rw [find?_append, find?_eq_none_iff.2 h, find?_tablesOf]
        simp
      rw [hnone]
      simp [tablesOf, add]
  | cons table tables =>
      have hsome : tablesOf key (table :: tables) =
          [(key, .tables (table :: tables).reverse)] := rfl
      rw [hsome, find?_append_singleton h]
      simp only [replace_append_singleton h]

/-- A header and the lines of its table add this table to those of the key. -/
theorem reads_table {before table : Entries} {header : List String} {key text : String}
    (hkey : IsWord key) (hfresh : key ∉ keys before) (tables : List Entries)
    (htext : Adds text table) (hkeys : (keys table).Nodup) :
    Reads (atLine (before ++ tablesOf key tables) header) ("\n[[" ++ key ++ "]]\n" ++ text)
      (atLine (before ++ tablesOf key (tables ++ [table])) [key]) := by
  refine (reads_header hkey (openTables_tablesOf hfresh tables)).append ?_
  have hlast : tablesOf key (tables ++ [table]) = [(key, .tables (table :: tables.reverse))] := by
    simp [tablesOf]
  rw [hlast]
  exact htext [key] _ (leads_tables hfresh tables.reverse) [] hkeys

end JarTailor.Toml
