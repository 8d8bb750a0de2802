/-!
# TOML values

A document is a table. Tables remember how they came about, because that decides what may still be
added to them: a header may open a table only once, and dotted keys may extend only tables that
dotted keys made.
-/

namespace JarTailor.Toml

inductive TableForm where
  /-- Opened by a header of its own. -/
  | header
  /-- Only passed through by longer headers. -/
  | passed
  /-- Made by dotted keys. -/
  | dotted
  | inline
deriving Repr, DecidableEq, Inhabited

inductive Value where
  | string (text : String)
  /-- A number, truth value, date or time, by its text. -/
  | bare (text : String)
  | array (items : List Value)
  | table (form : TableForm) (entries : List (String × Value))
  /-- The tables of double-bracket headers, the last one first. -/
  | tables (items : List (List (String × Value)))
deriving Repr, Inhabited

abbrev Entries := List (String × Value)

namespace Entries

def find? (entries : Entries) (key : String) : Option Value :=
  (List.find? (fun entry => entry.1 == key) entries).map Prod.snd

/-- With the value of a key, which the entries have, replaced. -/
def replace (entries : Entries) (key : String) (value : Value) : Entries :=
  entries.map fun entry => if entry.1 = key then (key, value) else entry

def add (entries : Entries) (key : String) (value : Value) : Entries :=
  entries ++ [(key, value)]

/-- Adds a value under a dotted key: the parts before the last, and the last. -/
def insert (path : List String) (key : String) (value : Value) (entries : Entries) :
    Option Entries :=
  match path with
  | [] =>
      match entries.find? key with
      | none => some (entries.add key value)
      | some _ => none
  | part :: path =>
      match entries.find? part with
      | none => (insert path key value []).map fun inner => entries.add part (.table .dotted inner)
      | some (.table .dotted inner) =>
          (insert path key value inner).map fun inner => entries.replace part (.table .dotted inner)
      | some (.table .passed inner) =>
          if path.isEmpty then none
          else (insert path key value inner).map fun inner =>
            entries.replace part (.table .passed inner)
      | some (.tables (last :: earlier)) =>
          if path.isEmpty then none
          else (insert path key value last).map fun last =>
            entries.replace part (.tables (last :: earlier))
      | _ => none

/-- Changes the table that a header leads to. Where it leads to tables, the last one is meant. -/
def modifyAt (path : List String) (change : Entries → Option Entries) (entries : Entries) :
    Option Entries :=
  match path with
  | [] => change entries
  | part :: path =>
      match entries.find? part with
      | none => (modifyAt path change []).map fun inner => entries.add part (.table .passed inner)
      | some (.table .inline _) => none
      | some (.table form inner) =>
          (modifyAt path change inner).map fun inner => entries.replace part (.table form inner)
      | some (.tables (last :: earlier)) =>
          (modifyAt path change last).map fun last =>
            entries.replace part (.tables (last :: earlier))
      | _ => none

/-- Opens the table of a header, which may have been passed through but not opened before. -/
def openTable (path : List String) (key : String) (entries : Entries) : Option Entries :=
  modifyAt path (fun entries =>
    match entries.find? key with
    | none => some (entries.add key (.table .header []))
    | some (.table .passed inner) => some (entries.replace key (.table .header inner))
    | _ => none) entries

/-- Opens a further table under a double-bracket header. -/
def openTables (path : List String) (key : String) (entries : Entries) : Option Entries :=
  modifyAt path (fun entries =>
    match entries.find? key with
    | none => some (entries.add key (.tables [[]]))
    | some (.tables items) => some (entries.replace key (.tables ([] :: items)))
    | _ => none) entries

end Entries

end JarTailor.Toml
