import JarTailor.Failure

/-!
# Written JSON

Values are written over several lines, each level indented by two more spaces. Only what has to be
escaped is.
-/

namespace JarTailor

inductive JsonValue where
  | text (content : String)
  | array (items : List JsonValue)
  | object (fields : List (String × JsonValue))

namespace JsonValue

def escape (c : Char) : String :=
  if c = '"' then "\\\""
  else if c = '\\' then "\\\\"
  else if c = '\n' then "\\n"
  else if c = '\r' then "\\r"
  else if c = '\t' then "\\t"
  else if c = '\x08' then "\\b"
  else if c = '\x0c' then "\\f"
  else if c.toNat < 0x20 then "\\u" ++ hexNumber 4 c.toNat
  else String.singleton c

def quote (text : String) : String :=
  "\"" ++ String.join (text.toList.map escape) ++ "\""

/-- The start of a line at a level. -/
def newline (level : Nat) : String :=
  "\n" ++ String.ofList (List.replicate (2 * level) ' ')

/-- Written items between brackets, each on a line of its own. -/
def bracket (level : Nat) (start finish : String) : List String → String
  | [] => start ++ finish
  | items =>
      start ++ ",".intercalate (items.map fun item => newline (level + 1) ++ item) ++
        newline level ++ finish

mutual

/-- A value whose first line is at a level already. -/
def write (level : Nat) : JsonValue → String
  | text content => quote content
  | array items => bracket level "[" "]" (writeItems (level + 1) items)
  | object fields => bracket level "\x7b" "\x7d" (writeFields (level + 1) fields)

def writeItems (level : Nat) : List JsonValue → List String
  | [] => []
  | item :: items => item.write level :: writeItems level items

def writeFields (level : Nat) : List (String × JsonValue) → List String
  | [] => []
  | (key, value) :: fields =>
      (quote key ++ ": " ++ value.write level) :: writeFields level fields

end

/-- A value as a document of its own. -/
def document (value : JsonValue) : String :=
  value.write 0 ++ "\n"

end JsonValue

end JarTailor
