import JarTailor.Toml.Bare
import JarTailor.Toml.Value

/-!
# TOML documents

A document is read token by token by a machine. It knows what may come next, the header it is
under, and the unfinished constructs around it, the innermost first.
-/

namespace JarTailor.Toml

namespace Document

inductive Frame where
  /-- A key whose value is still to come: the parts before the last, and the last. -/
  | pair (path : List String) (key : String)
  /-- An array; its items so far, the last one first. -/
  | array (items : List Value)
  | inlineTable (entries : Entries)
deriving Repr, Inhabited

/-- What may come next. The parts of a key come with the last one first. -/
inductive Expect where
  | expression
  | lineEnd
  /-- The second bracket of a double-bracket header. -/
  | headerOpen
  | headerKey (double : Bool) (parts : List String)
  | headerRest (double : Bool) (parts : List String)
  /-- The last bracket of a double-bracket header. -/
  | headerClose (parts : List String)
  | key (parts : List String)
  | keyRest (parts : List String)
  | value
  /-- An item of an array, or its end. -/
  | item
  | itemRest
  /-- The first key of an inline table, or its end. -/
  | field
  | fieldRest
deriving Repr, DecidableEq, Inhabited

structure State where
  root : Entries
  header : List String
  frames : List Frame
  expect : Expect
deriving Repr, Inhabited

def start : State := ⟨[], [], [], .expression⟩

/-- What keys are written with. -/
inductive KeyPiece where
  | part (text : List Char)
  | dot
deriving Repr, DecidableEq, Inhabited

def startsWord : List Char → Bool
  | c :: _ => Lex.isWordChar c
  | [] => false

/-- The pieces of a key that a bare text spells. -/
def keyPieces : List Char → Option (List KeyPiece)
  | [] => some []
  | c :: rest => do
      let pieces ← keyPieces rest
      if c = ' ' then some pieces
      else if c = '.' then some (.dot :: pieces)
      else if !Lex.isWordChar c then none
      else
        match startsWord rest, pieces with
        | true, .part text :: others => some (.part (c :: text) :: others)
        | _, pieces => some (.part [c] :: pieces)

/-- Values are nested less deep than this, and keys have fewer parts. -/
def depthLimit : Nat := 80

def depth (frames : List Frame) : Nat :=
  frames.countP fun
    | .pair .. => false
    | .array _ | .inlineTable _ => true

/-- Puts a finished value where it belongs. -/
def finish (state : State) (frames : List Frame) (value : Value) : Option State :=
  match frames with
  | [.pair path key] =>
      (state.root.modifyAt state.header (Entries.insert path key value)).map fun root =>
        { state with root, frames := [], expect := .lineEnd }
  | .pair path key :: .inlineTable entries :: others =>
      (entries.insert path key value).map fun entries =>
        { state with frames := .inlineTable entries :: others, expect := .fieldRest }
  | .array items :: others =>
      some { state with frames := .array (value :: items) :: others, expect := .itemRest }
  | _ => none

/-- Opens the header whose parts are known, the last one first. -/
def openHeader (state : State) (double : Bool) : List String → Option State
  | [] => none
  | key :: before =>
      let path := before.reverse
      let root := if double then state.root.openTables path key else state.root.openTable path key
      root.map fun root => { state with root, header := path ++ [key], expect := .lineEnd }

/-- Starts a value that holds others. -/
def nest (state : State) (frame : Frame) (expect : Expect) : Option State :=
  let frames := frame :: state.frames
  if depth frames < depthLimit then some { state with frames, expect } else none

/-- Starts a value, or finishes it if one token is all of it. -/
def beginValue (state : State) : Token → Option State
  | .string _ text => finish state state.frames (.string text)
  | .bare text => if isBareValue text then finish state state.frames (.bare text) else none
  | .opening _ => nest state (.array []) .item
  | .openBrace => nest state (.inlineTable []) .field
  | _ => none

def endArray (state : State) : Option State :=
  match state.frames with
  | .array items :: others => finish state others (.array items.reverse)
  | _ => none

def endInlineTable (state : State) : Option State :=
  match state.frames with
  | .inlineTable entries :: others => finish state others (.table .inline entries)
  | _ => none

/-- With a part of a key read. -/
def withPart (state : State) (next : List String → Expect) (parts : List String)
    (text : List Char) : Option State :=
  let parts := String.ofList text :: parts
  if parts.length < depthLimit then some { state with expect := next parts } else none

def stepKey (state : State) (piece : KeyPiece) : Option State :=
  match state.expect, piece with
  | .expression, .part text => withPart state .keyRest [] text
  | .headerKey double parts, .part text => withPart state (.headerRest double) parts text
  | .headerRest double parts, .dot => some { state with expect := .headerKey double parts }
  | .key parts, .part text => withPart state .keyRest parts text
  | .keyRest parts, .dot => some { state with expect := .key parts }
  | .field, .part text => withPart state .keyRest [] text
  | _, _ => none

def step (state : State) (token : Token) : Option State :=
  match state.expect, token with
  | .expression, .newline => some state
  | .expression, .opening true => some { state with expect := .headerOpen }
  | .expression, .opening false => some { state with expect := .headerKey false [] }
  | .lineEnd, .newline => some { state with expect := .expression }
  | .headerOpen, .opening _ => some { state with expect := .headerKey true [] }
  | .headerRest false parts, .closing _ => openHeader state false parts
  | .headerRest true parts, .closing true => some { state with expect := .headerClose parts }
  | .headerClose parts, .closing _ => openHeader state true parts
  | .keyRest (key :: before), .equals =>
      some { state with frames := .pair before.reverse key :: state.frames, expect := .value }
  | .value, token => beginValue state token
  | .item, .newline => some state
  | .item, .closing _ => endArray state
  | .item, token => beginValue state token
  | .itemRest, .newline => some state
  | .itemRest, .comma => some { state with expect := .item }
  | .itemRest, .closing _ => endArray state
  | .field, .closeBrace => endInlineTable state
  | .fieldRest, .comma => some { state with expect := .key [] }
  | .fieldRest, .closeBrace => endInlineTable state
  | _, .bare text => do (← keyPieces text.toList).foldlM stepKey state
  | _, .string false text => stepKey state (.part text.toList)
  | _, _ => none

def close (state : State) : Option Entries :=
  match state.expect with
  | .expression | .lineEnd => some state.root
  | _ => none

end Document

def parse (text : String) : Option Entries := do
  let tokens ← tokens text
  let state ← tokens.foldlM Document.step Document.start
  Document.close state

end JarTailor.Toml
