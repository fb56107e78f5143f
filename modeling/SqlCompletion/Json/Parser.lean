import SqlCompletion.Json.Lexeme
set_option autoImplicit false

/-!
# Reading JSON

The lexemes of a document are put together by a machine with a stack of open arrays and objects,
so that values may be nested to any depth.
-/

namespace SqlCompletion.Json

/-- An array or an object that is open, with what it holds so far, last part first. -/
inductive Frame where
  | array (items : List Json)
  | object (entries : List (Option String × Json))
  /-- An object with a key whose value is still to come. -/
  | entry (entries : List (Option String × Json)) (key : Option String)
  deriving Repr, Inhabited

/-- What may come next. -/
inductive Expect where
  /-- A value. -/
  | value
  /-- The first item of an array, or its end. -/
  | itemOrEnd
  /-- The first key of an object, or its end. -/
  | keyOrEnd
  /-- A key. -/
  | key
  /-- The colon behind a key. -/
  | colon
  /-- A comma, or the end of what is open. -/
  | commaOrEnd
  /-- Nothing: the document is read. -/
  | nothing (document : Json)
  deriving Repr, Inhabited

/-- How far a document is read. -/
structure Progress where
  expect : Expect := .value
  frames : List Frame := []
  deriving Repr, Inhabited

/-- A value is complete: it goes into the innermost open frame, or it is the document. -/
def finish (value : Json) : List Frame → Option Progress
  | [] => some ⟨.nothing value, []⟩
  | .array items :: frames => some ⟨.commaOrEnd, .array (value :: items) :: frames⟩
  | .entry entries key :: frames => some ⟨.commaOrEnd, .object ((key, value) :: entries) :: frames⟩
  | .object _ :: _ => none

/-- The innermost open frame is closed. -/
def close (bracket : Lexeme) : List Frame → Option Progress
  | .array items :: frames =>
    match bracket with
    | .closeArray => finish (.array items.reverse) frames
    | _ => none
  | .object entries :: frames =>
    match bracket with
    | .closeObject => finish (.object entries.reverse) frames
    | _ => none
  | _ => none

/-- A value starts. -/
def start (lexeme : Lexeme) (frames : List Frame) : Option Progress :=
  match lexeme with
  | .openArray => some ⟨.itemOrEnd, .array [] :: frames⟩
  | .openObject => some ⟨.keyOrEnd, .object [] :: frames⟩
  | .scalar value => finish value frames
  | _ => none

/-- A key is read. -/
def readKey (lexeme : Lexeme) : List Frame → Option Progress
  | .object entries :: frames =>
    match lexeme with
    | .scalar (.string key) => some ⟨.colon, .entry entries key :: frames⟩
    | _ => none
  | _ => none

/-- A comma is read: an array goes on with an item, an object with a key. -/
def afterComma : List Frame → Option Progress
  | .array items :: frames => some ⟨.value, .array items :: frames⟩
  | .object entries :: frames => some ⟨.key, .object entries :: frames⟩
  | _ => none

/-- One more lexeme is read. -/
def step (p : Progress) (lexeme : Lexeme) : Option Progress :=
  match p.expect with
  | .value => start lexeme p.frames
  | .itemOrEnd =>
    match lexeme with
    | .closeArray => close lexeme p.frames
    | _ => start lexeme p.frames
  | .keyOrEnd =>
    match lexeme with
    | .closeObject => close lexeme p.frames
    | _ => readKey lexeme p.frames
  | .key => readKey lexeme p.frames
  | .colon =>
    match lexeme with
    | .colon => some ⟨.value, p.frames⟩
    | _ => none
  | .commaOrEnd =>
    match lexeme with
    | .comma => afterComma p.frames
    | _ => close lexeme p.frames
  | .nothing _ => none

/-- The document that some lexemes make up. -/
def ofLexemes? (lexemes : List Lexeme) : Option Json := do
  let p ← lexemes.foldlM step {}
  match p.expect with
  | .nothing document => some document
  | _ => none

/-- The document that a text holds. -/
def parse? (text : String) : Option Json := do ofLexemes? (← lexemes? text)

end SqlCompletion.Json
