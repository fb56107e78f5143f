set_option autoImplicit false

/-!
# JSON values

The values of JSON documents. An object keeps its entries in order, repeated keys included. A
string whose escapes hold half of a surrogate pair is no text, and is kept as such: it may stand
where nobody reads it.
-/

namespace SqlCompletion

/-- A JSON value. -/
inductive Json where
  | null
  | bool (b : Bool)
  /-- A number that is written with digits alone. -/
  | natural (n : Nat)
  /-- Any other number, as it is written. -/
  | numeral (literal : String)
  /-- A string; `none` if it is no text. -/
  | string (text? : Option String)
  | array (items : List Json)
  /-- Entries with their keys; a key is `none` if it is no text. -/
  | object (entries : List (Option String × Json))
  deriving Repr, Inhabited

namespace Json

/-- A text. -/
def text (s : String) : Json := string (some s)

/-- An object, from entries that may be missing. -/
def ofEntries (entries : List (String × Option Json)) : Json :=
  object (entries.filterMap fun e => e.2.map fun v => (some e.1, v))

end Json

end SqlCompletion
