import SqlCompletion.Json.Value
set_option autoImplicit false

/-!
# Decoding JSON values

What a JSON value must look like to be a text, a number, a choice or a record. Nothing is
converted: a number is no text and a text no number.

A record is an object, in which unknown keys are passed over and a known one may stand once, or
an array, in which the fields stand in order and the last ones may be missing.
-/

namespace SqlCompletion.Json

/-- A text. -/
def asText? : Json → Option String
  | string text? => text?
  | _ => none

/-- A truth value. -/
def asBool? : Json → Option Bool
  | bool b => some b
  | _ => none

/-- A natural number below 2^64. -/
def asWord? : Json → Option Nat
  | natural n => if n < 0x10000000000000000 then some n else none
  | _ => none

/-- The items of an array, each decoded. -/
def asList? {α : Type} (decode : Json → Option α) : Json → Option (List α)
  | array items => items.mapM decode
  | _ => none

/-- Nothing for `null`, and otherwise what is decoded. -/
def asOption? {α : Type} (decode : Json → Option α) : Json → Option (Option α)
  | null => some none
  | value => (decode value).map some

/-- One of some named values: its name, or an object with the name as the only key and `null`
under it. -/
def asChoice? {α : Type} (ofName? : String → Option α) : Json → Option α
  | string (some name) => ofName? name
  | object [(some name, null)] => ofName? name
  | _ => none

/-! ## Records -/

/-- The value of a field: under its key if that stands once, nothing if it does not stand at all,
and a failure if it is repeated. -/
def field? (entries : List (Option String × Json)) (name : String) : Option (Option Json) :=
  match entries.filter fun e => e.1 == some name with
  | [] => some none
  | [(_, value)] => some (some value)
  | _ => none

/-- The values of the named fields of a record, in the order of the names. -/
def fields? (names : List String) : Json → Option (List (Option Json))
  | object entries =>
    if entries.all fun e => e.1.isSome then names.mapM (field? entries) else none
  | array items =>
    if items.length ≤ names.length then
      some (items.map some ++ List.replicate (names.length - items.length) none)
    else none
  | _ => none

/-- A field that must be there. -/
def required? {α : Type} (decode : Json → Option α) (field : Option Json) : Option α :=
  field.bind decode

/-- A field that stands for a default when it is missing. -/
def withDefault? {α : Type} (default : α) (decode : Json → Option α) (field : Option Json) :
    Option α :=
  match field with
  | none => some default
  | some value => decode value

end SqlCompletion.Json
