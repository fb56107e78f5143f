set_option autoImplicit false

/-!
# Suggestions

What is offered at the caret.
-/

namespace SqlCompletion

/-- What a suggestion is. -/
inductive ItemKind where
  | keyword
  | column
  | table
  deriving DecidableEq, Repr, Inhabited

/-- A text that is offered at the caret. -/
structure Item where
  text : String
  kind : ItemKind
  deriving DecidableEq, Repr, Inhabited

/-- Suggestions from the texts of each kind: keywords, then columns, then tables, each text once
per kind and where it comes first. -/
def Item.gather (keywords columns tables : List String) : List Item :=
  (keywords.eraseDups.map fun text => ⟨text, .keyword⟩) ++
    (columns.eraseDups.map fun text => ⟨text, .column⟩) ++
    (tables.eraseDups.map fun text => ⟨text, .table⟩)

end SqlCompletion
