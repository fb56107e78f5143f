import SqlCompletion.Token.Stream
set_option autoImplicit false

/-!
# The caret

The place in the text where a completion is asked for, as an index into the tokens. A caret that
touches a word behind another word is still typing the word: it stands one token earlier then.
-/

namespace SqlCompletion.Caret

/-- Behind this terminal a word can start without a blank in between. -/
def standsAlone : Terminal → Bool
  | .symbol s =>
    match s with
    | .equal | .assign | .nullSafeEqual | .greaterOrEqual | .greater | .lessOrEqual | .less
    | .notEqual | .plus | .minus | .mult | .divide | .modulo | .logicalNot | .bitwiseNot
    | .shiftLeft | .shiftRight | .logicalAnd | .bitwiseAnd | .bitwiseXor | .logicalOr
    | .bitwiseOr | .dot | .comma | .semicolon | .colon | .openPar | .closePar | .atSign | .atAt
    | .paramMarker => true
    | _ => false
  | .keyword _ => false

/-- The index of the token that candidates are collected for, for a caret in front of the
character at `offset`. -/
def index (s : TokenStream) (offset : Nat) : Nat :=
  let touched := s.indexAt offset
  if 0 < touched ∧ standsAlone (s.lookBack touched) = false then touched - 1 else touched

end SqlCompletion.Caret
