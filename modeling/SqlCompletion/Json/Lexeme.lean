import SqlCompletion.Json.Value
set_option autoImplicit false

/-!
# Lexemes of JSON

Brackets, commas, colons and scalars. Blanks between them are the space, the tab and the two line
ends; nothing else is passed over.
-/

namespace SqlCompletion.Json

/-- A lexeme of a JSON document. -/
inductive Lexeme where
  | openArray
  | closeArray
  | openObject
  | closeObject
  | comma
  | colon
  | scalar (value : Json)
  deriving Repr, Inhabited

/-! ## Strings -/

/-- A character of a string, or one half of what the escape `\u` writes. -/
inductive Unit16 where
  | char (c : Char)
  | code (n : Nat)
  deriving DecidableEq, Repr, Inhabited

/-- The value of a hexadecimal digit. -/
def hexValue? (c : Char) : Option Nat :=
  if c.isDigit then some (c.toNat - '0'.toNat)
  else if 'a' ≤ c ∧ c ≤ 'f' then some (c.toNat - 'a'.toNat + 10)
  else if 'A' ≤ c ∧ c ≤ 'F' then some (c.toNat - 'A'.toNat + 10)
  else none

/-- The value of four hexadecimal digits. -/
def hexCode? (a b c d : Char) : Option Nat := do
  return (((← hexValue? a) * 16 + (← hexValue? b)) * 16 + (← hexValue? c)) * 16 + (← hexValue? d)

/-- The character that a backslash and a letter stand for. -/
def escaped? (c : Char) : Option Char :=
  match c with
  | '"' => some '"'
  | '\\' => some '\\'
  | '/' => some '/'
  | 'b' => some '\x08'
  | 'f' => some '\x0c'
  | 'n' => some '\n'
  | 'r' => some '\r'
  | 't' => some '\t'
  | _ => none

/-- Reads from behind the opening quote of a string up to and including the closing one. Gives
what the string holds and the number of characters read; `count` and `done` say what has been
read so far. Control characters must be escaped. -/
def stringUnits? (count : Nat) (done : List Unit16) : List Char → Option (List Unit16 × Nat)
  | [] => none
  | '"' :: _ => some (done.reverse, count + 1)
  | '\\' :: 'u' :: a :: b :: c :: d :: rest =>
    match hexCode? a b c d with
    | some n => stringUnits? (count + 6) (.code n :: done) rest
    | none => none
  | '\\' :: c :: rest =>
    match escaped? c with
    | some e => stringUnits? (count + 2) (.char e :: done) rest
    | none => none
  | c :: rest =>
    if c.toNat < 0x20 ∨ c = '\\' then none else stringUnits? (count + 1) (.char c :: done) rest

/-- The first half of a surrogate pair. -/
def isHighHalf (n : Nat) : Bool := decide (0xD800 ≤ n) && decide (n ≤ 0xDBFF)

/-- The second half of a surrogate pair. -/
def isLowHalf (n : Nat) : Bool := decide (0xDC00 ≤ n) && decide (n ≤ 0xDFFF)

/-- The text that the parts of a string make up; there is none if a half of a surrogate pair
stands alone. `done` holds the characters so far, last one first. -/
def joinUnits? (done : List Char) : List Unit16 → Option String
  | [] => some (String.ofList done.reverse)
  | .char c :: rest => joinUnits? (c :: done) rest
  | .code high :: .code low :: rest =>
    if isHighHalf high then
      if isLowHalf low then
        joinUnits?
          (Char.ofNat (0x10000 + (high - 0xD800) * 0x400 + (low - 0xDC00)) :: done) rest
      else none
    else if isLowHalf high then none
    else joinUnits? (Char.ofNat high :: done) (.code low :: rest)
  | .code n :: rest =>
    if isHighHalf n || isLowHalf n then none else joinUnits? (Char.ofNat n :: done) rest

/-! ## Numbers -/

/-- The number of digits at the start. -/
def digitCount (cs : List Char) : Nat := (cs.takeWhile Char.isDigit).length

/-- The length of the digits in front of the point: a zero stands alone. -/
def wholeLength? : List Char → Option Nat
  | [] => none
  | c :: rest =>
    if c = '0' then some 1
    else if c.isDigit then some (1 + digitCount rest)
    else none

/-- The length of the point and the digits behind it; 0 if there is no point. -/
def fractionLength? : List Char → Option Nat
  | '.' :: rest =>
    let digits := digitCount rest
    if digits = 0 then none else some (1 + digits)
  | _ => some 0

/-- The length of the exponent; 0 if there is none. -/
def exponentLength? : List Char → Option Nat
  | [] => some 0
  | c :: rest =>
    if c = 'e' ∨ c = 'E' then
      let sign := match rest with
        | '+' :: _ | '-' :: _ => 1
        | _ => 0
      let digits := digitCount (rest.drop sign)
      if digits = 0 then none else some (1 + sign + digits)
    else some 0

/-- The value of some decimal digits. -/
def decimalValue (digits : List Char) : Nat :=
  digits.foldl (fun n c => n * 10 + (c.toNat - '0'.toNat)) 0

/-- Reads a number, and gives its length. -/
def number? (cs : List Char) : Option (Json × Nat) := do
  let sign := if cs.head? = some '-' then 1 else 0
  let whole ← wholeLength? (cs.drop sign)
  let fraction ← fractionLength? (cs.drop (sign + whole))
  let exponent ← exponentLength? (cs.drop (sign + whole + fraction))
  let length := sign + whole + fraction + exponent
  let value :=
    if length = whole then natural (decimalValue (cs.take whole))
    else numeral (String.ofList (cs.take length))
  return (value, length)

/-! ## Documents -/

/-- White space between lexemes. -/
def isGap (c : Char) : Bool := c == ' ' || c == '\t' || c == '\n' || c == '\r'

/-- The lexeme at the start of the text, and its length. -/
def lexemeAt? (cs : List Char) : Option (Lexeme × Nat) :=
  match cs with
  | [] => none
  | c :: rest =>
    if c == '[' then some (.openArray, 1)
    else if c == ']' then some (.closeArray, 1)
    else if c == '\x7b' then some (.openObject, 1)
    else if c == '\x7d' then some (.closeObject, 1)
    else if c == ',' then some (.comma, 1)
    else if c == ':' then some (.colon, 1)
    else if c == '"' then
      (stringUnits? 1 [] rest).map fun (units, n) => (.scalar (string (joinUnits? [] units)), n)
    else if ['t', 'r', 'u', 'e'].isPrefixOf cs then some (.scalar (bool true), 4)
    else if ['f', 'a', 'l', 's', 'e'].isPrefixOf cs then some (.scalar (bool false), 5)
    else if ['n', 'u', 'l', 'l'].isPrefixOf cs then some (.scalar null, 4)
    else (number? cs).map fun (value, n) => (.scalar value, n)

/-- The lexemes of a document. The first `skip` characters belong to the lexeme read last, and
`done` holds the lexemes so far, last one first. -/
def lexemesFrom? (skip : Nat) (done : List Lexeme) : List Char → Option (List Lexeme)
  | [] => some done.reverse
  | c :: rest =>
    match skip with
    | k + 1 => lexemesFrom? k done rest
    | 0 =>
      if isGap c then lexemesFrom? 0 done rest
      else
        match lexemeAt? (c :: rest) with
        | some (lexeme, n) => lexemesFrom? (n - 1) (lexeme :: done) rest
        | none => none

/-- The lexemes of a document. -/
def lexemes? (text : String) : Option (List Lexeme) := lexemesFrom? 0 [] text.toList

end SqlCompletion.Json
