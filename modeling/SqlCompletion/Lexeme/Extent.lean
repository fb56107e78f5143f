import SqlCompletion.Lexeme.Form
set_option autoImplicit false

/-!
# Extents of lexemes

How far a lexeme reaches: each function here counts the characters that belong to a word, a
quoted text, a comment or a number. Quoted texts and block comments can fail to end.
-/

namespace SqlCompletion.Lexeme

/-- The number of characters at the start that satisfy `p`. -/
def runLength (p : Char → Bool) (cs : List Char) : Nat := (cs.takeWhile p).length

/-- A character that can continue a word. Every character beyond ASCII can. -/
def isWordPart (c : Char) : Bool :=
  c.isAlphanum || c == '_' || c == '$' || c == '@' || decide (128 ≤ c.toNat)

/-- A digit of a hexadecimal number. -/
def isHexDigit (c : Char) : Bool :=
  c.isDigit || (decide ('a' ≤ c) && decide (c ≤ 'f')) || (decide ('A' ≤ c) && decide (c ≤ 'F'))

/-! ## Quoted texts and comments -/

/-- Counts from behind an opening quote up to and including the closing one, starting at
`count`. A doubled quote stands for itself; with `escapes`, a backslash takes the next character
with it. -/
def quotedLength (quote : Char) (escapes : Bool) (count : Nat) : List Char → Option Nat
  | [] => none
  | [c] => if escapes && c == '\\' then none else if c == quote then some (count + 1) else none
  | c :: d :: rest =>
    if escapes && c == '\\' then quotedLength quote escapes (count + 2) rest
    else if c == quote then
      if d == quote then quotedLength quote escapes (count + 2) rest else some (count + 1)
    else quotedLength quote escapes (count + 1) (d :: rest)

/-- Counts up to and including the next line feed, or up to the end. -/
def lineLength (cs : List Char) : Nat :=
  let n := runLength (· != '\n') cs
  match cs.drop n with
  | [] => n
  | _ :: _ => n + 1

/-- Counts from inside a block comment up to and including the mark that closes it, starting at
`count`. -/
def blockLength (count : Nat) : List Char → Option Nat
  | [] => none
  | [_] => none
  | c :: d :: rest =>
    if c == '*' && d == '/' then some (count + 2) else blockLength (count + 1) (d :: rest)

/-! ## Numbers -/

/-- The characters that are an exponent at the start of the text: the mark `e` or `E`, a sign or
none, and at least one digit. -/
def exponentLength : List Char → Nat
  | [] => 0
  | e :: rest =>
    if e == 'e' || e == 'E' then
      let sign := match rest with
        | '+' :: _ | '-' :: _ => 1
        | _ => 0
      let digits := runLength Char.isDigit (rest.drop sign)
      if digits = 0 then 0 else 1 + sign + digits
    else 0

/-- The text goes on with the mark of an exponent, whether or not an exponent follows. -/
def startsExponent : List Char → Bool
  | 'e' :: _ | 'E' :: _ => true
  | _ => false

/-- What a number without a word behind it is called. -/
def numberForm (point exponent : Bool) : Form :=
  if exponent then .float else if point then .decimal else .integer

/-- Reads what starts with a digit or a point, behind a lexeme of the form `after`. It is a
number, or the point alone, or a word: digits that run on into letters make a name, and so does
a number with an exponent mark behind a separating point. -/
def number (after : Option Form) (cs : List Char) : Form × Nat :=
  let whole := runLength Char.isDigit cs
  let rest := cs.drop whole
  if cs.take whole == ['0'] && rest.head? == some 'x' then
    (.hexadecimal, 2 + runLength isHexDigit (rest.drop 1))
  else
    let point := rest.head? == some '.'
    if whole = 0 && point && after.any Form.isName then (.operator .dot, 1)
    else
      let mark := if point then 1 else 0
      let fraction := runLength Char.isDigit (rest.drop mark)
      if whole = 0 && fraction = 0 then (.operator .dot, 1)
      else
        let mantissa := whole + mark + fraction
        let tail := cs.drop mantissa
        if startsExponent tail then
          let exponent := exponentLength tail
          if after == some (.operator .dot) then (.word, mantissa + exponent)
          else
            let long := if (tail.drop exponent).head? == some 'L' then 1 else 0
            (numberForm point (decide (0 < exponent)), mantissa + exponent + long)
        else
          let letters := runLength isWordPart tail
          if 0 < letters then (.word, mantissa + letters)
          else (numberForm point false, mantissa)

/-! ## Operators -/

/-- The operators, longer ones in front of those that they start with. -/
def operators : List (List Char × Form) :=
  [(['!', '~', '~', '*'], .unknown), (['!', '~', '~'], .unknown), (['!', '~', '*'], .unknown),
   (['!', '~'], .unknown), (['!', '='], .operator .notEqual), (['!', '!'], .unknown),
   (['!'], .operator .logicalNot),
   (['<', '=', '>'], .operator .nullSafeEqual), (['<', '='], .operator .lessOrEqual),
   (['<', '>'], .operator .notEqual), (['<', '<'], .operator .shiftLeft),
   (['<', '@'], .unknown), (['<'], .operator .less),
   (['>', '='], .operator .greaterOrEqual), (['>', '>'], .operator .shiftRight),
   (['>'], .operator .greater),
   ([':', ':'], .unknown), ([':', '='], .operator .assign), ([':'], .operator .colon),
   (['|', '|', '/'], .unknown), (['|', '|'], .pipes), (['|', '/'], .unknown),
   (['|'], .operator .bitwiseOr),
   (['=', '>'], .unknown), (['=', '='], .operator .equal), (['='], .operator .equal),
   (['&', '&'], .operator .logicalAnd), (['&'], .operator .bitwiseAnd),
   (['^', '@'], .unknown), (['^'], .operator .bitwiseXor),
   (['~', '~', '*'], .unknown), (['~', '~'], .unknown), (['~', '*'], .unknown),
   (['~'], .operator .bitwiseNot),
   (['-', '>', '>'], .operator .jsonUnquotedSeparator), (['-', '>'], .operator .jsonSeparator),
   (['-'], .operator .minus),
   (['+'], .operator .plus), (['*'], .operator .mult), (['/'], .operator .divide),
   (['%'], .operator .modulo), (['('], .operator .openPar), ([')'], .operator .closePar),
   ([','], .operator .comma), ([';'], .operator .semicolon), (['\\'], .unknown),
   (['['], .unknown), ([']'], .unknown), (['\x7b'], .operator .openCurly),
   (['\x7d'], .operator .closeCurly)]

/-- The longest operator at the start of the text. -/
def operatorAt? (cs : List Char) : Option (Form × Nat) :=
  (operators.find? fun o => o.1.isPrefixOf cs).map fun o => (o.2, o.1.length)

end SqlCompletion.Lexeme
