import SqlCompletion.Lexeme.Extent
import SqlCompletion.Text.Numeric
set_option autoImplicit false

/-!
# Reading lexemes

A text is cut into lexemes from left to right. Where it cannot be read on, because a quoted text
or a comment does not end or a point starts a name, a fault says where. Such a text is then read
only up to a limit: the place of the fault, or one character less than before. Whatever lies
behind the limit stays unread.
-/

namespace SqlCompletion.Lexeme

/-- Why the text cannot be read on. -/
inductive Fault where
  /-- A quoted text does not end; the quote stands `distance` characters into the lexeme. -/
  | unclosedQuote (distance : Nat)
  /-- A block comment does not end. -/
  | unclosedComment
  /-- A point that does not follow a name starts one. -/
  | strayPoint
  deriving DecidableEq, Repr, Inhabited

/-- Where the fault is reported, for a lexeme at `here` with `rest` up to the end of the text. A
comment that does not end is reported there. -/
def Fault.location (here : Text.Location) (rest : List Char) : Fault → Text.Location
  | unclosedQuote distance => here.past (rest.take distance)
  | unclosedComment => here.past rest
  | strayPoint => here

/-- A quoted text of the given form whose opening quote stands `distance` characters into the
lexeme; `rest` is what follows the quote. -/
def quoted (form : Form) (quote : Char) (escapes : Bool) (distance : Nat) (rest : List Char) :
    Except Fault (Form × Nat) :=
  match quotedLength quote escapes (distance + 1) rest with
  | some n => .ok (form, n)
  | none => .error (.unclosedQuote distance)

/-- A word whose first `known` characters are given; `rest` is what follows them. -/
def word (known : Nat) (rest : List Char) : Except Fault (Form × Nat) :=
  .ok (.word, known + runLength isWordPart rest)

/-- What an at sign starts; `rest` is what follows it. -/
def atSign : List Char → Form × Nat
  | [] => (.operator .atSign, 1)
  | c :: rest =>
    if c == '>' || c == '?' then (.unknown, 2)
    else if c == '@' then
      match rest with
      | [] => (.unknown, 2)
      | d :: tail => if d == ' ' then (.unknown, 2) else (.word, 3 + runLength isWordPart tail)
    else if c == ' ' || c == '\'' || c == '"' || c == '\x60' then (.operator .atSign, 1)
    else (.word, 2 + runLength isWordPart rest)

/-- The form and the length of the lexeme that starts with `c` and goes on in `rest`, behind a
lexeme of the form `after`. -/
def first (after : Option Form) (c : Char) (rest : List Char) : Except Fault (Form × Nat) :=
  if c == ' ' || c == '\t' || c == '\n' then .ok (.blank, 1)
  else if c == '\r' then .ok (.blank, if rest.head? == some '\n' then 2 else 1)
  else if c == 'b' || c == 'B' then
    match rest with
    | '\'' :: tail => quoted .binary '\'' false 1 tail
    | '"' :: tail => quoted .unknown '"' false 1 tail
    | _ => word 1 rest
  else if c == 'n' || c == 'N' then
    match rest with
    | '\'' :: tail => quoted .national '\'' true 1 tail
    | _ => word 1 rest
  else if c == 'x' || c == 'X' then
    match rest with
    | '\'' :: tail => quoted .hexadecimal '\'' true 1 tail
    | _ => word 1 rest
  else if c == '\'' then quoted .singleQuoted '\'' true 0 rest
  else if c == '"' then quoted .doubleQuoted '"' true 0 rest
  else if c == '\x60' then quoted .backTicked '\x60' false 0 rest
  else if c == '.' && rest.head? == some '_' then
    if after.any Form.isName then .ok (.operator .dot, 1) else .error .strayPoint
  else if c.isDigit || c == '.' then .ok (number after (c :: rest))
  else if c == '#' || (c == '-' && ['-', ' '].isPrefixOf rest) then
    .ok (.comment, lineLength (c :: rest))
  else if c == '/' && rest.head? == some '*' then
    match blockLength 2 (rest.drop 1) with
    | some n => .ok (.comment, n)
    | none => .error .unclosedComment
  else if c == '@' then .ok (atSign rest)
  else if c == '?' then
    let digits := runLength Text.isNumeric rest
    if digits = 0 then .ok (.operator .paramMarker, 1) else .ok (.placeholder, 1 + digits)
  else if isWordPart c then word 1 rest
  else
    match operatorAt? (c :: rest) with
    | some found => .ok found
    | none => .ok (if c == '\x0b' || c == '\x0c' then (.blank, 1) else (.unknown, 1))

/-- Cuts a text into lexemes. The text lies at `here` in the whole one; its first `skip`
characters belong to the lexeme read last, whose form is `after`; `done` holds the lexemes read so
far, last one first. A fault is given by its location. -/
def readFrom (after : Option Form) (here : Text.Location) (skip : Nat) (done : List Lexeme) :
    List Char → Except Text.Location (List Lexeme)
  | [] => .ok done.reverse
  | c :: rest =>
    match skip with
    | k + 1 => readFrom after (here.next c) k done rest
    | 0 =>
      match first after c rest with
      | .ok (form, n) =>
        let text := (c :: rest).take n
        readFrom (some form) (here.next c) (n - 1) (⟨form, text, here, here.past text⟩ :: done) rest
      | .error fault => .error (fault.location here (c :: rest))

/-- The lexemes of a text, or the location of the first fault. -/
def read (text : List Char) : Except Text.Location (List Lexeme) :=
  readFrom none .origin 0 [] text

/-- Reads a text up to the greatest limit that the faults leave: `bound` is the most that may
still be tried, and `target` is where the last fault was found. Gives the lexemes and the
limit. -/
def readUpTo (text : List Char) : (bound target : Nat) → List Lexeme × Nat
  | 0, _ => ([], 0)
  | bound + 1, target =>
    if target ≤ bound then readUpTo text bound target
    else
      let part := text.take (bound + 1)
      match read part with
      | .ok lexemes => (lexemes, bound + 1)
      | .error location => readUpTo text bound ((Text.LineIndex.ofText part).offset location)

/-- The lexemes of the readable part of a text, and how far that part reaches. -/
def readable (text : List Char) : List Lexeme × Nat :=
  readUpTo text text.length text.length

end SqlCompletion.Lexeme
