import SqlCompletion.Text.CaseTable
set_option autoImplicit false

/-!
# Upper and lower case of a text

Every character is mapped on its own, with one exception: a capital sigma becomes `ς` at the end
of a word and `σ` elsewhere. ASCII letters are mapped without a look at the tables.
-/

namespace SqlCompletion.Text

/-- The character in upper case, as one or more characters. -/
def upperChar (c : Char) : List Char :=
  if c.toNat < 128 then [c.toUpper] else upperMap.apply c

/-- The character in lower case, as one or more characters, wherever it stands. -/
def lowerChar (c : Char) : List Char :=
  if c.toNat < 128 then [c.toLower] else lowerMap.apply c

/-- Going through the characters, ignorable ones skipped, the first one met is cased. -/
def meetsCased (cs : List Char) : Bool :=
  match cs.dropWhile caseIgnorableCodes.contains with
  | c :: _ => casedCodes.contains c
  | [] => false

/-- Lower case of the characters that follow `before`, which is given last character first.
A capital sigma ends a word if a cased letter comes before it and none comes after it. -/
def lowerFrom (before : List Char) (lowered : List Char) : List Char → List Char
  | [] => lowered.reverse
  | c :: rest =>
    let image :=
      if c == 'Σ' then
        if meetsCased before && !meetsCased rest then ['ς'] else ['σ']
      else lowerChar c
    lowerFrom (c :: before) (image.reverse ++ lowered) rest

/-- The text in upper case. -/
def upper (s : String) : String := String.ofList (s.toList.flatMap upperChar)

/-- The text in lower case. -/
def lower (s : String) : String := String.ofList (lowerFrom [] [] s.toList)

end SqlCompletion.Text
