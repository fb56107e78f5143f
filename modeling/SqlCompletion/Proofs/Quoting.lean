import SqlCompletion.Proofs.Isolation
import SqlCompletion.Proofs.TableReading
import SqlCompletion.Proofs.Wording
set_option autoImplicit false

/-!
# Names in back-ticks come back

Any text can be the name of a table: in back-ticks, with every back-tick in it doubled, it is read
as one lexeme (`Lexeme.scans_ticked`) that stands for the text (`Name.ofText_inBackTicks`). So a
clause with a table in a schema and with an alias, all in back-ticks, is read as just that
(`FromClause.references_quotedClause`). There is one reference, with its names and with the places
at which they stand in the clause.

* Doubling the quotes is undone (`Name.undouble_double`), for every list of characters.
* A quoted text ends at the first quote that is not doubled (`Lexeme.quotedLength_double`), as long
  as nothing in it is escaped. In back-ticks nothing is, whatever the modes of the server are.
* The lexemes of the clause are found one after another (`scans_quotedLexemes`), and what they are
  read as is followed through the readers of a clause.

The schema and the alias may be missing, and any of the names may be empty. Only quotes are ever
dropped from a name, never blanks or other characters. Names in double quotes depend on the modes of
the server and are not treated here, and strings as aliases have a module of their own.
-/

namespace SqlCompletion

/-! ## Quoted names -/

namespace Name

theorem double_cons (quote c : Char) (cs : List Char) :
    double quote (c :: cs) = (if c = quote then [c, c] else [c]) ++ double quote cs := rfl

/-- Doubling the quotes is undone. -/
theorem undouble_double (quote : Char) (cs : List Char) :
    undouble quote (double quote cs) = cs := by
  induction cs with
  | nil => rfl
  | cons c cs ih =>
    rw [double_cons]
    split
    · rename_i hquote
      rw [List.cons_append, List.singleton_append, undouble, if_pos ⟨hquote, hquote⟩, ih, hquote]
    · rename_i hother
      rw [List.singleton_append]
      cases hrest : double quote cs with
      | nil =>
        rw [hrest] at ih
        rw [← ih]
        rfl
      | cons d rest =>
        rw [hrest] at ih
        rw [undouble, if_neg fun hboth => hother hboth.1, ih]

/-- The characters of a name in back-ticks. -/
def ticked (name : List Char) : List Char := '\x60' :: (double '\x60' name ++ ['\x60'])

/-- A name in back-ticks, in which it may have any characters. -/
def inBackTicks (name : String) : String := String.ofList (ticked name.toList)

theorem unquote_ticked (name : List Char) : unquote (ticked name) = name := by
  unfold unquote ticked
  dsimp only
  rw [List.getLast?_concat, List.dropLast_concat, undouble_double]
  rfl

theorem trimBoth_ticked (name : List Char) :
    Text.trimBoth (· == '\'') (ticked name) = ticked name := by
  have hback : (ticked name).reverse = '\x60' :: ((double '\x60' name).reverse ++ ['\x60']) := by
    simp [ticked]
  unfold Text.trimBoth
  have hfront : (ticked name).dropWhile (· == '\'') = ticked name := rfl
  rw [hfront, hback, List.dropWhile_cons_of_neg (by decide), ← hback, List.reverse_reverse]

theorem ofText_inBackTicks (name : String) : ofText (inBackTicks name) = name := by
  rw [ofText, inBackTicks, String.toList_ofList, unquote_ticked, String.ofList_toList]

theorem ofAliasText_inBackTicks (name : String) : ofAliasText (inBackTicks name) = name := by
  rw [ofAliasText, inBackTicks, String.toList_ofList, trimBoth_ticked, unquote_ticked,
    String.ofList_toList]

end Name

/-! ## Quoted lexemes -/

namespace Lexeme

section

variable {quote : Char} {escapes : Bool} {rest : List Char}

/-- A quoted text ends at the first quote that is not doubled, as long as nothing in it is
escaped. -/
theorem quotedLength_double (hquote : (escapes && quote == '\\') = false)
    (hrest : rest.head? ≠ some quote) (count : Nat) {cs : List Char}
    (hplain : ∀ c ∈ cs, (escapes && c == '\\') = false) :
    quotedLength quote escapes count (Name.double quote cs ++ quote :: rest) =
      some (count + (Name.double quote cs).length + 1) := by
  induction cs generalizing count with
  | nil =>
    cases rest with
    | nil => simp [Name.double, quotedLength, hquote]
    | cons d rest =>
      have hd : (d == quote) = false := beq_eq_false_iff_ne.2 fun heq => hrest (congrArg some heq)
      simp [Name.double, quotedLength, hquote, hd]
  | cons c cs ih =>
    have hlater : ∀ d ∈ cs, (escapes && d == '\\') = false :=
      fun d hd => hplain d (List.mem_cons_of_mem c hd)
    rw [Name.double_cons]
    split
    · rename_i heq
      have hlength := ih (count + 2) hlater
      simp only [List.cons_append, List.nil_append, List.length_cons, quotedLength, heq,
        hquote, Bool.false_eq_true, if_false, BEq.rfl, if_true, hlength]
      rw [Option.some.injEq]
      omega
    · rename_i hother
      have hc : (c == quote) = false := beq_eq_false_iff_ne.2 hother
      have hescape := hplain c List.mem_cons_self
      have hlength := ih (count + 1) hlater
      rw [List.singleton_append, List.cons_append]
      -- Something follows, if only the quote that ends the text.
      cases hmore : Name.double quote cs ++ quote :: rest with
      | nil => simp at hmore
      | cons d more =>
        rw [hmore] at hlength
        rw [quotedLength, hlength]
        simp only [hc, hescape, Bool.false_eq_true, if_false, List.length_cons,
          Option.some.injEq]
        omega

/-- A text between quotes is one lexeme, unless another quote follows. -/
theorem scans_quoted {form : Form} {ls : List (Form × List Char)} {name : List Char}
    {after : Option Form}
    (hfirst : ∀ text, first after quote text = quoted form quote escapes 0 text)
    (hquote : (escapes && quote == '\\') = false)
    (hplain : ∀ c ∈ name, (escapes && c == '\\') = false) (h : Scans (some form) ls rest)
    (hrest : (chars ls ++ rest).head? ≠ some quote) :
    Scans after ((form, quote :: (Name.double quote name ++ [quote])) :: ls) rest := by
  refine .cons ?_ h
  rw [hfirst, List.append_assoc, List.singleton_append, quoted,
    quotedLength_double hquote hrest _ hplain]
  simp [Nat.add_assoc]

end

/-- A name in back-ticks is one lexeme, unless a back-tick follows. -/
theorem scans_ticked {ls : List (Form × List Char)} {rest : List Char}
    (h : Scans (some .backTicked) ls rest) (hrest : (chars ls ++ rest).head? ≠ some '\x60')
    (after : Option Form) (name : List Char) :
    Scans after ((.backTicked, Name.ticked name) :: ls) rest :=
  scans_quoted (fun _ => rfl) (Bool.false_and _) (fun _ _ => Bool.false_and _) h hrest

end Lexeme

/-! ## A clause with quoted names -/

/-- Where a text has a part behind what comes before it. -/
def Span.behind (before part : String) : Span := ⟨before.length, before.length + part.length⟩

namespace FromClause

/-- The schema of a table, with the point behind it. -/
def schemaPart (schema? : Option String) : String :=
  schema?.elim "" fun schema => Name.inBackTicks schema ++ "."

theorem length_schemaPart (schema : String) :
    (schemaPart (some schema)).length = (Name.ticked schema.toList).length + 1 := by
  rw [schemaPart, Option.elim, String.length_append, Name.inBackTicks, String.length_ofList]
  rfl

/-- The alias of a table, with the word in front of it. -/
def aliasPart (alias? : Option String) : String :=
  alias?.elim "" fun name => " AS " ++ Name.inBackTicks name

/-- The clause that names one table, all names in back-ticks. -/
def quotedClause (schema? : Option String) (table : String) (alias? : Option String) : String :=
  "FROM " ++ schemaPart schema? ++ Name.inBackTicks table ++ aliasPart alias?

open Lexeme (Scans chars spaced)

def schemaLexemes (schema? : Option String) : List (Form × List Char) :=
  schema?.elim [] fun schema =>
    [(.backTicked, Name.ticked schema.toList), (.operator .dot, ['.'])]

def aliasLexemes (alias? : Option String) : List (Form × List Char) :=
  alias?.elim [] fun name =>
    (.blank, [' ']) :: (spaced [['A', 'S']] ++ [(.backTicked, Name.ticked name.toList)])

/-- The lexemes of the clause. -/
def quotedLexemes (schema? : Option String) (table : String) (alias? : Option String) :
    List (Form × List Char) :=
  spaced [['F', 'R', 'O', 'M']] ++
    (schemaLexemes schema? ++ (.backTicked, Name.ticked table.toList) :: aliasLexemes alias?)

theorem toList_quotedClause (schema? : Option String) (table : String) (alias? : Option String) :
    (quotedClause schema? table alias?).toList = chars (quotedLexemes schema? table alias?) := by
  cases schema? <;> cases alias? <;>
    simp [quotedClause, quotedLexemes, schemaPart, schemaLexemes, aliasPart, aliasLexemes,
      Name.inBackTicks, chars, spaced]

theorem scans_aliasLexemes (alias? : Option String) :
    Scans (some .backTicked) (aliasLexemes alias?) [] := by
  cases alias? with
  | none => exact .nil _ _
  | some name =>
    have hname := fun after => Lexeme.scans_ticked (.nil _ []) (by simp) after name.toList
    have has := @Lexeme.scans_spaced [['A', 'S']] (by decide)
    exact .cons rfl (Lexeme.scans_append.2 ⟨has _ _, hname _⟩)

theorem scans_quotedLexemes (schema? : Option String) (table : String) (alias? : Option String) :
    Scans none (quotedLexemes schema? table alias?) [] := by
  have hfrom := @Lexeme.scans_spaced [['F', 'R', 'O', 'M']] (by decide)
  have halias : (chars (aliasLexemes alias?) ++ []).head? ≠ some '\x60' := by
    cases alias? <;> simp [aliasLexemes]
  have htable := fun after =>
    Lexeme.scans_ticked (scans_aliasLexemes alias?) halias after table.toList
  refine Lexeme.scans_append.2 ⟨hfrom _ _, ?_⟩
  cases schema? with
  | none => exact htable _
  | some schema => exact Lexeme.scans_ticked (.cons rfl (htable _)) (by simp) _ _

theorem wordTerminal_from (d : Dialect) :
    Form.wordTerminal d ['F', 'R', 'O', 'M'] = .keyword .FROM :=
  Keyword.wordTerminal_of_ofWord? d (by decide +kernel : Keyword.ofWord? "FROM" = some .FROM)

theorem wordTerminal_as (d : Dialect) : Form.wordTerminal d ['A', 'S'] = .keyword .AS :=
  Keyword.wordTerminal_of_ofWord? d (by decide +kernel : Keyword.ofWord? "AS" = some .AS)

/-- A list of one table ends with the table, if the text ends behind it. -/
theorem tables_of_readTable {start first stop : Token} {rest : List Token}
    {found : List TableReference} (hstart : start.kind = .keyword .FROM)
    (hfirst : first.kind = .symbol .backTickQuotedId) (hstop : stop.kind = .eof)
    (hread : ∀ bound, readTable bound first rest = ⟨found, [stop]⟩) :
    tables (start :: first :: rest) = found := by
  have hfactor : ∀ bound inner?, factor bound inner? (first :: rest) = ⟨found, [stop]⟩ := by
    intro bound inner?
    simp [factor, hfirst, hread, Terminal.isNameLike]
  have hjoins : ∀ bound inner? fuel, joins bound inner? fuel [stop] = ⟨[], [stop]⟩ := by
    intro bound inner? fuel
    cases fuel with
    | zero => rfl
    | succ fuel => simp [joins, headKind, hstop, isJoinWord]
  have hreference : ∀ bound inner?, reference bound inner? (first :: rest) = ⟨found, [stop]⟩ := by
    intro bound inner?
    simp [reference, headKind, hfirst, hfactor, hjoins]
  have hpass : passOver (.keyword .FROM) (start :: first :: rest) = first :: rest :=
    if_pos hstart
  rw [tables, hpass, list, hreference]
  simp [headKind, hstop, isClauseEnd]

/-- A name in back-ticks behind a point is a table, and in front of the point is its schema. -/
theorem readTable_of_schema (bound : Nat) (first : Token) {point table : Token}
    (hpoint : point.kind = .symbol .dot) (htable : table.kind = .symbol .backTickQuotedId)
    (rest : List Token) :
    readTable bound first (point :: table :: rest) =
      finishTable bound (.ofTable (nameOf table) (some (nameOf first))) rest := by
  simp [readTable, hpoint, htable, Terminal.isNameLike]

open TokenStream (laidVisible piecesOf)

section

variable (d : Dialect)

theorem piecesOf_aliasLexemes (name : String) :
    piecesOf d (aliasLexemes (some name)) =
      [(.symbol .whitespace, [' ']), (.keyword .AS, ['A', 'S']), (.symbol .whitespace, [' ']),
        (.symbol .backTickQuotedId, Name.ticked name.toList)] := by
  simp [aliasLexemes, spaced, piecesOf, Form.terminal, wordTerminal_as]

theorem piecesOf_quotedLexemes (schema? : Option String) (table : String)
    (alias? : Option String) :
    piecesOf d (quotedLexemes schema? table alias?) =
      (.keyword .FROM, ['F', 'R', 'O', 'M']) :: (.symbol .whitespace, [' ']) ::
        (piecesOf d (schemaLexemes schema?) ++
          (.symbol .backTickQuotedId, Name.ticked table.toList) ::
            piecesOf d (aliasLexemes alias?)) := by
  simp [quotedLexemes, spaced, piecesOf, Form.terminal, wordTerminal_from]

/-- The alias is read, and the text ends behind it. -/
theorem finishTable_aliasLexemes (index place : Nat) (alias? : Option String) :
    ∃ stop : Token, stop.kind = .eof ∧ ∀ bound table,
      finishTable bound table (laidVisible index place (piecesOf d (aliasLexemes alias?))) =
        ⟨[{ table with alias? := alias?.map fun name =>
            ⟨name, ⟨place + 4, place + 4 + (Name.ticked name.toList).length⟩⟩ }], [stop]⟩ := by
  cases alias? with
  | none =>
    refine ⟨⟨.eof, "", ⟨place, place⟩, index⟩, rfl, fun bound table => ?_⟩
    exact congrArg (Reading.mk _) (passHints_singleton bound _)
  | some name =>
    let stop := place + 4 + (Name.ticked name.toList).length
    refine ⟨⟨.eof, "", ⟨stop, stop⟩, index + 4⟩, rfl, fun bound table => ?_⟩
    rw [piecesOf_aliasLexemes, Option.map_some]
    nth_rewrite 2 [← Name.ofAliasText_inBackTicks name]
    exact congrArg (Reading.mk _) (passHints_singleton bound _)

/-- An alias does not make what it follows a schema. -/
theorem readTable_aliasLexemes (bound index place : Nat) (first : Token) (alias? : Option String) :
    readTable bound first (laidVisible index place (piecesOf d (aliasLexemes alias?))) =
      finishTable bound (.ofTable (nameOf first) none)
        (laidVisible index place (piecesOf d (aliasLexemes alias?))) := by
  cases alias? with
  | none => rfl
  | some name =>
    rw [piecesOf_aliasLexemes]
    rfl

/-- One table is found, with its schema and its alias, each where it is written. -/
theorem references_quotedClause (schema? : Option String) (table : String)
    (alias? : Option String) :
    (Parser.mysql d (quotedClause schema? table alias?) .fromClause).references =
      [{ kind := .table
         table? := some table
         span := .behind ("FROM " ++ schemaPart schema?) (Name.inBackTicks table)
         schema? := schema?.map fun schema =>
           ⟨schema, .behind "FROM " (Name.inBackTicks schema)⟩
         alias? := alias?.map fun name =>
           ⟨name, .behind ("FROM " ++ schemaPart schema? ++ Name.inBackTicks table ++ " AS ")
             (Name.inBackTicks name)⟩ }] := by
  have hpieces := TokenStream.pieces_of_scans d (scans_quotedLexemes schema? table alias?) .whole
  rw [List.append_nil, ← toList_quotedClause, List.append_nil] at hpieces
  have hvisible : (TokenStream.ofText d (quotedClause schema? table alias?)).visible =
      laidVisible 0 0 (piecesOf d (quotedLexemes schema? table alias?)) := by
    rw [TokenStream.visible, TokenStream.tokens_ofText, hpieces, TokenStream.leftover, if_pos rfl,
      List.append_nil]
    rfl
  rw [Parser.references_fromClause, hvisible, piecesOf_quotedLexemes]
  have hname := Name.ofText_inBackTicks
  simp only [Span.behind, String.length_append, Name.inBackTicks, String.length_ofList] at hname ⊢
  cases schema? with
  | none =>
    obtain ⟨stop, hstop, hfinish⟩ := finishTable_aliasLexemes d 3
      (5 + (Name.ticked table.toList).length) alias?
    apply tables_of_readTable rfl rfl hstop
    intro bound
    refine ((readTable_aliasLexemes d bound _ _ _ alias?).trans (hfinish bound _)).trans ?_
    simp only [TableReference.ofTable, nameOf, hname]
    rfl
  | some schema =>
    obtain ⟨stop, hstop, hfinish⟩ := finishTable_aliasLexemes d 5
      (5 + (Name.ticked schema.toList).length + 1 + (Name.ticked table.toList).length) alias?
    apply tables_of_readTable rfl rfl hstop
    intro bound
    refine ((readTable_of_schema bound _ rfl rfl _).trans (hfinish bound _)).trans ?_
    simp only [TableReference.ofTable, nameOf, hname, length_schemaPart]
    rfl

end

end FromClause

end SqlCompletion
