import Mathlib.Data.List.DropRight
import SqlCompletion.Proofs.Quoting
import SqlCompletion.Proofs.TableRecognition
import SqlCompletion.Proofs.Versions
set_option autoImplicit false

/-!
# Strings as aliases

Behind `AS` an alias may be a string. Its lexeme runs to the first single quote that is not doubled
(`Lexeme.scans_inQuotes`), so the clause has the one table that it names, whatever the string is.
The alias is not always that string: the quotes at the two ends are dropped, no matter how many
there are, and the rest is unquoted like a name. So a quote inside stays doubled
(`alias_of_doubledQuote`), and a string that looks like a quoted name loses its quotes.

All other strings come back, and no more than these (`Name.ofAliasText_inQuotes_eq_iff`). Both
directions are told by counting. Trimming takes away characters of one kind at the ends only
(`trimBoth_enclosed`, `countP_trimBoth`), doubling makes a text longer unless there is nothing to
double (`length_double`), and unquoting loses the quotes of a name (`countP_unquote`). So where
something was changed, the number of some quotes is not what it was.

The main result has the one reference for every string, and the condition under which its alias is
the string (`references_stringAlias`). Strings with a backslash are left out: whether it escapes the
next character is for the modes of the server to say, and then the lexeme may go on.
-/

namespace SqlCompletion

namespace Name

/-! ## Characters at the ends -/

section

variable {p q : Char → Bool} {cs : List Char}

theorem trimBoth_eq_rdropWhile : Text.trimBoth p cs = (cs.dropWhile p).rdropWhile p := rfl

theorem trimBoth_trimBoth (cs : List Char) :
    Text.trimBoth p (Text.trimBoth p cs) = Text.trimBoth p cs := by
  have hfront : ((cs.dropWhile p).rdropWhile p).dropWhile p = (cs.dropWhile p).rdropWhile p := by
    have hprefix := List.rdropWhile_prefix p (cs.dropWhile p)
    cases hinner : (cs.dropWhile p).rdropWhile p with
    | nil => rfl
    | cons c inner =>
      rw [hinner] at hprefix
      obtain ⟨behind, hbehind⟩ := hprefix
      have hhead := List.head?_dropWhile_not p cs
      rw [← hbehind] at hhead
      exact List.dropWhile_cons_of_neg (by simpa using hhead)
  rw [trimBoth_eq_rdropWhile, trimBoth_eq_rdropWhile, hfront, List.rdropWhile_idempotent]

/-- One more such character at each end makes no difference. -/
theorem trimBoth_enclosed {c : Char} (hc : p c = true) (cs : List Char) :
    Text.trimBoth p (c :: (cs ++ [c])) = Text.trimBoth p cs := by
  rw [trimBoth_eq_rdropWhile, trimBoth_eq_rdropWhile, List.dropWhile_cons_of_pos hc,
    List.dropWhile_append]
  split
  · rename_i hnil
    rw [List.isEmpty_iff.1 hnil, List.dropWhile_cons_of_pos hc]
    rfl
  · exact List.rdropWhile_concat_pos p _ c hc

theorem countP_dropWhile (h : ∀ c, p c = true → q c = false) (cs : List Char) :
    (cs.dropWhile p).countP q = cs.countP q := by
  induction cs with
  | nil => rfl
  | cons c cs ih =>
    by_cases hc : p c = true
    · rw [List.dropWhile_cons_of_pos hc, ih, List.countP_cons_of_neg (by simp [h c hc])]
    · rw [List.dropWhile_cons_of_neg hc]

/-- Characters of another kind are not lost at the ends. -/
theorem countP_trimBoth (h : ∀ c, p c = true → q c = false) (cs : List Char) :
    (Text.trimBoth p cs).countP q = cs.countP q := by
  rw [Text.trimBoth, List.countP_reverse, countP_dropWhile h, List.countP_reverse,
    countP_dropWhile h]

end

/-! ## Doubled quotes -/

section

variable {quote : Char} {cs : List Char}

theorem double_eq_self (h : quote ∉ cs) : double quote cs = cs := by
  induction cs with
  | nil => rfl
  | cons c cs ih =>
    rw [List.mem_cons, not_or] at h
    rw [double_cons, if_neg (Ne.symm h.1), ih h.2]
    rfl

theorem length_double (cs : List Char) :
    (double quote cs).length = cs.length + cs.count quote := by
  induction cs with
  | nil => rfl
  | cons c cs ih =>
    rw [double_cons, List.length_append, ih, List.length_cons, List.count_cons]
    by_cases hc : c = quote
    · simp [hc]
      omega
    · simp [hc]
      omega

theorem not_mem_of_double_eq_self (h : double quote cs = cs) : quote ∉ cs := by
  have hlength : (double quote cs).length = cs.length + cs.count quote := length_double cs
  rw [h] at hlength
  exact List.count_eq_zero.1 (by omega)

theorem reverse_double (cs : List Char) : (double quote cs).reverse = double quote cs.reverse := by
  have hsame : (List.reverse ∘ fun c => if c = quote then [c, c] else [c]) =
      fun c => if c = quote then [c, c] else [c] := by
    funext c
    dsimp only [Function.comp_apply]
    split <;> rfl
  rw [double, List.reverse_flatMap, hsame, double]

theorem dropWhile_double (cs : List Char) :
    (double quote cs).dropWhile (· == quote) = double quote (cs.dropWhile (· == quote)) := by
  induction cs with
  | nil => rfl
  | cons c cs ih =>
    rw [double_cons]
    by_cases hc : c = quote
    · simp [hc, ih]
    · simp [hc, double_cons]

theorem trimBoth_double (cs : List Char) :
    Text.trimBoth (· == quote) (double quote cs) =
      double quote (Text.trimBoth (· == quote) cs) := by
  rw [Text.trimBoth, dropWhile_double, reverse_double, dropWhile_double, reverse_double]
  rfl

theorem countP_double {q : Char → Bool} (hquote : q quote = false) (cs : List Char) :
    (double quote cs).countP q = cs.countP q := by
  induction cs with
  | nil => rfl
  | cons c cs ih =>
    rw [double_cons, List.countP_append, ih, List.countP_cons]
    split
    · rename_i hc
      simp [hc, hquote]
    · simp [Nat.add_comm]

theorem undouble_sublist (quote : Char) (cs : List Char) : (undouble quote cs).Sublist cs := by
  fun_induction undouble quote cs with
  | case1 => exact .slnil
  | case2 c => exact List.Sublist.refl _
  | case3 c d rest hboth ih =>
    rw [hboth.1]
    exact (ih.cons d).cons_cons quote
  | case4 c d rest _ ih => exact ih.cons_cons c

end

/-! ## Texts that look like quoted names -/

/-- The text starts and ends with the same quote of names. -/
def LooksQuoted (cs : List Char) : Prop :=
  ∃ quote inside, isQuote quote = true ∧ cs = quote :: (inside ++ [quote])

theorem unquote_of_not {cs : List Char} (h : ¬LooksQuoted cs) : unquote cs = cs := by
  unfold unquote
  split
  · rfl
  · rename_i c rest
    refine if_neg fun hends => h ?_
    rw [Bool.and_eq_true, beq_iff_eq] at hends
    obtain ⟨inside, rfl⟩ := List.getLast?_eq_some_iff.1 hends.2
    exact ⟨c, inside, hends.1, rfl⟩

theorem unquote_enclosed {quote : Char} (h : isQuote quote = true) (inside : List Char) :
    unquote (quote :: (inside ++ [quote])) = undouble quote inside := by
  simp [unquote, h]

/-- The quotes of names are lost. -/
theorem countP_unquote {q : Char → Bool} (hquote : ∀ c, isQuote c = true → q c = true)
    {cs : List Char} (h : LooksQuoted cs) : (unquote cs).countP q + 2 ≤ cs.countP q := by
  obtain ⟨quote, inside, hisQuote, rfl⟩ := h
  have hle := (undouble_sublist quote inside).countP_le (p := q)
  rw [unquote_enclosed hisQuote, List.countP_cons_of_pos (hquote quote hisQuote),
    List.countP_append, List.countP_singleton, if_pos (hquote quote hisQuote)]
  omega

/-! ## Strings -/

/-- A string with these characters. -/
def inQuotes (s : String) : String :=
  String.ofList ('\'' :: (double '\'' s.toList ++ ['\'']))

theorem ofAliasText_inQuotes (s : String) : ofAliasText (inQuotes s) =
    String.ofList (unquote (double '\'' (Text.trimBoth (· == '\'') s.toList))) := by
  rw [ofAliasText, inQuotes, String.toList_ofList, trimBoth_enclosed rfl, trimBoth_double]

/-- A string comes back unless it has a single quote or looks like a quoted name. -/
theorem ofAliasText_inQuotes_eq_iff (s : String) :
    ofAliasText (inQuotes s) = s ↔ '\'' ∉ s.toList ∧ ¬LooksQuoted s.toList := by
  have hname : ∀ c, isQuote c = true → (c != '\'') = true := by
    intro c hc
    simp only [isQuote, Bool.or_eq_true, beq_iff_eq] at hc
    rcases hc with rfl | rfl <;> decide
  rw [ofAliasText_inQuotes, String.ext_iff, String.toList_ofList]
  generalize s.toList = cs
  constructor
  · intro h
    -- A string that looks quoted would come back with fewer characters that are no single quotes.
    have hplain : ¬LooksQuoted (double '\'' (Text.trimBoth (· == '\'') cs)) := by
      intro hlooks
      have hfewer := countP_unquote hname hlooks
      rw [h, countP_double (by rfl), countP_trimBoth (by simp)] at hfewer
      omega
    rw [unquote_of_not hplain] at h
    have htrim : Text.trimBoth (· == '\'') cs = cs := by
      have hsame := congrArg (Text.trimBoth (· == '\'')) h
      rwa [trimBoth_double, trimBoth_trimBoth, h, eq_comm] at hsame
    rw [htrim] at h hplain
    rw [h] at hplain
    exact ⟨not_mem_of_double_eq_self h, hplain⟩
  · rintro ⟨hquote, hplain⟩
    have htrim : Text.trimBoth (· == '\'') cs = cs := by
      refine Text.trimBoth_of_forall fun c hc => beq_eq_false_iff_ne.2 ?_
      rintro rfl
      exact hquote hc
    rw [htrim, double_eq_self hquote, unquote_of_not hplain]

end Name

/-! ## The lexeme of a string -/

namespace Lexeme

/-- A string without backslashes is one lexeme at the end of a text. -/
theorem scans_inQuotes {s : String} (h : '\\' ∉ s.toList) (after : Option Form) :
    Scans after [(.singleQuoted, (Name.inQuotes s).toList)] [] := by
  have hplain : ∀ c ∈ s.toList, (true && c == '\\') = false := by
    intro c hc
    rw [Bool.true_and, beq_eq_false_iff_ne]
    rintro rfl
    exact h hc
  rw [Name.inQuotes, String.toList_ofList]
  exact scans_quoted (fun _ => rfl) rfl hplain (.nil _ _) (by simp)

end Lexeme

/-! ## The clause -/

namespace FromClause

open Lexeme (Scans chars spaced)
open TokenStream (piecesOf)

/-- The lexemes of a clause in which a string is the alias of a table. -/
def stringAliasLexemes (s : String) : List (Form × List Char) :=
  spaced [['F', 'R', 'O', 'M'], ['t'], ['A', 'S']] ++
    [(.singleQuoted, (Name.inQuotes s).toList)]

theorem toList_stringAlias (s : String) :
    ("FROM t AS " ++ Name.inQuotes s).toList = chars (stringAliasLexemes s) := by
  simp [stringAliasLexemes, chars, spaced]

theorem scans_stringAliasLexemes {s : String} (h : '\\' ∉ s.toList) :
    Scans none (stringAliasLexemes s) [] := by
  have hwords := @Lexeme.scans_spaced [['F', 'R', 'O', 'M'], ['t'], ['A', 'S']] (by decide)
  exact Lexeme.scans_append.2 ⟨hwords _ _, Lexeme.scans_inQuotes h _⟩

theorem piecesOf_stringAliasLexemes (d : Dialect) (s : String) :
    piecesOf d (stringAliasLexemes s) =
      [(.keyword .FROM, ['F', 'R', 'O', 'M']), (.symbol .whitespace, [' ']),
        (.symbol .identifier, ['t']), (.symbol .whitespace, [' ']), (.keyword .AS, ['A', 'S']),
        (.symbol .whitespace, [' ']), (.symbol .singleQuotedText, (Name.inQuotes s).toList)] := by
  have ht := Keyword.wordTerminal_of_ofWord?_none d (Keyword.ofWord?_singleton 't')
  simp [stringAliasLexemes, spaced, piecesOf, Form.terminal, wordTerminal_from, wordTerminal_as, ht]

/-- A clause with one table, an alias behind `AS`, and nothing else. -/
theorem tables_of_marked {start first mark last stop : Token} (hstart : start.kind = .keyword .FROM)
    (hfirst : first.kind.isNameLike = true) (hmark : mark.kind = .keyword .AS)
    (hlast : isAlias true last.kind = true) (hstop : stop.kind = .eof) :
    tables [start, first, mark, last, stop] =
      [{ TableReference.ofTable (nameOf first) none with
          alias? := some ⟨Name.ofAliasText last.text, last.span⟩ }] := by
  have hsingle := SingleTable.mk (.bare hfirst) .none (.marked hmark hlast) .none
  have hends : EndsList [stop] := by
    constructor <;> simp [headKind, hstop, isClauseEnd]
  have hlist := @list_of_singleTable _ _ _ 5 maxNesting 5 hsingle (by simp) (by simp) hends
  rw [tables_cons hstart]
  exact congrArg Reading.tables hlist

/-- The clause has one table, with the alias that is read of the string. -/
theorem references_inQuotes (d : Dialect) {s : String} (h : '\\' ∉ s.toList) :
    (Parser.mysql d ("FROM t AS " ++ Name.inQuotes s) .fromClause).references =
      [{ kind := .table
         table? := some "t"
         span := .behind "FROM " "t"
         alias? := some
           ⟨Name.ofAliasText (Name.inQuotes s), .behind "FROM t AS " (Name.inQuotes s)⟩ }] := by
  have htokens := TokenStream.tokens_of_scans_whole d (toList_stringAlias s)
    (scans_stringAliasLexemes h)
  rw [piecesOf_stringAliasLexemes] at htokens
  rw [Parser.references_fromClause, TokenStream.visible, htokens]
  refine (tables_of_marked rfl rfl rfl rfl rfl).trans ?_
  simp only [String.ofList_toList, Span.behind, String.length_toList]
  rfl

/-- Whatever a string without backslashes is, the clause in which it is the alias of a table has
that table and no other, with one alias. The alias is the string just if the string has no single
quote and does not look like a quoted name. -/
theorem references_stringAlias (d : Dialect) (s : String) (h : '\\' ∉ s.toList) :
    ∃ name, (Parser.mysql d ("FROM t AS " ++ Name.inQuotes s) .fromClause).references =
        [{ kind := .table
           table? := some "t"
           span := .behind "FROM " "t"
           alias? := some ⟨name, .behind "FROM t AS " (Name.inQuotes s)⟩ }] ∧
      (name = s ↔ '\'' ∉ s.toList ∧ ¬Name.LooksQuoted s.toList) :=
  ⟨_, references_inQuotes d h, Name.ofAliasText_inQuotes_eq_iff s⟩

theorem references_stringAlias_words :
    '\\' ∉ "order total".toList ∧
      ∃ name, (Parser.mysql {} "FROM t AS 'order total'" .fromClause).references =
        [{ kind := .table, table? := some "t", span := ⟨5, 6⟩,
           alias? := some ⟨name, ⟨10, 23⟩⟩ }] ∧ name = "order total" := by
  have hplain : '\\' ∉ "order total".toList := by decide
  obtain ⟨name, hreferences, hname⟩ := references_stringAlias {} "order total" hplain
  refine ⟨hplain, name, hreferences, hname.2 ⟨by decide, ?_⟩⟩
  rintro ⟨quote, inside, hquote, heq⟩
  obtain ⟨rfl, -⟩ := List.cons.inj heq
  cases hquote

/-- A quote inside of the string stays doubled. -/
theorem alias_of_doubledQuote :
    '\\' ∉ "it's".toList ∧ "FROM t AS " ++ Name.inQuotes "it's" = "FROM t AS 'it''s'" ∧
      (Parser.mysql {} "FROM t AS 'it''s'" .fromClause).references.map
        TableReference.aliasName? = [some "it''s"] := by
  decide +kernel

example : (Parser.mysql {} "FROM t AS '\"x\"'" .fromClause).references.map
    TableReference.aliasName? = [some "x"] := by decide +kernel

end FromClause

end SqlCompletion
