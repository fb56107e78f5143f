import SqlCompletion.Proofs.Renaming
import SqlCompletion.Proofs.TableGrammar
set_option autoImplicit false

/-!
# Parentheses in derivations

A grammar knows nothing of parentheses: they are terminals like all others. Whether they close one
another in what it derives can be seen from the bodies of its rules, read from their ends: behind
each part so many groups are open, and that tells how many are open in front of it
(`Element.ahead?`). A grammar whose bodies pass this check derives balanced tokens only
(`Derives.calling`).

Two more things are seen on the way: which terminals are outside of all parentheses, and which of
these have a group right behind them. An `Outline` names the words and the rules that matter, and
what it claims of the bodies is checked by evaluation (`Outline.Fits`).

There are two outlines of the MySQL grammar, and from these its two main results.

* All phrases are balanced (`Mysql.balanced_of_phrase`). The phrases are the rules that may stand
  inside of parentheses, whole statements not among them.
* In an expression, no terminal outside of parentheses ends a factor of a `FROM` clause but `LEFT`
  and `RIGHT`, which are functions there and have their arguments right behind them
  (`Mysql.calling_of_expr`).

The check is sound and not complete: an element other than a sequence has to leave open as many
groups as it found, so a grammar that opens a group in one alternative and closes it elsewhere does
not pass. What is derived is told by tokens whose kinds the grammar derives, since the readers of
clauses work on tokens. The derivations at the end are for the examples of other modules.
-/

namespace SqlCompletion

/-! ## Tokens of a derivation -/

namespace Grammar

variable {g : Grammar} {v : Version} {ts : List Token}

theorem Derives.exists_token {t : Terminal} (h : Derives g v (.token t) (ts.map Token.kind)) :
    ∃ u, ts = [u] ∧ u.kind = t := by
  generalize hw : ts.map Token.kind = w at h
  cases h
  exact List.map_eq_singleton_iff.1 hw

theorem Derives.exists_name (h : Derives g v .ident (ts.map Token.kind)) :
    ∃ u, ts = [u] ∧ u.kind.isNameLike = true := by
  generalize hw : ts.map Token.kind = w at h
  cases h with
  | ident name =>
    obtain ⟨u, hts, rfl⟩ := List.map_eq_singleton_iff.1 hw
    exact ⟨u, hts, name⟩

theorem Derives.eq_nil (h : Derives g v (.seq []) (ts.map Token.kind)) : ts = [] := by
  generalize hw : ts.map Token.kind = w at h
  cases h
  exact List.map_eq_nil_iff.1 hw

/-- The tokens of a sequence are those of its first element and those of the others. -/
theorem Derives.exists_append {e : Element} {rest : List Element}
    (h : Derives g v (.seq (e :: rest)) (ts.map Token.kind)) :
    ∃ us ws, ts = us ++ ws ∧ Derives g v e (us.map Token.kind) ∧
      Derives g v (.seq rest) (ws.map Token.kind) := by
  generalize hw : ts.map Token.kind = w at h
  cases h with
  | seqCons head tail =>
    obtain ⟨us, ws, hts, rfl, rfl⟩ := List.map_eq_append_iff.1 hw
    exact ⟨us, ws, hts, head, tail⟩

/-- The tokens of a sequence that starts with a terminal. -/
theorem Derives.exists_cons {t : Terminal} {rest : List Element}
    (h : Derives g v (.seq (.token t :: rest)) (ts.map Token.kind)) :
    ∃ u ws, ts = u :: ws ∧ u.kind = t ∧ Derives g v (.seq rest) (ws.map Token.kind) := by
  obtain ⟨us, ws, rfl, hhead, htail⟩ := h.exists_append
  obtain ⟨u, rfl, hu⟩ := hhead.exists_token
  exact ⟨u, ws, rfl, hu, htail⟩

theorem Derives.exists_chosen {alternatives : List Element} {w : List Terminal}
    (h : Derives g v (.choice alternatives) w) : ∃ e ∈ alternatives, Derives g v e w := by
  cases h with
  | choice chosen inner => exact ⟨_, chosen, inner⟩

theorem Derives.eq_nil_or {e : Element} (h : Derives g v (.opt e) (ts.map Token.kind)) :
    ts = [] ∨ Derives g v e (ts.map Token.kind) := by
  generalize hw : ts.map Token.kind = w at h
  cases h with
  | optNone => exact .inl (List.map_eq_nil_iff.1 hw)
  | optSome inner => exact .inr inner

/-- The tokens of a repetition: none, or those of one round and of the others. -/
theorem Derives.eq_nil_or_append {e : Element} (h : Derives g v (.star e) (ts.map Token.kind)) :
    ts = [] ∨ ∃ us ws, ts = us ++ ws ∧ Derives g v e (us.map Token.kind) ∧
      Derives g v (.star e) (ws.map Token.kind) := by
  generalize hw : ts.map Token.kind = w at h
  cases h with
  | starNil => exact .inl (List.map_eq_nil_iff.1 hw)
  | starCons head tail =>
    obtain ⟨us, ws, hts, rfl, rfl⟩ := List.map_eq_append_iff.1 hw
    exact .inr ⟨us, ws, hts, head, tail⟩

theorem Derives.of_since {u : Version} {e : Element} {w : List Terminal}
    (h : Derives g v (.since u e) w) : Derives g v e w := by
  cases h with
  | since _ inner => exact inner

end Grammar

theorem Mysql.derives_body {v : Version} {r : Rule} {w : List Terminal}
    (h : Mysql.grammar.Derives v (.rule r) w) : Mysql.grammar.Derives v (Mysql.body r) w := by
  cases h with
  | rule defined inner =>
    obtain rfl := Option.some.inj defined
    exact inner

namespace FromClause

/-! ## Calls -/

/-- The tokens are balanced, and outside of all parentheses none of them is a stop, and each that is
a call has a group right behind it. -/
inductive Calling (calls stops : Terminal → Bool) : List Token → Prop
  | nil : Calling calls stops []
  | plain {t : Token} {ts : List Token} (ht : isPlain t.kind = true) (hstop : stops t.kind = false)
      (hcall : calls t.kind = true → headKind ts = .symbol .openPar)
      (hrest : Calling calls stops ts) : Calling calls stops (t :: ts)
  | group {opening closing : Token} {inside ts : List Token}
      (hopen : opening.kind = .symbol .openPar) (hclose : closing.kind = .symbol .closePar)
      (hinside : Balanced noStop inside) (hrest : Calling calls stops ts) :
      Calling calls stops (opening :: (inside ++ closing :: ts))

section

variable {calls stops : Terminal → Bool} {ts us : List Token}

theorem Calling.append (hts : Calling calls stops ts) (hus : Calling calls stops us) :
    Calling calls stops (ts ++ us) := by
  induction hts with
  | nil => exact hus
  | @plain t ts ht hstop hcall _ ih =>
    refine .plain ht hstop (fun h => ?_) ih
    have hopen := hcall h
    cases ts with
    | nil => cases hopen
    | cons u ts => exact hopen
  | group hopen hclose hinside _ ih =>
    rw [List.cons_append, List.append_assoc, List.cons_append]
    exact .group hopen hclose hinside ih

theorem Calling.balanced (h : Calling calls stops ts) : Balanced noStop ts := by
  induction h with
  | nil => exact .nil
  | plain ht _ _ _ ih => exact .plain ht rfl ih
  | group hopen hclose hinside _ ih => exact .group hopen hclose hinside ih

theorem Balanced.calling (h : Balanced stops ts) : Calling noStop stops ts := by
  induction h with
  | nil => exact .nil
  | plain ht hstop _ ih => exact .plain ht hstop (fun h => nomatch h) ih
  | group hopen hclose hinside _ _ ih => exact .group hopen hclose hinside ih

/-! ## Groups that are open -/

/-- So many groups are open in front of the tokens. They are closed one after the other, and behind
them the tokens are as they are outside of all parentheses. -/
inductive Closes (calls stops : Terminal → Bool) : Nat → List Token → Prop
  | none {ts : List Token} (h : Calling calls stops ts) : Closes calls stops 0 ts
  | group {n : Nat} {inside ts : List Token} {closing : Token} (hinside : Balanced noStop inside)
      (hclose : closing.kind = .symbol .closePar) (hrest : Closes calls stops n ts) :
      Closes calls stops (n + 1) (inside ++ closing :: ts)

variable {n : Nat} {t : Token}

theorem Closes.openPar (h : Closes calls stops (n + 1) ts) (ht : t.kind = .symbol .openPar) :
    Closes calls stops n (t :: ts) := by
  cases h with
  | @group _ inside rest closing hinside hclose hrest =>
    cases hrest with
    | none hrest => exact .none (.group ht hclose hinside hrest)
    | @group n between rest closing' hbetween hclose' hrest =>
      have hgroup : Balanced noStop (t :: (inside ++ closing :: between)) :=
        .group ht hclose hinside hbetween
      have hcloses := Closes.group hgroup hclose' hrest
      rwa [List.cons_append, List.append_assoc, List.cons_append] at hcloses

theorem Closes.closePar (h : Closes calls stops n ts) (ht : t.kind = .symbol .closePar) :
    Closes calls stops (n + 1) (t :: ts) :=
  .group .nil ht h

/-- Balanced tokens leave open what is open. -/
theorem Closes.balanced (h : Closes calls stops (n + 1) ts) (hus : Balanced noStop us) :
    Closes calls stops (n + 1) (us ++ ts) := by
  cases h with
  | group hinside hclose hrest =>
    have hcloses := Closes.group (hus.append hinside) hclose hrest
    rwa [List.append_assoc] at hcloses

theorem Closes.calling (h : Closes calls stops 0 ts) (hus : Calling calls stops us) :
    Closes calls stops 0 (us ++ ts) := by
  cases h with
  | none h => exact .none (hus.append h)

end

end FromClause

/-! ## Reading bodies from their ends -/

/-- What matters of the rules and the terminals of a grammar: the words that are calls and those
that stop outside of parentheses, the rules that may stand there, and the rules that may stand
inside of parentheses besides. -/
structure Outline where
  calls : Terminal → Bool
  stops : Terminal → Bool
  outer : Rule → Bool
  inner : Rule → Bool

/-- What is behind a part of a sequence: so many groups are open there, and an opening parenthesis
is known to be next or is not. -/
structure Behind where
  groups : Nat
  opens : Bool
  deriving DecidableEq, Repr

namespace Behind

variable (o : Outline)

/-- The tokens are so. -/
def Holds (b : Behind) (ts : List Token) : Prop :=
  FromClause.Closes o.calls o.stops b.groups ts ∧
    (b.opens = true → headKind ts = .symbol .openPar)

/-- The same place, where nothing is known of what is next. -/
def loose (b : Behind) : Behind := { b with opens := false }

/-- What is in front of a terminal. -/
def aheadOf? (t : Terminal) (b : Behind) : Option Behind :=
  if t = .symbol .openPar then
    match b.groups with
    | 0 => none
    | n + 1 => some ⟨n, true⟩
  else if t = .symbol .closePar then some ⟨b.groups + 1, false⟩
  else if t = .eof then none
  else
    match b.groups with
    | 0 => if o.stops t || (o.calls t && !b.opens) then none else some b.loose
    | _ + 1 => some b.loose

end Behind

namespace Element

variable (o : Outline)

mutual

/-- What is in front of the element, given what is behind it, if that can be told. But for sequences
and parentheses themselves, an element has to leave open as many groups as it found. -/
def ahead? : Element → Behind → Option Behind
  | token t, b => b.aheadOf? o t
  | ident, b => some b.loose
  | rule r, b => if o.outer r || (b.groups != 0 && o.inner r) then some b.loose else none
  | seq items, b => seqAhead? items b
  | choice alternatives, b => if keepAll alternatives b then some b.loose else none
  | opt e, b => if (e.ahead? b).any (·.groups == b.groups) then some b.loose else none
  | star e, b => if (e.ahead? b.loose).any (·.groups == b.groups) then some b.loose else none
  | plus e, b => if (e.ahead? b.loose).any (·.groups == b.groups) then some b.loose else none
  | since _ e, b => e.ahead? b
  | before _ e, b => e.ahead? b

/-- What is in front of the sequence. -/
def seqAhead? : List Element → Behind → Option Behind
  | [], b => some b
  | e :: rest, b => (seqAhead? rest b).bind (e.ahead?)

/-- All of the elements leave open as many groups as they found. -/
def keepAll : List Element → Behind → Bool
  | [], _ => true
  | e :: es, b => (e.ahead? b).any (·.groups == b.groups) && keepAll es b

end

variable {o}

theorem any_of_keepAll {e : Element} {es : List Element} {b : Behind}
    (h : keepAll o es b = true) (he : e ∈ es) :
    (e.ahead? o b).any (·.groups == b.groups) = true := by
  induction es with
  | nil => cases he
  | cons e' es ih =>
    rw [keepAll, Bool.and_eq_true] at h
    rcases List.mem_cons.1 he with rfl | he
    · exact h.1
    · exact ih h.2 he

end Element

namespace Behind

variable {o : Outline} {b : Behind} {ts us : List Token}

theorem Holds.loose (h : b.Holds o ts) : b.loose.Holds o ts := ⟨h.1, fun h => nomatch h⟩

/-- What is known of a place with as many open groups holds without what is next. -/
theorem holds_loose_of_any {b? : Option Behind} (hany : b?.any (·.groups == b.groups) = true)
    (h : ∀ b', b? = some b' → b'.Holds o ts) : b.loose.Holds o ts := by
  obtain ⟨b', hb', hgroups⟩ := (Option.any_eq_true _ _).1 hany
  refine ⟨?_, fun h => nomatch h⟩
  have hcloses := (h b' hb').1
  rwa [beq_iff_eq.1 hgroups] at hcloses

theorem Holds.balanced (h : b.Holds o ts) (hgroups : b.groups ≠ 0)
    (hus : FromClause.Balanced FromClause.noStop us) : b.loose.Holds o (us ++ ts) := by
  obtain ⟨n, hn⟩ := Nat.exists_eq_succ_of_ne_zero hgroups
  have hcloses := h.1
  rw [hn] at hcloses
  refine ⟨?_, fun h => nomatch h⟩
  rw [Behind.loose, hn]
  exact hcloses.balanced hus

theorem Holds.calling (h : b.Holds o ts) (hus : FromClause.Calling o.calls o.stops us) :
    b.loose.Holds o (us ++ ts) := by
  by_cases hgroups : b.groups = 0
  · have hcloses := h.1
    rw [hgroups] at hcloses
    refine ⟨?_, fun h => nomatch h⟩
    rw [Behind.loose, hgroups]
    exact hcloses.calling hus
  · exact h.balanced hgroups hus.balanced

/-- A terminal that is no parenthesis leaves open what is open. -/
theorem Holds.plain {t : Token} (h : b.Holds o ts) (ht : FromClause.isPlain t.kind = true)
    (houter : b.groups = 0 → o.stops t.kind = false ∧ (o.calls t.kind = true → b.opens = true)) :
    b.loose.Holds o (t :: ts) := by
  by_cases hgroups : b.groups = 0
  · obtain ⟨hstop, hcall⟩ := houter hgroups
    have hcloses := h.1
    rw [hgroups] at hcloses
    cases hcloses with
    | none hts =>
      refine ⟨?_, fun h => nomatch h⟩
      rw [Behind.loose, hgroups]
      exact .none (.plain ht hstop (fun hc => h.2 (hcall hc)) hts)
  · exact h.balanced hgroups (.plain ht rfl .nil)

theorem Holds.aheadOf {t : Token} {b' : Behind} (h : b.Holds o ts)
    (hb : b.aheadOf? o t.kind = some b') : b'.Holds o (t :: ts) := by
  unfold aheadOf? at hb
  split at hb
  · rename_i hopen
    split at hb
    · cases hb
    · rename_i n hn
      cases hb
      have hcloses := h.1
      rw [hn] at hcloses
      exact ⟨hcloses.openPar hopen, fun _ => hopen⟩
  · split at hb
    · rename_i hclose
      cases hb
      exact ⟨h.1.closePar hclose, fun hopens => by cases hopens⟩
    · split at hb
      · cases hb
      · rename_i hopen hclose heof
        have ht : FromClause.isPlain t.kind = true := by
          unfold FromClause.isPlain
          split <;> simp_all
        split at hb
        · rename_i hn
          split at hb
          · cases hb
          · rename_i hgoesOn
            cases hb
            simp only [Bool.or_eq_true, Bool.and_eq_true, not_or, Bool.not_eq_true] at hgoesOn
            refine h.plain ht fun _ => ⟨hgoesOn.1, fun hcall => ?_⟩
            simpa [hcall] using hgoesOn.2
        · rename_i hn
          cases hb
          exact h.plain ht fun hzero => by rw [hn] at hzero; cases hzero

end Behind

namespace Grammar

variable {g : Grammar} {v : Version} {o : Outline}

/-- The outline is right: names are neither calls nor stops, the bodies of the outer rules leave
open nothing, and the inner rules derive balanced tokens. -/
structure Fits (g : Grammar) (v : Version) (o : Outline) : Prop where
  names : ∀ t : Terminal, t.isNameLike = true → o.stops t = false ∧ o.calls t = false
  bodies : ∀ r body, o.outer r = true → g.body? r = some body →
    (body.ahead? o ⟨0, false⟩).any (·.groups == 0) = true
  inner : ∀ r ts, o.inner r = true → Derives g v (.rule r) (ts.map Token.kind) →
    FromClause.Balanced FromClause.noStop ts

/-- What is derived stands between what is ahead and what is behind. -/
theorem Derives.holds (ho : g.Fits v o) {e : Element} {w : List Terminal} (h : Derives g v e w)
    {ts rest : List Token} (hw : ts.map Token.kind = w) {b b' : Behind}
    (hb : e.ahead? o b = some b') (hrest : b.Holds o rest) : b'.Holds o (ts ++ rest) := by
  induction h generalizing ts rest b b' with
  | token t =>
    obtain ⟨u, rfl, rfl⟩ := List.map_eq_singleton_iff.1 hw
    rw [Element.ahead?] at hb
    exact hrest.aheadOf hb
  | ident name =>
    obtain ⟨u, rfl, rfl⟩ := List.map_eq_singleton_iff.1 hw
    rw [Element.ahead?] at hb
    cases hb
    obtain ⟨hstop, hcall⟩ := ho.names _ name
    refine hrest.plain (FromClause.isPlain_of_holds name rfl rfl rfl) fun _ => ⟨hstop, ?_⟩
    intro hc
    rw [hcall] at hc
    cases hc
  | @rule r body w defined inner ih =>
    rw [Element.ahead?] at hb
    split at hb
    · rename_i hmay
      cases hb
      rw [Bool.or_eq_true, Bool.and_eq_true, bne_iff_ne] at hmay
      rcases hmay with houter | ⟨hgroups, hinner⟩
      · have hnone : (⟨0, false⟩ : Behind).Holds o [] := ⟨.none .nil, fun h => nomatch h⟩
        have hkeeps := ho.bodies r body houter defined
        have hbody := Behind.holds_loose_of_any (b := ⟨0, false⟩) hkeeps
          fun b' hb' => ih hw hb' hnone
        rw [List.append_nil] at hbody
        cases hbody.1 with
        | none hcalling => exact hrest.calling hcalling
      · have hbalanced := ho.inner r ts hinner (by rw [hw]; exact .rule defined inner)
        exact hrest.balanced hgroups hbalanced
    · cases hb
  | seqNil =>
    rw [List.map_eq_nil_iff] at hw
    subst hw
    rw [Element.ahead?, Element.seqAhead?] at hb
    cases hb
    exact hrest
  | seqCons _ _ ihHead ihTail =>
    obtain ⟨us, ws, rfl, hus, hws⟩ := List.map_eq_append_iff.1 hw
    rw [Element.ahead?, Element.seqAhead?] at hb
    obtain ⟨between, htail, hhead⟩ := Option.bind_eq_some_iff.1 hb
    rw [List.append_assoc]
    exact ihHead hus hhead (ihTail hws (by rwa [Element.ahead?]) hrest)
  | choice chosen _ ih =>
    rw [Element.ahead?] at hb
    split at hb
    · rename_i hkeeps
      cases hb
      exact Behind.holds_loose_of_any (Element.any_of_keepAll hkeeps chosen) fun b' hb' =>
        ih hw hb' hrest
    · cases hb
  | optNone =>
    rw [List.map_eq_nil_iff] at hw
    subst hw
    rw [Element.ahead?] at hb
    split at hb
    · cases hb
      exact hrest.loose
    · cases hb
  | optSome _ ih =>
    rw [Element.ahead?] at hb
    split at hb
    · rename_i hkeeps
      cases hb
      exact Behind.holds_loose_of_any hkeeps fun b' hb' => ih hw hb' hrest
    · cases hb
  | starNil =>
    rw [List.map_eq_nil_iff] at hw
    subst hw
    rw [Element.ahead?] at hb
    split at hb
    · cases hb
      exact hrest.loose
    · cases hb
  | starCons _ _ ihHead ihTail | plus _ _ ihHead ihTail =>
    obtain ⟨us, ws, rfl, hus, hws⟩ := List.map_eq_append_iff.1 hw
    rw [Element.ahead?] at hb
    split at hb
    · rename_i hkeeps
      cases hb
      have htail : b.loose.Holds o (ws ++ rest) :=
        ihTail hws (by rw [Element.ahead?, if_pos hkeeps]) hrest
      rw [List.append_assoc]
      exact Behind.holds_loose_of_any (b := b.loose) hkeeps fun b' hb' => ihHead hus hb' htail
    · cases hb
  | since _ _ ih | before _ _ ih =>
    rw [Element.ahead?] at hb
    exact ih hw hb hrest

/-- What an outer rule derives is balanced, and its terminals outside of parentheses are as the
outline has them. -/
theorem Derives.calling (ho : g.Fits v o) {r : Rule} (hr : o.outer r = true) {ts : List Token}
    (h : Derives g v (.rule r) (ts.map Token.kind)) :
    FromClause.Calling o.calls o.stops ts := by
  have hnone : (⟨0, false⟩ : Behind).Holds o [] := ⟨.none .nil, fun h => nomatch h⟩
  have hholds := h.holds ho rfl (b := ⟨0, false⟩) (by rw [Element.ahead?, hr]; rfl) hnone
  rw [List.append_nil] at hholds
  cases hholds.1 with
  | none hcalling => exact hcalling

end Grammar

/-! ## The MySQL grammar -/

namespace Mysql

open FromClause

variable {v : Version} {ts : List Token}

/-- The rules that can stand inside of parentheses, and some more: not those of whole statements,
nor what follows a query only outside of parentheses. -/
def isPhrase : Rule → Bool
  | .query | .simpleStatement | .selectStatement | .lockingClause | .explainStatement
  | .showStatement | .utilityStatement | .transactionOrLockingStatement | .xaStatement => false
  | _ => true

/-- The rules of an expression outside of its parentheses. -/
def isExpressionPart : Rule → Bool
  | .expr | .boolTerm | .boolPri | .compOp | .predicate | .predicateOperations | .bitExpr
  | .simpleExpr | .simpleExprWithParentheses | .notRule | .not2Rule | .whenExpression
  | .thenExpression | .elseExpression | .interval | .columnRef | .runtimeFunctionCall
  | .functionCall | .sumExpr | .windowFunctionCall | .windowingClause | .windowSpec | .subquery
  | .identifierListWithParentheses | .literal | .textLiteral | .textStringLiteral | .numLiteral
  | .temporalLiteral => true
  | _ => false

/-- `LEFT` and `RIGHT` are words of a join, and functions besides. -/
def isSideWord : Terminal → Bool
  | .keyword .LEFT | .keyword .RIGHT => true
  | _ => false

/-- A terminal at which a factor is over, whatever it stands for. -/
def endsFactorOnly (t : Terminal) : Bool := endsFactor t && !isSideWord t

/-- The parentheses of phrases. -/
def phraseOutline : Outline := ⟨noStop, noStop, isPhrase, fun _ => false⟩

/-- The parentheses of expressions, and what may be outside of them. -/
def expressionOutline : Outline := ⟨isSideWord, endsFactorOnly, isExpressionPart, isPhrase⟩

theorem keeps_of_isPhrase : ∀ r, (!isPhrase r ||
    ((body r).ahead? phraseOutline ⟨0, false⟩).any (·.groups == 0)) = true :=
  Rule.forall_of_ofNat (by decide +kernel)

theorem keeps_of_isExpressionPart : ∀ r, (!isExpressionPart r ||
    ((body r).ahead? expressionOutline ⟨0, false⟩).any (·.groups == 0)) = true :=
  Rule.forall_of_ofNat (by decide +kernel)

theorem fits_phraseOutline (v : Version) : grammar.Fits v phraseOutline where
  names := fun _ _ => ⟨rfl, rfl⟩
  bodies := by
    intro r body hr hbody
    obtain rfl := Option.some.inj hbody
    have hkeeps := keeps_of_isPhrase r
    rwa [show isPhrase r = true from hr, Bool.not_true, Bool.false_or] at hkeeps
  inner := fun _ _ h => nomatch h

/-- The parentheses of a phrase close one another. -/
theorem balanced_of_phrase {r : Rule} (hr : isPhrase r = true)
    (h : grammar.Derives v (.rule r) (ts.map Token.kind)) : Balanced noStop ts :=
  (h.calling (fits_phraseOutline v) hr).balanced

theorem fits_expressionOutline (v : Version) : grammar.Fits v expressionOutline where
  names := by
    intro t ht
    constructor
    · by_contra hstop
      have hends : endsFactor t = true := (Bool.and_eq_true_iff.1 (Bool.of_not_eq_false hstop)).1
      rw [isNameLike_of_endsFactor hends] at ht
      cases ht
    · by_contra hcall
      have hside : isSideWord t = true := Bool.of_not_eq_false hcall
      unfold isSideWord at hside
      split at hside
      · cases ht
      · cases ht
      · cases hside
  bodies := by
    intro r body hr hbody
    obtain rfl := Option.some.inj hbody
    have hkeeps := keeps_of_isExpressionPart r
    rwa [show isExpressionPart r = true from hr, Bool.not_true, Bool.false_or] at hkeeps
  inner := fun _ _ hr h => balanced_of_phrase hr h

/-- The parentheses of an expression close one another, and outside of them nothing ends a factor
but `LEFT` and `RIGHT` in front of their arguments. -/
theorem calling_of_expr (h : grammar.Derives v (.rule .expr) (ts.map Token.kind)) :
    Calling isSideWord endsFactorOnly ts :=
  h.calling (fits_expressionOutline v) rfl

/-! ## Some phrases -/

variable {u w : List Terminal}

theorem derives_predicate (h : grammar.Derives v (.rule .simpleExpr) w) :
    grammar.Derives v (.rule .predicate) w := by
  have hbits : grammar.Derives v (.rule .bitExpr) (w ++ ([] ++ [])) :=
    .rule rfl (.seqCons h (.seqCons (.starNil _) .seqNil))
  have hpredicate : grammar.Derives v (.rule .predicate) (w ++ ([] ++ []) ++ ([] ++ [])) :=
    .rule rfl (.seqCons hbits (.seqCons (.optNone _) .seqNil))
  simpa using hpredicate

theorem derives_expr (h : grammar.Derives v (.rule .boolPri) w) :
    grammar.Derives v (.rule .expr) w := by
  have hterm : grammar.Derives v (.rule .boolTerm) (w ++ ([] ++ [])) :=
    .rule rfl (.choice (.tail _ (.head _)) (.seqCons h (.seqCons (.optNone _) .seqNil)))
  have hexpr : grammar.Derives v (.rule .expr) (w ++ ([] ++ []) ++ ([] ++ [])) :=
    .rule rfl (.seqCons hterm (.seqCons (.starNil _) .seqNil))
  simpa using hexpr

/-- An operand alone is an expression. -/
theorem derives_expr_operand (h : grammar.Derives v (.rule .simpleExpr) w) :
    grammar.Derives v (.rule .expr) w := by
  have hpri : grammar.Derives v (.rule .boolPri) (w ++ ([] ++ [])) :=
    .rule rfl (.seqCons (derives_predicate h) (.seqCons (.starNil _) .seqNil))
  rw [List.append_nil, List.append_nil] at hpri
  exact derives_expr hpri

/-- Two operands and a sign of equality are an expression. -/
theorem derives_expr_equal (hu : grammar.Derives v (.rule .simpleExpr) u)
    (hw : grammar.Derives v (.rule .simpleExpr) w) :
    grammar.Derives v (.rule .expr) (u ++ .symbol .equal :: w) := by
  have hequal : grammar.Derives v (.rule .compOp) [.symbol .equal] :=
    .rule rfl (.choice (.head _) (.token _))
  have hpri : grammar.Derives v (.rule .boolPri)
      (u ++ ((([.symbol .equal] ++ (w ++ [])) ++ []) ++ [])) :=
    .rule rfl (.seqCons (derives_predicate hu) (.seqCons (.starCons (.choice (.tail _ (.head _))
      (.seqCons hequal (.seqCons (.choice (.head _) (derives_predicate hw)) .seqNil)))
        (.starNil _)) .seqNil))
  rw [List.append_nil, List.append_nil, List.append_nil] at hpri
  exact derives_expr hpri

theorem derives_column : grammar.Derives v (.rule .simpleExpr) [.symbol .identifier] :=
  .rule rfl (.seqCons (.choice (.head _) (.rule rfl (.choice (.head _)
    (.seqCons (.ident rfl) (.seqCons (.optNone _) .seqNil))))) (.seqCons (.optNone _) .seqNil))

theorem derives_number : grammar.Derives v (.rule .simpleExpr) [.symbol .intNumber] :=
  .rule rfl (.seqCons (.choice (List.mem_of_getElem? (i := 3) rfl)
    (.rule rfl (.choice (.tail _ (.head _)) (.rule rfl (.choice (.head _) (.token _))))))
      (.seqCons (.optNone _) .seqNil))

/-- A call of `LEFT` with a column and a number. -/
theorem derives_left : grammar.Derives v (.rule .simpleExpr)
    [.keyword .LEFT, .symbol .openPar, .symbol .identifier, .symbol .comma, .symbol .intNumber,
      .symbol .closePar] := by
  have harguments : grammar.Derives v (.rule .exprList)
      [.symbol .identifier, .symbol .comma, .symbol .intNumber] :=
    .rule rfl (.seqCons (derives_expr_operand derives_column) (.seqCons (.starCons
      (.seqCons (.token _) (.seqCons (derives_expr_operand derives_number) .seqNil))
        (.starNil _)) .seqNil))
  exact .rule rfl (.seqCons (.choice (.tail _ (.head _)) (.rule rfl (.choice (.head _)
    (.seqCons (.choice (List.mem_of_getElem? (i := 6) rfl) (.token _)) (.seqCons (.token _)
      (.seqCons (.optSome harguments) (.seqCons (.token _) .seqNil)))))))
        (.seqCons (.optNone _) .seqNil))

theorem derives_group (h : grammar.Derives v (.rule .expr) w) :
    grammar.Derives v (.rule .simpleExpr) (.symbol .openPar :: (w ++ [.symbol .closePar])) := by
  have hlist : grammar.Derives v (.rule .exprList) (w ++ ([] ++ [])) :=
    .rule rfl (.seqCons h (.seqCons (.starNil _) .seqNil))
  rw [List.append_nil, List.append_nil] at hlist
  have hgroup : grammar.Derives v (.rule .simpleExpr)
      (([] ++ ([.symbol .openPar] ++ (w ++ ([.symbol .closePar] ++ [])))) ++ ([] ++ [])) :=
    .rule rfl (.seqCons (.choice (List.mem_of_getElem? (i := 9) rfl) (.seqCons (.optNone _)
      (.seqCons (.token _) (.seqCons hlist (.seqCons (.token _) .seqNil)))))
        (.seqCons (.optNone _) .seqNil))
  simpa using hgroup

/-- A query for one number. -/
theorem derives_select : grammar.Derives v (.rule .queryExpression)
    [.keyword .SELECT, .symbol .intNumber] := by
  have hitems : grammar.Derives v (.rule .selectItemList) [.symbol .intNumber] :=
    .rule rfl (.seqCons (.choice (.head _) (.rule rfl (.choice (.tail _ (.head _))
      (.seqCons (derives_expr_operand derives_number) (.seqCons (.optNone _) .seqNil)))))
        (.seqCons (.starNil _) .seqNil))
  have hquery : grammar.Derives v (.rule .querySpecification)
      [.keyword .SELECT, .symbol .intNumber] :=
    .rule rfl (.seqCons (.token _) (.seqCons (.starNil _) (.seqCons hitems (.seqCons (.optNone _)
      (.seqCons (.optNone _) (.seqCons (.optNone _) (.seqCons (.optNone _) (.seqCons (.optNone _)
        (.seqCons (.optNone _) .seqNil)))))))))
  have hbody : grammar.Derives v (.rule .queryExpressionBody)
      [.keyword .SELECT, .symbol .intNumber] :=
    .rule rfl (.seqCons (.rule rfl (.choice (.head _) hquery)) (.seqCons (.starNil _) .seqNil))
  exact .rule rfl (.seqCons (.optNone _) (.seqCons hbody (.seqCons (.optNone _)
    (.seqCons (.optNone _) .seqNil))))

/-- A query for one number in parentheses. -/
theorem derives_subquery : grammar.Derives v (.rule .subquery)
    [.symbol .openPar, .keyword .SELECT, .symbol .intNumber, .symbol .closePar] :=
  .rule rfl (.seqCons (.token _) (.seqCons derives_select (.seqCons (.token _) .seqNil)))

end Mysql

end SqlCompletion
