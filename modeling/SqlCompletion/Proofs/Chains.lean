import SqlCompletion.Proofs.LeftCorners
import SqlCompletion.Proofs.Tasks
set_option autoImplicit false

/-!
# The chains that are kept for a rule

A preferred rule is kept with chains of rules that lead to it. Only the walk of a rule makes notes,
and an answer from the memory makes none: of two rules that both call a third one at the same
position, only the first one to do so gets into the chains. So not all the chains that lead to a
preferred rule are kept. Behind the parenthesis of an `INSERT` the chain through the query is
missing, since the list of columns was walked before (`Mysql.insertQueryExpression_not_kept`).

What is kept is told by the last rule of a chain, the one that calls the preferred rule at the
caret: of all the chains that end in the same rule, one is kept. That is a task of a walk
(`keptTask`), of which it is shown that a walk can fulfil it (`keptTask_sound`).

The main result takes this together for the MySQL grammar (`Mysql.chains_kept`). The chains that are
kept differ, and all of them lead to the rule; there is one for each last rule and at least one if
any chain leads to the rule at all; and where the chains that lead to the rule end in different
rules, all of them are kept.

Which of several chains with the same last rule is kept depends on the order of the walk and is not
told. The walk must not have been too deep: what is cut off brings no chain.
-/

namespace SqlCompletion

/-! ## Chains under a rule -/

namespace Candidates

/-- The chains that are kept for a rule. -/
def chains (k : Candidates) (r : Rule) : List (List Rule) := (k.rules.lookup r).getD []

variable {k : Candidates} {r : Rule}

theorem chains_of_lookup {chains : List (List Rule)} (h : k.rules.lookup r = some chains) :
    k.chains r = chains := by
  rw [Candidates.chains, h, Option.getD_some]

@[simp] theorem chains_addToken (t : Terminal) (following : List Terminal) :
    (k.addToken t following).chains r = k.chains r := by
  simp [chains]

theorem chains_addRule (s : Rule) (chain : List Rule) :
    (k.addRule s chain).chains r =
      if r = s ∧ chain ∉ k.chains s then k.chains s ++ [chain] else k.chains r := by
  unfold chains
  rw [lookup_addRule]
  by_cases hrs : r = s
  · subst hrs
    cases k.rules.lookup r with
    | none => simp [mergeChain]
    | some known => by_cases hmem : chain ∈ known <;> simp [mergeChain, hmem]
  · simp [hrs]

theorem mem_chains_offer {around : List Rule} (h : around ∈ k.chains r) (rules : List Rule)
    (spot : Spot) : around ∈ (k.offer rules spot).chains r := by
  unfold offer
  split
  · rw [chains_addRule]
    split
    · rename_i hnew
      obtain ⟨rfl, -⟩ := hnew
      exact List.mem_append_left _ h
    · exact h
  · split
    · exact h
    · rwa [chains_addToken]
  · exact h

theorem mem_chains_of_outermost {rules around : List Rule} {spot : Spot}
    (h : outermost? (rules ++ spot.opens) = some (r, around)) (k : Candidates) :
    around ∈ (k.offer rules spot).chains r := by
  unfold offer
  rw [h]
  dsimp only
  rw [chains_addRule]
  by_cases hmem : around ∈ k.chains r
  · rwa [if_neg fun hnew => hnew.2 hmem]
  · rw [if_pos ⟨rfl, hmem⟩]
    exact List.mem_append_right _ List.mem_cons_self

theorem nodup_chains_offer (h : (k.chains r).Nodup) (rules : List Rule) (spot : Spot) :
    ((k.offer rules spot).chains r).Nodup := by
  unfold offer
  split
  · rw [chains_addRule]
    split
    · rename_i hnew
      obtain ⟨rfl, hnot⟩ := hnew
      simpa [List.concat_eq_append] using h.concat hnot
    · exact h
  · split
    · exact h
    · rwa [chains_addToken]
  · exact h

end Candidates

namespace Walk

/-! ## What every offer keeps -/

section

variable {c : Setting} {P : Candidates → Prop}
  (hoffer : ∀ k rules spot, P k → P (k.offer rules spot))

include hoffer

theorem Plan.run_keeps {path : Path} {visit : Rule → Nat → Step Positions}
    (hvisit : ∀ r p s, P s.candidates → P ((visit r p).run s).2.candidates) (x : Plan) {s : State}
    (hs : P s.candidates) : P (x.run path visit s).2.candidates := by
  induction x generalizing s with
  | done ends => exact hs
  | note spot rest ih => exact ih (s := { s with candidates := _ }) (hoffer _ _ _ hs)
  | call r p rest ih => exact ih _ (hvisit r p s hs)

/-- What every offer keeps, the walk through a rule keeps. -/
theorem walkRule_keeps (room : Nat) (path : Path) (r : Rule) (p : Nat) (s : State)
    (hs : P s.candidates) : P ((walkRule c room path r p).run s).2.candidates := by
  induction room generalizing path r p s with
  | zero =>
    by_cases hheld : c.Held (preferredIn path).isSome r p
    · rw [walkRule_of_held 0 hheld]
      exact hoffer _ _ _ hs
    cases hfind : s.memo.find? ⟨r, p, preferredIn path⟩ with
    | some ends =>
      rw [run_walkRule_of_find 0 hheld hfind]
      exact hs
    | none =>
      rw [run_walkRule_zero_of_miss hheld hfind]
      exact hs
  | succ room ih =>
    by_cases hheld : c.Held (preferredIn path).isSome r p
    · rw [walkRule_of_held _ hheld]
      exact hoffer _ _ _ hs
    cases hfind : s.memo.find? ⟨r, p, preferredIn path⟩ with
    | some ends =>
      rw [run_walkRule_of_find _ hheld hfind]
      exact hs
    | none =>
      rw [run_walkRule_of_miss room hheld hfind]
      split
      · exact hs
      · split
        · exact hs
        · rw [walk_eq_run]
          exact Plan.run_keeps hoffer (fun r p s hs => ih _ r p s hs) _ hs

end

theorem run_nodup_chains (c : Setting) (r : Rule) : ((run c).2.candidates.chains r).Nodup :=
  walkRule_keeps (P := fun k => (k.chains r).Nodup)
    (fun _ rules spot hk => Candidates.nodup_chains_offer hk rules spot) maxDepth []
    c.grammar.entry 0 {} List.nodup_nil

/-! ## One chain for each last rule -/

/-- The task to keep, for a preferred rule that is next at the caret, a chain for each rule that
chains to it end in. -/
def keptTask (c : Setting) : Task c where
  Note := Rule × Option Rule
  fine := fun cuts => cuts.depth = false
  noted := fun k d => ∃ around ∈ k.chains d.1, around.getLast? = d.2
  must := fun path r => Crosses c (preferredIn path).isSome (.rule r)
  due := fun path r p d => preferredIn path = none ∧ d.1.isPreferred = true ∧
    ∃ inner, Arrives c false (.rule r) [] p inner (.rule d.1) ∧
      (∀ s ∈ inner, s.isPreferred = false) ∧ (chain path ++ inner).getLast? = d.2

section

variable {c : Setting} {path : Path} {r : Rule} {p : Nat} {d : Rule × Option Rule}

/-- The chain goes into a rule that is not held: its last rule is in there. -/
theorem keptTask_due_of_free (free : ¬c.Held (preferredIn path).isSome r p)
    (h : (keptTask c).due path r p d) :
    ∃ body inner, c.grammar.body? r = some body ∧ r.isPreferred = false ∧
      Arrives c false body [] p inner (.rule d.1) ∧ (∀ s ∈ inner, s.isPreferred = false) ∧
      (r :: inner).getLast? = d.2 := by
  obtain ⟨hnone, hpreferred, inner, harr, hfree, hlast⟩ := h
  cases harr with
  | call => exact absurd ⟨rfl, .inl hpreferred⟩ free
  | @enter _ _ body _ _ inner _ _ defined harr =>
    have hr := hfree r List.mem_cons_self
    rw [Bool.false_or, hr] at harr
    refine ⟨body, inner, defined, hr, harr, fun s hs => hfree s (List.mem_cons_of_mem r hs), ?_⟩
    rwa [List.getLast?_append_of_ne_nil _ (List.cons_ne_nil r inner)] at hlast

theorem keptTask_passed (free : ¬c.Held (preferredIn path).isSome r p)
    (h : (keptTask c).due path r p d) :
    ∃ body, c.grammar.body? r = some body ∧ (keptTask c).Passed (⟨r, p⟩ :: path) body p d := by
  have hnone : preferredIn path = none := h.1
  have hpreferred : d.1.isPreferred = true := h.2.1
  obtain ⟨body, inner, defined, hr, harr, hfree, hlast⟩ := keptTask_due_of_free free h
  have hinside : preferredIn (⟨r, p⟩ :: path) = none := by simp [preferredIn_cons, hnone, hr]
  have hmust : (fun s => Crosses c false (.rule s)) = (keptTask c).must (⟨r, p⟩ :: path) := by
    simp only [keptTask, hinside, Option.isSome_none]
  have hbelow := harr.arrivesBelow
  refine ⟨body, defined, .inr ?_⟩
  cases inner with
  | nil =>
    rw [ArrivesBelow, hmust] at hbelow
    refine ⟨d.1, c.caret, hbelow, hinside, hpreferred, [], .call false d.1 [], by simp, ?_⟩
    rw [List.append_nil, chain_cons, List.getLast?_append_of_ne_nil _ (List.cons_ne_nil r [])]
    exact hlast
  | cons s inner =>
    rw [ArrivesBelow, hmust] at hbelow
    obtain ⟨m, hcomes, harr⟩ := hbelow
    refine ⟨s, m, hcomes, hinside, hpreferred, s :: inner, harr, hfree, ?_⟩
    rw [List.getLast?_append_of_ne_nil _ (List.cons_ne_nil s inner)]
    rwa [List.getLast?_cons_cons] at hlast

theorem keptTask_sound (c : Setting) : (keptTask c).Sound where
  lasts := by
    rintro k d rules spot ⟨around, haround, hlast⟩
    exact ⟨around, Candidates.mem_chains_offer haround rules spot, hlast⟩
  fine_of_depth := fun h => nomatch h
  fine_of_undefinedRule := fun h => h
  free := by
    intro path r p q hcross
    cases hcross with
    | rule free => exact free
  held := by
    rintro path r p d - hheld ⟨hnone, hpreferred, inner, harr, hfree, hlast⟩ k
    cases harr with
    | call =>
      rw [List.append_nil] at hlast
      refine ⟨chain path, Candidates.mem_chains_of_outermost ?_ k, hlast⟩
      have houter : outermost? (chain path) = none := by
        rw [← Option.map_eq_none_iff (f := Prod.fst), map_fst_outermost?]
        exact hnone
      simp [outermost?_append, houter, Spot.opens, outermost?_cons, hpreferred]
    | enter free =>
      rw [hnone] at hheld
      exact absurd hheld free
  deep := fun _ _ h => nomatch h
  recalled := by
    intro path path' r p _ _ hsame free _
    refine ⟨fun q hq => by simpa [keptTask, hsame] using hq, fun d hd => ?_⟩
    have hnone : preferredIn path' = none := hd.1
    have hpreferred : d.1.isPreferred = true := hd.2.1
    obtain ⟨body, inner, defined, hr, harr, hfree, hlast⟩ := keptTask_due_of_free (hsame ▸ free) hd
    refine ⟨hsame.trans hnone, hpreferred, r :: inner, .enter ?_ defined ?_, ?_, ?_⟩
    · rwa [hsame, hnone] at free
    · rwa [Bool.false_or, hr]
    · simpa [hr] using hfree
    · rwa [List.getLast?_append_of_ne_nil _ (List.cons_ne_nil r inner)]
  body := by
    intro path r p q _ hcross
    cases hcross with
    | rule free defined inner =>
      refine ⟨_, defined, ?_⟩
      rw [← isSome_preferredIn_cons (⟨r, p⟩ : Frame) path] at inner
      exact passes_iff_crosses.2 inner
  passed := fun _ free h => keptTask_passed free h

end

/-- A partial derivation outside of preferred rules is a way where nothing is skipped. -/
theorem ways_of_expects_of_free {c : Setting} {around : List Rule} {spot : Spot}
    (hskips : ¬c.grammar.Skips c.version c.input.toList)
    (hfree : ∀ s ∈ around, s.isPreferred = false)
    (h : c.grammar.Expects c.version c.input.toList around spot) : c.Ways around spot := by
  have hmeets := meets_of_reaches h (Setting.spells_iff.2 rfl) (unskipped_of_not_skips hskips)
  refine hmeets.resolve_right ?_
  rintro ⟨outer, r, inner, rfl, -, hheld⟩
  obtain ⟨s, hs, hpreferred⟩ := List.any_eq_true.1 hheld
  have hmem : s ∈ outer ++ r :: inner := by
    rw [List.append_cons]
    exact List.mem_append_left _ hs
  rw [hfree s hmem] at hpreferred
  cases hpreferred

theorem run_keeps_last {c : Setting} (hrec : ∀ r, ¬c.grammar.LeftRecursive c.version r)
    (hdepth : (run c).2.cuts.depth = false) {around : List Rule} {r : Rule}
    (hpreferred : r.isPreferred = true) (hfree : ∀ s ∈ around, s.isPreferred = false)
    (h : c.Ways around (.rule r)) :
    ∃ kept ∈ (run c).2.candidates.chains r, kept.getLast? = around.getLast? :=
  Task.run_fulfils hrec (keptTask_sound c) hdepth (d := (r, around.getLast?))
    ⟨rfl, hpreferred, around, h, hfree, rfl⟩

end Walk

/-! ## The chains that are kept -/

/-- The chain leads to the preferred rule, outside of other preferred rules, and the rule is
next. -/
structure Grammar.Calls (g : Grammar) (v : Version) (input : List Terminal) (r : Rule)
    (around : List Rule) : Prop where
  preferred : r.isPreferred = true
  outermost : ∀ s ∈ around, s.isPreferred = false
  next : g.Expects v input around (.rule r)

section

variable {g : Grammar} {v : Version} {s : TokenStream} {caretIndex : Nat} {r : Rule}

/-- A chain that is kept leads to the rule. -/
theorem reported_of_mem_chains {around : List Rule}
    (h : around ∈ (collect g v s caretIndex).chains r) :
    Reported (g.Expects v (s.kindsBefore caretIndex)) r around := by
  unfold Candidates.chains at h
  cases hlookup : (collect g v s caretIndex).rules.lookup r with
  | none =>
    rw [hlookup] at h
    cases h
  | some chains =>
    rw [hlookup] at h
    exact ((collect_backed g v s caretIndex).rules r chains hlookup).2 around h

theorem chains_ne_nil_of_mem (h : r ∈ (collect g v s caretIndex).ruleNames) :
    (collect g v s caretIndex).chains r ≠ [] := by
  obtain ⟨chains, hchains⟩ := Candidates.notes_rule_iff.2 h
  rw [Candidates.chains_of_lookup hchains]
  exact ((collect_backed g v s caretIndex).rules r chains hchains).1

theorem Reported.outermost {expects : List Rule → Spot → Prop} {around : List Rule}
    (h : Reported expects r around) : Outermost expects r := by
  obtain ⟨hpreferred, hfree, chain, spot, rest, hexpects, hchain⟩ := h
  refine ⟨chain, spot, hexpects, List.find?_eq_some_iff_append.2
    ⟨hpreferred, around, rest, hchain, fun s hs => ?_⟩⟩
  rw [hfree s hs]
  rfl

/-- The chains that are kept for a preferred rule by the MySQL grammar, where the walk was not too
deep. They differ and all of them lead to the rule. Of the chains to a rule that is next, one with
the same last rule is kept, and if any chain leads to the rule, some chain is kept. Where any two
chains that lead to the rule have it next and end in different rules, the chains that lead to it
are just those that are kept. -/
theorem Mysql.chains_kept (v : Version) (s : TokenStream) (caretIndex : Nat)
    (hdepth : (Walk.run (caretSetting Mysql.grammar v s caretIndex)).2.cuts.depth = false)
    (r : Rule) :
    ((collect Mysql.grammar v s caretIndex).chains r).Nodup ∧
      (∀ around ∈ (collect Mysql.grammar v s caretIndex).chains r,
        Reported (Mysql.grammar.Expects v (s.kindsBefore caretIndex)) r around) ∧
      (∀ around, Mysql.grammar.Calls v (s.kindsBefore caretIndex) r around →
        ∃ kept ∈ (collect Mysql.grammar v s caretIndex).chains r,
          kept.getLast? = around.getLast?) ∧
      ((∃ around, Reported (Mysql.grammar.Expects v (s.kindsBefore caretIndex)) r around) →
        (collect Mysql.grammar v s caretIndex).chains r ≠ []) ∧
      ((∀ first second, Reported (Mysql.grammar.Expects v (s.kindsBefore caretIndex)) r first →
          Reported (Mysql.grammar.Expects v (s.kindsBefore caretIndex)) r second →
          first ≠ second → Mysql.grammar.Calls v (s.kindsBefore caretIndex) r first ∧
            first.getLast? ≠ second.getLast?) →
        ∀ around, around ∈ (collect Mysql.grammar v s caretIndex).chains r ↔
          Reported (Mysql.grammar.Expects v (s.kindsBefore caretIndex)) r around) := by
  have hrec := Mysql.not_leftRecursive v
  have hlast : ∀ around, Mysql.grammar.Calls v (s.kindsBefore caretIndex) r around →
      ∃ kept ∈ (collect Mysql.grammar v s caretIndex).chains r,
        kept.getLast? = around.getLast? := by
    intro around h
    have hways := Walk.ways_of_expects_of_free (c := caretSetting Mysql.grammar v s caretIndex)
      (Mysql.not_skips v _) h.outermost h.next
    exact Walk.run_keeps_last hrec hdepth h.preferred h.outermost hways
  have hsome : ∀ around, Reported (Mysql.grammar.Expects v (s.kindsBefore caretIndex)) r around →
      (collect Mysql.grammar v s caretIndex).chains r ≠ [] := by
    intro around h
    have hexact := (collect_exact hrec hdepth).2.2 (Mysql.not_skips v _)
    exact chains_ne_nil_of_mem ((hexact.ruleNames r).2 h.outermost)
  refine ⟨Walk.run_nodup_chains _ r, fun around h => reported_of_mem_chains h, hlast,
    fun ⟨around, h⟩ => hsome around h, fun hdiffer around => ⟨reported_of_mem_chains, fun h => ?_⟩⟩
  by_contra hnot
  -- Another chain is kept, so that the rule is next behind this one and its last rule is its own.
  obtain ⟨other, hother⟩ := List.exists_mem_of_ne_nil _ (hsome around h)
  have hne : around ≠ other := fun heq => hnot (heq ▸ hother)
  obtain ⟨kept, hkept, hsame⟩ :=
    hlast around (hdiffer around other h (reported_of_mem_chains hother) hne).1
  have hne' : around ≠ kept := fun heq => hnot (heq ▸ hkept)
  exact (hdiffer around kept h (reported_of_mem_chains hkept) hne').2 hsame.symm

/-- In front of the table of a `DELETE`, chains that end in different rules lead to it. -/
theorem Mysql.chains_kept_delete :
    (Walk.run (caretSetting Mysql.grammar .standard (.ofText {} "DELETE FROM ") 4)).2.cuts.depth =
        false ∧
      (collect Mysql.grammar .standard (.ofText {} "DELETE FROM ") 4).chains .tableRef =
        [[.query, .simpleStatement, .deleteStatement],
          [.query, .simpleStatement, .deleteStatement, .tableAliasRefList]] ∧
      ∀ around, Mysql.grammar.Calls .standard
          ((TokenStream.ofText {} "DELETE FROM ").kindsBefore 4) .tableRef around →
        around.getLast? = some .deleteStatement ∨ around.getLast? = some .tableAliasRefList := by
  have hdepth : (Walk.run (caretSetting Mysql.grammar .standard
      (.ofText {} "DELETE FROM ") 4)).2.cuts.depth = false := by decide +kernel
  have hchains : (collect Mysql.grammar .standard (.ofText {} "DELETE FROM ") 4).chains .tableRef =
      [[.query, .simpleStatement, .deleteStatement],
        [.query, .simpleStatement, .deleteStatement, .tableAliasRefList]] := by decide +kernel
  refine ⟨hdepth, hchains, fun around h => ?_⟩
  obtain ⟨kept, hkept, hlast⟩ := (chains_kept .standard _ 4 hdepth .tableRef).2.2.1 around h
  rw [hchains] at hkept
  rw [← hlast]
  simp only [List.mem_cons, List.not_mem_nil, or_false] at hkept
  rcases hkept with rfl | rfl
  · exact .inl rfl
  · exact .inr rfl

/-- The chain to a column that goes through the query of an `INSERT`. -/
def insertQueryChain : List Rule :=
  [.query, .simpleStatement, .insertStatement, .insertQueryExpression, .fields, .insertIdentifier]

/-- Behind the parenthesis of an `INSERT`, columns are expected of a query too. -/
theorem Mysql.expects_insertQueryChain :
    Mysql.grammar.Expects .standard
      [.keyword .INSERT, .keyword .INTO, .symbol .identifier, .symbol .openPar] insertQueryChain
      (.rule .columnRef) := by
  have hfields : Mysql.grammar.Reaches .standard (.rule .fields) [] []
      [.fields, .insertIdentifier] (.rule .columnRef) :=
    .enter rfl (.seqHead (.enter rfl (.choice (.head _) (.call .columnRef _))))
  have hquery : Mysql.grammar.Reaches .standard (.rule .insertQueryExpression) []
      [.symbol .openPar] [.insertQueryExpression, .fields, .insertIdentifier] (.rule .columnRef) :=
    .enter rfl (.choice (.tail _ (.head _)) (.seqTail (.token _) (.seqHead (.opt hfields))))
  have htable : Mysql.grammar.Derives .standard (.rule .tableRef) [.symbol .identifier] :=
    .rule rfl (.choice (.head _) (.seqCons (.ident rfl) (.seqCons (.optNone _) .seqNil)))
  have hinsert : Mysql.grammar.Reaches .standard (.rule .insertStatement) []
      [.keyword .INSERT, .keyword .INTO, .symbol .identifier, .symbol .openPar]
      [.insertStatement, .insertQueryExpression, .fields, .insertIdentifier] (.rule .columnRef) :=
    .enter rfl (.seqTail (.token _) (.seqTail (.optNone _) (.seqTail (.optNone _)
      (.seqTail (.optSome (.token _)) (.seqTail htable (.seqTail (.optNone _)
        (.seqHead (.choice (.tail _ (.tail _ (.head _))) hquery))))))))
  exact .enter rfl (.choice (.tail _ (.head _)) (.seqHead (.choice (.head _)
    (.enter rfl (.choice (List.mem_of_getElem? (i := 9) rfl) hinsert)))))

/-- Behind the parenthesis of an `INSERT`, the chain through the query leads to a column and is not
kept: the list of columns was walked already for the rows that are written out. -/
theorem Mysql.insertQueryExpression_not_kept :
    (Walk.run (caretSetting Mysql.grammar .standard
        (.ofText {} "INSERT INTO t (") 7)).2.cuts.depth = false ∧
      Reported (Mysql.grammar.Expects .standard
        ((TokenStream.ofText {} "INSERT INTO t (").kindsBefore 7)) .columnRef insertQueryChain ∧
      insertQueryChain ∉
        (collect Mysql.grammar .standard (.ofText {} "INSERT INTO t (") 7).chains .columnRef := by
  have hinput : (TokenStream.ofText {} "INSERT INTO t (").kindsBefore 7 =
      [.keyword .INSERT, .keyword .INTO, .symbol .identifier, .symbol .openPar] := by
    decide +kernel
  refine ⟨by decide +kernel, ?_, by decide +kernel⟩
  rw [hinput]
  exact ⟨rfl, by decide, _, _, [], expects_insertQueryChain, rfl⟩

end

end SqlCompletion
