import SqlCompletion.Proofs.Collection
import SqlCompletion.Proofs.Watch
set_option autoImplicit false

/-!
# Closed grammars

A grammar is closed when every rule that it uses has a body. The check for that lists the rules that
are used and have none (`Grammar.undefinedRules`): it looks at the entry and, in the bodies of the
defined rules, at every place where a rule is referred to, however deep it stands.

The main result says that the check is exact (`Grammar.undefinedRules_exact`). `Element.Mentions` is
the relation that the list is compared with; it has a constructor for each place in an element where
a rule may stand, and does not follow the traversal of the check (`mem_rules_iff`). And the check is
enough for what it is there for: where the list is empty, no walk comes to its branch for a rule
without a body, whatever is put in place of that branch.

The second part is `watchedRun_eq_run` with a watch on that branch only. A walk enters only rules
that the entry rule reaches, and these are used.

The check is not necessary for that: a rule may be listed that no walk enters. Of a rule that is
defined twice only the second body counts, for the check and for walks alike (`redefinedQuery`).
-/

namespace SqlCompletion

/-! ## Rules that stand in an element -/

/-- The element refers to the rule, in whatever part of it. -/
inductive Element.Mentions : Element → Rule → Prop
  | rule (r : Rule) : Mentions (.rule r) r
  | seq {e : Element} {items : List Element} {r : Rule} (item : e ∈ items)
      (inner : Mentions e r) : Mentions (.seq items) r
  | choice {e : Element} {alternatives : List Element} {r : Rule} (alternative : e ∈ alternatives)
      (inner : Mentions e r) : Mentions (.choice alternatives) r
  | opt {e : Element} {r : Rule} (inner : Mentions e r) : Mentions (.opt e) r
  | star {e : Element} {r : Rule} (inner : Mentions e r) : Mentions (.star e) r
  | plus {e : Element} {r : Rule} (inner : Mentions e r) : Mentions (.plus e) r
  | since {v : Version} {e : Element} {r : Rule} (inner : Mentions e r) : Mentions (.since v e) r
  | before {v : Version} {e : Element} {r : Rule} (inner : Mentions e r) : Mentions (.before v e) r

namespace Element

mutual

theorem mentions_of_mem_rules (e : Element) {r : Rule} (h : r ∈ e.rules) : e.Mentions r := by
  cases e with
  | token | ident => cases h
  | rule s =>
    rw [rules, List.mem_singleton] at h
    subst h
    exact .rule r
  | seq items =>
    rw [rules] at h
    obtain ⟨e, he, hr⟩ := exists_mentions_of_mem_rulesOf items h
    exact .seq he hr
  | choice alternatives =>
    rw [rules] at h
    obtain ⟨e, he, hr⟩ := exists_mentions_of_mem_rulesOf alternatives h
    exact .choice he hr
  | opt e =>
    rw [rules] at h
    exact .opt (mentions_of_mem_rules e h)
  | star e =>
    rw [rules] at h
    exact .star (mentions_of_mem_rules e h)
  | plus e =>
    rw [rules] at h
    exact .plus (mentions_of_mem_rules e h)
  | since v e =>
    rw [rules] at h
    exact .since (mentions_of_mem_rules e h)
  | before v e =>
    rw [rules] at h
    exact .before (mentions_of_mem_rules e h)

theorem exists_mentions_of_mem_rulesOf (es : List Element) {r : Rule} (h : r ∈ rulesOf es) :
    ∃ e ∈ es, e.Mentions r := by
  cases es with
  | nil => cases h
  | cons e rest =>
    rw [rulesOf, List.mem_append] at h
    rcases h with h | h
    · exact ⟨e, List.mem_cons_self, mentions_of_mem_rules e h⟩
    · obtain ⟨e', he', hr⟩ := exists_mentions_of_mem_rulesOf rest h
      exact ⟨e', List.mem_cons_of_mem e he', hr⟩

end

/-- The rules that are listed for an element are those that stand in it. -/
theorem mem_rules_iff {e : Element} {r : Rule} : r ∈ e.rules ↔ e.Mentions r := by
  refine ⟨mentions_of_mem_rules e, fun h => ?_⟩
  induction h with
  | rule r =>
    rw [rules]
    exact List.mem_cons_self
  | seq item _ ih | choice item _ ih =>
    rw [rules]
    exact mem_rulesOf item ih
  | opt _ ih | star _ ih | plus _ ih | since _ ih | before _ ih =>
    rw [rules]
    exact ih

end Element

/-! ## Rules that a grammar uses -/

namespace Grammar

variable {g : Grammar} {r : Rule}

theorem mem_usedRules_iff :
    r ∈ g.usedRules ↔ r = g.entry ∨ ∃ s body, g.body? s = some body ∧ body.Mentions r := by
  constructor
  · intro h
    rcases List.mem_cons.1 h with rfl | h
    · exact .inl rfl
    · obtain ⟨s, -, hr⟩ := List.mem_flatMap.1 h
      cases hs : g.body? s with
      | none =>
        rw [hs] at hr
        cases hr
      | some body =>
        rw [hs] at hr
        exact .inr ⟨s, body, hs, Element.mem_rules_iff.1 hr⟩
  · rintro (rfl | ⟨s, body, hs, hr⟩)
    · exact g.entry_mem_usedRules
    · exact mem_usedRules_of_body? hs (Element.mem_rules_iff.2 hr)

end Grammar

/-! ## The check -/

/-- The check for closedness is exact: each rule is listed at most once, and just the rules are
listed that have no body and are the entry or are referred to somewhere in the body of a rule that
has one. It is sufficient too: where it lists nothing, no walk up to any caret comes to the branch
for a rule without a body. Whatever would be done there makes no difference, and the walk notes no
such rule. -/
theorem Grammar.undefinedRules_exact (g : Grammar) :
    g.undefinedRules.Nodup ∧
    (∀ r, r ∈ g.undefinedRules ↔ g.body? r = none ∧
      (r = g.entry ∨ ∃ s body, g.body? s = some body ∧ body.Mentions r)) ∧
    (g.undefinedRules = [] → ∀ (v : Version) (s : TokenStream) (caretIndex : Nat),
      (∀ undefined, Walk.watchedRun (caretSetting g v s caretIndex) { undefined := undefined } =
        Walk.run (caretSetting g v s caretIndex)) ∧
      (Walk.run (caretSetting g v s caretIndex)).2.cuts.undefinedRule = false) := by
  refine ⟨?_, fun r => ?_, fun hclosed v s caretIndex => ⟨fun undefined => ?_, ?_⟩⟩
  · unfold undefinedRules
    exact Rule.nodup_all.filter _
  · rw [mem_undefinedRules_iff, mem_usedRules_iff]
  · have hnone : ∀ r, r ∉ (caretSetting g v s caretIndex).grammar.undefinedRules :=
      fun r hr => List.not_mem_nil (hclosed ▸ hr)
    exact Walk.watchedRun_eq_run (fun _ _ _ _ _ => rfl) fun r hr => absurd hr (hnone r)
  · by_contra hcut
    obtain ⟨r, hr⟩ := (Walk.run_outcome _).good.undefinedRule (Bool.of_not_eq_false hcut)
    exact List.not_mem_nil (hclosed ▸ hr)

/-- A grammar that is closed only because the entry was given a second body: the first one refers to
a rule that has none. -/
def redefinedQuery : Grammar :=
  .ofDefinitions .query [(.query, .rule .subquery), (.expr, .choice [.ident, .rule .exprList]),
    (.exprList, .star (.seq [.sym .comma, .before ⟨80000⟩ (.rule .expr)])),
    (.query, .seq [.kw .DO, .opt (.rule .expr), .plus (.rule .exprList)])]

theorem Grammar.undefinedRules_exact_redefinedQuery :
    redefinedQuery.undefinedRules = [] ∧
      (∀ undefined, Walk.watchedRun (caretSetting redefinedQuery default
          (.ofText default "DO a, ") 5) { undefined := undefined } =
        Walk.run (caretSetting redefinedQuery default (.ofText default "DO a, ") 5)) ∧
      (Walk.run (caretSetting redefinedQuery default
        (.ofText default "DO a, ") 5)).2.cuts.undefinedRule = false := by
  have hclosed : redefinedQuery.undefinedRules = [] := by decide +kernel
  exact ⟨hclosed, redefinedQuery.undefinedRules_exact.2.2 hclosed _ _ _⟩

/-- With the first body alone the check lists the rule, and the walk meets it. -/
example : (Grammar.withLeaf (.rule .subquery) .expr .ident).undefinedRules = [.subquery] ∧
    (Walk.run (caretSetting (.withLeaf (.rule .subquery) .expr .ident) default
      (.ofText default "") 0)).2.cuts.undefinedRule = true := by
  decide +kernel

end SqlCompletion
