import SqlCompletion.Candidate.Collector
import SqlCompletion.Mysql.Grammar
import SqlCompletion.Proofs.Exactness
import SqlCompletion.Proofs.Tiling
set_option autoImplicit false

/-!
# What is collected at the caret

The candidates at the caret, told by the partial derivations of the grammar that have derived the
terminals in front of the caret (`Grammar.Expects`).

* Nothing else is ever collected (`collect_sound`). That holds of every grammar, and whatever was
  cut off.
* All of it is collected (`collect_exact`), and what must follow a terminal is right
  (`collect_following`), where nothing was cut off and the grammar does not skip at the caret.

A grammar skips (`Grammar.Skips`) where a rule that is reported as a whole could also be empty: what
could stand behind the rule is missed then. The two results say more for grammars that do skip. What
is collected is exact for the ways of the walk in any case, and exact for the partial derivations
just where the ways cover what these demand. The MySQL grammar never skips (`Mysql.not_skips`),
since none of its rules derives the empty sequence.

Nothing is proved of walks here: `run_answered` and `run_backed` are what the exactness of the walk
gives, and what is left is to go from ways to partial derivations and back. The grammars of two
rules are examples for both cases. `optionalTable` skips, and a keyword behind the table is not
collected at its start (`optionalTable_not_exact`); in `secondOccurrence` the word that is forced is
wrong, because only one of two occurrences is seen (`secondOccurrence_not_forced`).
-/

namespace SqlCompletion

/-! ## The terminals in front of the caret -/

namespace TokenStream

theorem takeWhile_visible {tokens : List Token} {first : Nat}
    (hindex : ∀ (k : Nat) (t : Token), tokens[k]? = some t → t.index = first + k)
    (caretIndex : Nat) :
    (tokens.filter fun t => !t.isHidden).takeWhile (fun t => decide (t.index < caretIndex)) =
      (tokens.take (caretIndex - first)).filter fun t => !t.isHidden := by
  induction tokens generalizing first with
  | nil => simp
  | cons t tokens ih =>
    have ht : t.index = first := hindex 0 t rfl
    have hrest : ∀ (k : Nat) (u : Token), tokens[k]? = some u → u.index = (first + 1) + k := by
      intro k u hu
      rw [hindex (k + 1) u hu]
      omega
    have htail := ih hrest
    by_cases hlt : first < caretIndex
    · have hsub : caretIndex - first = (caretIndex - (first + 1)) + 1 := by omega
      rw [hsub, List.take_succ_cons, List.filter_cons, List.filter_cons]
      split
      · rw [List.takeWhile_cons, ht, if_pos (by simpa using hlt), htail]
      · exact htail
    · have hnone : caretIndex - first = 0 := by omega
      have hnone' : caretIndex - (first + 1) = 0 := by omega
      rw [hnone', List.take_zero, List.filter_nil] at htail
      rw [hnone, List.take_zero, List.filter_nil, List.filter_cons]
      split
      · rw [List.takeWhile_cons, ht, if_neg (by simpa using hlt)]
      · exact htail

/-- They are those of the visible tokens among the first ones of the stream. -/
theorem kindsBefore_ofText (d : Dialect) (source : String) (caretIndex : Nat) :
    (ofText d source).kindsBefore caretIndex =
      (((ofText d source).tokens.take caretIndex).filter fun t => !t.isHidden).map
        Token.kind := by
  have hindex : ∀ (k : Nat) (t : Token), (ofText d source).tokens[k]? = some t →
      t.index = 0 + k := by
    intro k t ht
    rw [(isLaid_ofText d source).tiles.index k t ht, Nat.zero_add]
  rw [kindsBefore, visible, takeWhile_visible hindex, Nat.sub_zero]

end TokenStream

/-! ## Partial derivations and ways -/

namespace Grammar

variable (g : Grammar) (v : Version) (input : List Terminal)

/-- Partial derivations from the entry rule that have derived the input: the rules in `chain` are
open, and `spot` is next. -/
def Expects (chain : List Rule) (spot : Spot) : Prop :=
  Reaches g v (.rule g.entry) [] input chain spot

/-- After the input, a rule is next that is preferred or inside a preferred rule, and it derives
the empty sequence too. -/
def Skips : Prop :=
  ∃ chain r, g.Expects v input chain (.rule r) ∧ (∃ s ∈ chain ++ [r], s.isPreferred = true) ∧
    Derives g v (.rule r) []

end Grammar

namespace Walk

variable {c : Setting} {chain : List Rule} {spot : Spot}

theorem Setting.Ways.expects (h : c.Ways chain spot) :
    c.grammar.Expects c.version c.input.toList chain spot := by
  obtain ⟨w, hw, hreach⟩ := h.reaches
  obtain rfl := Setting.spells_iff.1 hw
  exact hreach

theorem unskipped_of_not_skips (h : ¬c.grammar.Skips c.version c.input.toList) :
    Unskipped c false (.rule c.grammar.entry) [] 0 := by
  intro w chain r hw hreach hheld hempty
  obtain rfl := Setting.spells_iff.1 hw
  refine h ⟨chain, r, hreach, ?_, hempty⟩
  rw [Bool.false_or] at hheld
  exact List.any_eq_true.1 hheld

/-- A rule that is held makes the demand of all that is inside it. -/
theorem demand?_held {outer inner : List Rule} {r : Rule}
    (hheld : (outer ++ [r]).any Rule.isPreferred = true) :
    demand? none (outer ++ r :: inner) spot = demand? none outer (.rule r) := by
  obtain ⟨s, hs⟩ := Option.isSome_iff_exists.1 (List.find?_isSome.2 (List.any_eq_true.1 hheld))
  have hall : (outer ++ r :: inner ++ spot.opens).find? Rule.isPreferred = some s := by
    rw [List.append_cons, List.append_assoc, List.find?_append, hs, Option.some_or]
  rw [demand?_of_find hall, demand?_of_find hs]

/-- Where nothing is skipped, the ways make all the demands. -/
theorem ways_of_expects (hskips : ¬c.grammar.Skips c.version c.input.toList) {d : Demand}
    (h : c.grammar.Expects c.version c.input.toList chain spot)
    (hd : demand? none chain spot = some d) :
    ∃ chain' spot', c.Ways chain' spot' ∧ demand? none chain' spot' = some d := by
  have hmeets := meets_of_reaches h (Setting.spells_iff.2 rfl) (unskipped_of_not_skips hskips)
  rcases hmeets with harr | ⟨outer, r, inner, rfl, harr, hheld⟩
  · exact ⟨chain, spot, harr, hd⟩
  · rw [demand?_held hheld] at hd
    exact ⟨outer, .rule r, harr, hd⟩

theorem answered_expects {k : Candidates} (h : Answered c.Ways k)
    (hskips : ¬c.grammar.Skips c.version c.input.toList) :
    Answered (c.grammar.Expects c.version c.input.toList) k := by
  intro chain spot d hexpects hd
  obtain ⟨chain', spot', hways, hd'⟩ := ways_of_expects hskips hexpects hd
  exact h chain' spot' d hways hd'

/-- A walk of a grammar without left recursion is cut off by the depth only. -/
theorem run_uncut (hrec : ∀ r, ¬c.grammar.LeftRecursive c.version r)
    (hdepth : (run c).2.cuts.depth = false) : (run c).2.Uncut := by
  refine ⟨hdepth, ?_⟩
  cases hcut : (run c).2.cuts.leftRecursion with
  | false => rfl
  | true =>
    obtain ⟨r, hr⟩ := (run_outcome c).good.recursion hcut
    exact absurd hr (hrec r)

theorem run_answered (hcut : (run c).2.Uncut) : Answered c.Ways (run c).2.candidates := by
  intro chain spot d hways hd
  exact (run_outcome c).noted hcut d ⟨chain, spot, hways, hd⟩

theorem run_backed (c : Setting) : Backed c.Ways (run c).2.candidates :=
  (run_outcome c).good.backed

theorem run_backed_expects (c : Setting) :
    Backed (c.grammar.Expects c.version c.input.toList) (run c).2.candidates :=
  (run_backed c).mono fun _ _ h => h.expects

end Walk

/-! ## Nothing else is collected -/

/-- What a chain of rules that is kept for a preferred rule tells. -/
structure Grammar.LedTo (g : Grammar) (v : Version) (input : List Terminal) (r : Rule)
    (around : List Rule) : Prop where
  preferred : r.isPreferred = true
  outermost : ∀ s ∈ around, s.isPreferred = false
  entry : (around ++ [r]).head? = some g.entry
  invoked : (around ++ [r]).IsChain g.Invokes
  /-- A partial derivation that has derived the input goes through these rules. -/
  expected : ∃ chain spot, g.Expects v input chain spot ∧ around ++ [r] <+: chain ++ spot.opens
  /-- The rule is next behind a first part of the input, and the rest is derived inside it. -/
  matched : ∃ before inside, input = before ++ inside ∧ g.Expects v before around (.rule r) ∧
    (inside = [] ∨ ∃ body inner spot, g.body? r = some body ∧
      g.Reaches v body [] inside inner spot)

namespace Grammar

variable {g : Grammar} {v : Version} {input : List Terminal} {r : Rule} {around : List Rule}

theorem Expects.entry {chain rest : List Rule} {spot : Spot} (h : g.Expects v input chain spot)
    (hchain : chain ++ spot.opens = around ++ r :: rest) :
    (around ++ [r]).head? = some g.entry := by
  have hhead : (around ++ [r]).head? = (chain ++ spot.opens).head? := by
    rw [hchain]
    cases around <;> rfl
  obtain ⟨s, hs⟩ : ∃ s, (around ++ [r]).head? = some s := by
    cases around with
    | nil => exact ⟨r, rfl⟩
    | cons s around => exact ⟨s, rfl⟩
  have hmem := h.invocations.1 s (hhead ▸ hs)
  rw [Element.rules, List.mem_singleton] at hmem
  rw [hs, hmem]

theorem ledTo_of_reported (h : Reported (g.Expects v input) r around) :
    g.LedTo v input r around := by
  obtain ⟨hpreferred, hfree, chain, spot, rest, hexpects, hchain⟩ := h
  have happend : chain ++ spot.opens = (around ++ [r]) ++ rest := by rw [hchain, List.append_cons]
  refine ⟨hpreferred, hfree, hexpects.entry hchain, ?_, ⟨chain, spot, hexpects, rest, happend.symm⟩,
    ?_⟩
  · have hinvoked := hexpects.invocations.2
    rw [happend] at hinvoked
    exact hinvoked.left_of_append
  · rcases next_or_open hchain with ⟨rfl, rfl⟩ | ⟨inner, hopen⟩
    · exact ⟨input, [], (List.append_nil input).symm, hexpects, .inl rfl⟩
    · obtain ⟨before, inside, body, hinput, hbefore, hbody, hinside⟩ := hexpects.split hopen
      exact ⟨before, inside, hinput, hbefore, .inr ⟨body, inner, spot, hbody, hinside⟩⟩

end Grammar

/-- The walk that collects at the caret. -/
def caretSetting (g : Grammar) (v : Version) (s : TokenStream) (caretIndex : Nat) : Walk.Setting :=
  ⟨g, v, (s.kindsBefore caretIndex).toArray⟩

theorem collect_backed (g : Grammar) (v : Version) (s : TokenStream) (caretIndex : Nat) :
    Backed (g.Expects v (s.kindsBefore caretIndex)) (collect g v s caretIndex) :=
  Walk.run_backed_expects (caretSetting g v s caretIndex)

/-- Whatever the grammar is and whatever was cut off, a terminal that is collected can be next
behind the input, outside of preferred rules, and a chain that is kept for a rule leads to it. -/
theorem collect_sound (g : Grammar) (v : Version) (s : TokenStream) (caretIndex : Nat) :
    (∀ t following, (t, following) ∈ (collect g v s caretIndex).tokens →
      t.isIgnored = false ∧ ∃ chain follow,
        g.Expects v (s.kindsBefore caretIndex) chain (.token t follow) ∧
        ∀ r ∈ chain, r.isPreferred = false) ∧
    (∀ r chains, (r, chains) ∈ (collect g v s caretIndex).rules → ∀ around ∈ chains,
      g.LedTo v (s.kindsBefore caretIndex) r around) := by
  have hbacked := collect_backed g v s caretIndex
  constructor
  · intro t following hmem
    obtain ⟨hkept, _, ⟨chain, follow, hexpects, hfree, -⟩, -⟩ :=
      hbacked.tokens t following (lookup_of_mem hbacked.distinct.terminals hmem)
    exact ⟨hkept, chain, follow, hexpects, hfree⟩
  · intro r chains hmem around haround
    have hreported := (hbacked.rules r chains
      (lookup_of_mem hbacked.distinct.ruleNames hmem)).2 around haround
    exact Grammar.ledTo_of_reported hreported

/-! ## Grammars that do not skip -/

/-- A grammar all of whose rules take something does not skip. -/
theorem Grammar.not_skips_of_takes {g : Grammar} (h : g.TakesMarked fun _ => true) (v : Version)
    (input : List Terminal) : ¬g.Skips v input := by
  rintro ⟨chain, r, -, -, hempty⟩
  exact hempty.ne_nil h rfl rfl

theorem Mysql.takesMarked : Mysql.grammar.TakesMarked fun _ => true := by
  intro r body _ hbody
  obtain rfl := Option.some.inj hbody
  cases r <;> rfl

/-- No rule of the MySQL grammar derives the empty sequence. -/
theorem Mysql.not_skips (v : Version) (input : List Terminal) : ¬Mysql.grammar.Skips v input :=
  Grammar.not_skips_of_takes Mysql.takesMarked v input

/-! ## Grammars of two rules -/

/-- A query, with one more rule that may stand in it. -/
def Grammar.withLeaf (top : Element) (leaf : Rule) (bottom : Element) : Grammar :=
  .ofDefinitions .query [(.query, top), (leaf, bottom)]

theorem Grammar.body?_withLeaf (top : Element) (leaf : Rule) (bottom : Element) (r : Rule) :
    (withLeaf top leaf bottom).body? r =
      if r = leaf then some bottom else if r = .query then some top else none := rfl

theorem Grammar.withLeaf_not_leftRecursive {top bottom : Element} {leaf : Rule}
    (htop : ∀ r ∈ top.rules, r = leaf) (hbottom : bottom.rules = []) (v : Version) (r : Rule) :
    ¬(withLeaf top leaf bottom).LeftRecursive v r := by
  refine not_leftRecursive_of_rank (fun r => if r = leaf then 0 else 1) ?_ r
  rintro r s ⟨body, hbody, hs⟩
  rw [body?_withLeaf] at hbody
  split at hbody
  · cases hbody
    rw [hbottom] at hs
    cases hs
  · rename_i hr
    split at hbody
    · cases hbody
      simp [htop s hs, hr]
    · cases hbody

/-- Keywords that may be left out in front of a column. -/
def orderedColumn : Grammar :=
  .withLeaf (.seq [.kw .SELECT, .opt (.seq [.kw .ORDER, .kw .BY]), .rule .columnRef]) .columnRef
    .ident

theorem orderedColumn_not_leftRecursive (r : Rule) : ¬orderedColumn.LeftRecursive default r :=
  Grammar.withLeaf_not_leftRecursive (by decide) rfl default r

theorem orderedColumn_not_skips (input : List Terminal) : ¬orderedColumn.Skips default input := by
  refine Grammar.not_skips_of_takes ?_ default input
  intro r body _ hbody
  rw [orderedColumn, Grammar.body?_withLeaf] at hbody
  split at hbody
  · cases hbody
    rfl
  · split at hbody
    · cases hbody
      rfl
    · cases hbody

/-- A table that may be left out in front of a keyword. -/
def optionalTable : Grammar :=
  .withLeaf (.seq [.rule .tableRef, .kw .SELECT]) .tableRef (.opt .ident)

/-- A keyword, and the same keyword behind a table that may be left out. -/
def secondOccurrence : Grammar :=
  .withLeaf (.choice [.seq [.kw .SELECT, .kw .ALL],
    .seq [.rule .tableRef, .kw .SELECT, .kw .DISTINCT]]) .tableRef (.opt .ident)

/-! ## All of it is collected -/

section

variable {g : Grammar} {v : Version} {s : TokenStream} {caretIndex : Nat}

theorem collect_answered (hrec : ∀ r, ¬g.LeftRecursive v r)
    (hdepth : (Walk.run (caretSetting g v s caretIndex)).2.cuts.depth = false) :
    Answered (caretSetting g v s caretIndex).Ways (collect g v s caretIndex) :=
  Walk.run_answered (Walk.run_uncut hrec hdepth)

theorem collect_answered_expects (hrec : ∀ r, ¬g.LeftRecursive v r)
    (hdepth : (Walk.run (caretSetting g v s caretIndex)).2.cuts.depth = false)
    (hskips : ¬g.Skips v (s.kindsBefore caretIndex)) :
    Answered (g.Expects v (s.kindsBefore caretIndex)) (collect g v s caretIndex) :=
  Walk.answered_expects (collect_answered hrec hdepth) hskips

/-- Where no rule is left recursive and the walk was not too deep, what is collected is what the
ways demand. So it is what the partial derivations demand just where the ways cover them, and they
do where the grammar does not skip. -/
theorem collect_exact (hrec : ∀ r, ¬g.LeftRecursive v r)
    (hdepth : (Walk.run (caretSetting g v s caretIndex)).2.cuts.depth = false) :
    Exact (caretSetting g v s caretIndex).Ways (collect g v s caretIndex) ∧
      (Exact (g.Expects v (s.kindsBefore caretIndex)) (collect g v s caretIndex) ↔
        Covers (g.Expects v (s.kindsBefore caretIndex)) (caretSetting g v s caretIndex).Ways) ∧
      (¬g.Skips v (s.kindsBefore caretIndex) →
        Exact (g.Expects v (s.kindsBefore caretIndex)) (collect g v s caretIndex)) := by
  have hways : Exact (caretSetting g v s caretIndex).Ways (collect g v s caretIndex) :=
    (Walk.run_backed _).exact (collect_answered hrec hdepth)
  refine ⟨hways, hways.iff_covers fun _ _ h => h.expects, ?_⟩
  intro hskips
  exact (collect_backed g v s caretIndex).exact (collect_answered_expects hrec hdepth hskips)

theorem collect_exact_orderedColumn :
    collect orderedColumn default (.ofText default "SELECT ") 2 =
        ⟨[(.keyword .ORDER, [.keyword .BY])], [(.columnRef, [[.query]])]⟩ ∧
      Exact (orderedColumn.Expects default
          ((TokenStream.ofText default "SELECT ").kindsBefore 2))
        (collect orderedColumn default (.ofText default "SELECT ") 2) := by
  refine ⟨by decide +kernel, (collect_exact orderedColumn_not_leftRecursive ?_).2.2 ?_⟩
  · decide +kernel
  · exact orderedColumn_not_skips _

/-- A table that may be left out in front of a keyword: at the start the table is collected, and
the keyword, which could stand there as well, is not. -/
theorem optionalTable_not_exact :
    (∀ r, ¬optionalTable.LeftRecursive default r) ∧
      (Walk.run (caretSetting optionalTable default (.ofText default "") 0)).2.cuts.depth = false ∧
      ¬Exact (optionalTable.Expects default ((TokenStream.ofText default "").kindsBefore 0))
        (collect optionalTable default (.ofText default "") 0) := by
  refine ⟨Grammar.withLeaf_not_leftRecursive (by decide) rfl default, by decide +kernel, ?_⟩
  intro hexact
  have hnone : Terminal.keyword .SELECT ∉
      (collect optionalTable default (.ofText default "") 0).terminals := by decide +kernel
  refine hnone ((hexact.terminals _).2 ⟨by decide, [], [.query], [], ?_, by decide, rfl⟩)
  have hskipped : optionalTable.Derives default (.rule .tableRef) [] := .rule rfl (.optNone .ident)
  exact .enter rfl (.seqTail hskipped (.seqHead (.token _ [])))

/-- A derivation goes on with what must follow the terminal that it consumes. -/
theorem Settled.forced {t : Terminal} {known : List Terminal} {input : List Terminal}
    (h : Settled (g.Expects v input) t known) {chain : List Rule} {next : List Element}
    {w : List Terminal} (hconsumes : g.Consumes v (.rule g.entry) [] input chain t next w)
    (hfree : ∀ r ∈ chain, r.isPreferred = false) : known <+: w := by
  rcases h with ⟨-, hall⟩ | ⟨rfl, -⟩
  · have hknown : followingTerminals next = known :=
      hall _ ⟨chain, next, hconsumes.reaches, hfree, rfl⟩
    rw [← hknown]
    rcases hconsumes.following with ⟨rfl, -⟩ | hfollowing
    · exact List.nil_prefix
    · exact hfollowing
  · exact List.nil_prefix

/-- What stands under a terminal that is collected must follow all its occurrences on the ways, or
is nothing where two of them differ. It is so for the partial derivations just where it is nothing
or all of them agree to it, which they do where the grammar does not skip, and then whatever the
grammar derives from the input and the terminal goes on with it. -/
theorem collect_following {t : Terminal} {known : List Terminal}
    (hrec : ∀ r, ¬g.LeftRecursive v r)
    (hdepth : (Walk.run (caretSetting g v s caretIndex)).2.cuts.depth = false)
    (hmem : (t, known) ∈ (collect g v s caretIndex).tokens) :
    Settled (caretSetting g v s caretIndex).Ways t known ∧
      (Settled (g.Expects v (s.kindsBefore caretIndex)) t known ↔ known = [] ∨
        ∀ following, Occurs (g.Expects v (s.kindsBefore caretIndex)) t following →
          following = known) ∧
      (Settled (g.Expects v (s.kindsBefore caretIndex)) t known →
        ∀ chain next w, g.Consumes v (.rule g.entry) [] (s.kindsBefore caretIndex) chain t next w →
          (∀ r ∈ chain, r.isPreferred = false) → known <+: w) ∧
      (¬g.Skips v (s.kindsBefore caretIndex) →
        Settled (g.Expects v (s.kindsBefore caretIndex)) t known) := by
  have hways : Settled (caretSetting g v s caretIndex).Ways t known :=
    (Walk.run_backed _).settled (collect_answered hrec hdepth) hmem
  refine ⟨hways, hways.iff_agree fun _ _ h => h.expects, ?_, ?_⟩
  · intro hsettled chain next w hconsumes hfree
    exact hsettled.forced hconsumes hfree
  · intro hskips
    exact (collect_backed g v s caretIndex).settled
      (collect_answered_expects hrec hdepth hskips) hmem

theorem collect_following_orderedColumn :
    Settled (orderedColumn.Expects default ((TokenStream.ofText default "SELECT ").kindsBefore 2))
        (.keyword .ORDER) [.keyword .BY] ∧
      ∀ chain next w, orderedColumn.Consumes default (.rule .query) []
          ((TokenStream.ofText default "SELECT ").kindsBefore 2) chain (.keyword .ORDER) next w →
        (∀ r ∈ chain, r.isPreferred = false) → [.keyword .BY] <+: w := by
  have hdepth : (Walk.run (caretSetting orderedColumn default
      (.ofText default "SELECT ") 2)).2.cuts.depth = false := by decide +kernel
  have hmem : (.keyword .ORDER, [.keyword .BY]) ∈
      (collect orderedColumn default (.ofText default "SELECT ") 2).tokens := by decide +kernel
  obtain ⟨-, -, hforced, hsettled⟩ :=
    collect_following orderedColumn_not_leftRecursive hdepth hmem
  exact ⟨hsettled (orderedColumn_not_skips _), hforced (hsettled (orderedColumn_not_skips _))⟩

/-- Two queries that start with the same keyword, the second one behind a table that may be left
out: only the first occurrence is seen, and it forces a word that the second one does without. -/
theorem secondOccurrence_not_forced :
    (∀ r, ¬secondOccurrence.LeftRecursive default r) ∧
      (Walk.run (caretSetting secondOccurrence default (.ofText default "") 0)).2.cuts.depth =
        false ∧
      (.keyword .SELECT, [.keyword .ALL]) ∈
        (collect secondOccurrence default (.ofText default "") 0).tokens ∧
      ¬Settled (secondOccurrence.Expects default ((TokenStream.ofText default "").kindsBefore 0))
        (.keyword .SELECT) [.keyword .ALL] ∧
      secondOccurrence.Consumes default (.rule .query) []
        ((TokenStream.ofText default "").kindsBefore 0) [.query] (.keyword .SELECT)
        [.kw .DISTINCT] [.keyword .DISTINCT] := by
  have hskipped : secondOccurrence.Derives default (.rule .tableRef) [] :=
    .rule rfl (.optNone .ident)
  have hconsumes : secondOccurrence.Consumes default (.rule .query) [] [] [.query]
      (.keyword .SELECT) [.kw .DISTINCT] [.keyword .DISTINCT] :=
    .rule rfl (.choice (.tail _ (.head _)) (.seqTail hskipped
      (.seqHead (.token _ _) (.seqCons (.token _) .seqNil))))
  refine ⟨Grammar.withLeaf_not_leftRecursive (by decide) rfl default, by decide +kernel,
    by decide +kernel, ?_, hconsumes⟩
  intro hsettled
  have hforced := hsettled.forced hconsumes (by decide)
  exact absurd hforced (by decide)

end

end SqlCompletion
