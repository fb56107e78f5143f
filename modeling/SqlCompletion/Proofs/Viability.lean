import SqlCompletion.Proofs.Collection
set_option autoImplicit false

/-!
# What is offered leads somewhere

A partial derivation need not be part of a whole one: what stands behind it in its sequences may
derive nothing, because of a rule without a finite derivation or a gate that the server's version
keeps shut. Two checks on the bodies of the rules exclude that for every version at once.

* Every rule derives something (`Grammar.bears`), told by the height of a derivation.
* Whatever is begun in a body can be finished (`Element.finishes`): behind each part of a sequence
  stand parts that derive something.

A grammar that passes both is whole (`Grammar.Whole`). There a partial derivation with a terminal
next is the first part of a derivation (`Reaches.consumes`), and so every candidate, with what must
follow it, is the start of a continuation (`Agreed.continues`).

The MySQL grammar is whole (`Mysql.whole`), so that all of its candidates go on to something that
the grammar derives (`mysql_candidates_continue`). Both checks are evaluated over all its rules.
Gates make them a little more than a look at each part: an alternative for the servers since a
version is of use only with one for those before it, and `Element.someBears` goes through the
alternatives with the least version that is still to be served.

The checks are sufficient. A grammar with a part that derives nothing at some version fails them,
though it may be that nobody comes to that part.
-/

namespace SqlCompletion

/-! ## Elements that derive something -/

namespace Element

mutual

/-- The element derives something on servers of every version where the rules that are marked
do. -/
def bears (marked : Rule → Bool) : Element → Bool
  | token _ => true
  | ident => true
  | rule r => marked r
  | seq items => allBear marked items
  | choice alternatives => someBears marked 0 alternatives
  | opt _ => true
  | star _ => true
  | plus e => e.bears marked
  | since _ _ => false
  | before _ _ => false

/-- All of the elements derive something. -/
def allBear (marked : Rule → Bool) : List Element → Bool
  | [] => true
  | e :: es => e.bears marked && allBear marked es

/-- One of the elements derives something, on servers of every version that is not below `known`.
An element for the servers below a version raises what is known for those behind it in the
list. -/
def someBears (marked : Rule → Bool) (known : Nat) : List Element → Bool
  | [] => false
  | before u e :: es => someBears marked (if e.bears marked then max known u.number else known) es
  | since u e :: es => (decide (u.number ≤ known) && e.bears marked) || someBears marked known es
  | e :: es => e.bears marked || someBears marked known es

end

end Element

namespace Grammar

variable {g : Grammar} {v : Version} {marked : Rule → Bool}

/-- The element derives a sequence. -/
def Bears (g : Grammar) (v : Version) (e : Element) : Prop := ∃ w, Derives g v e w

theorem bears_seq_nil : Bears g v (.seq []) := ⟨[], .seqNil⟩

theorem Bears.seq_cons {e : Element} {rest : List Element} (h : Bears g v e)
    (hrest : Bears g v (.seq rest)) : Bears g v (.seq (e :: rest)) := by
  obtain ⟨u, hu⟩ := h
  obtain ⟨w, hw⟩ := hrest
  exact ⟨u ++ w, .seqCons hu hw⟩

theorem Bears.choice {e : Element} {alternatives : List Element} (h : Bears g v e)
    (hmem : e ∈ alternatives) : Bears g v (.choice alternatives) := by
  obtain ⟨w, hw⟩ := h
  exact ⟨w, .choice hmem hw⟩

mutual

theorem bears_of_check (hmarked : ∀ r, marked r = true → Bears g v (.rule r)) (e : Element)
    (h : e.bears marked = true) : Bears g v e := by
  cases e with
  | token t => exact ⟨[t], .token t⟩
  | ident => exact ⟨[.symbol .identifier], .ident rfl⟩
  | rule r =>
    rw [Element.bears] at h
    exact hmarked r h
  | seq items =>
    rw [Element.bears] at h
    exact bears_seq_of_check hmarked items h
  | choice alternatives =>
    rw [Element.bears] at h
    rcases someBears_of_check hmarked alternatives 0 h with hbelow | ⟨e, hmem, he⟩
    · exact absurd hbelow (Nat.not_lt_zero _)
    · exact he.choice hmem
  | opt e => exact ⟨[], .optNone e⟩
  | star e => exact ⟨[], .starNil e⟩
  | plus e =>
    rw [Element.bears] at h
    obtain ⟨w, hw⟩ := bears_of_check hmarked e h
    exact ⟨w ++ [], .plus hw (.starNil e)⟩
  | since u e =>
    rw [Element.bears] at h
    cases h
  | before u e =>
    rw [Element.bears] at h
    cases h

theorem bears_seq_of_check (hmarked : ∀ r, marked r = true → Bears g v (.rule r))
    (items : List Element) (h : Element.allBear marked items = true) :
    Bears g v (.seq items) := by
  cases items with
  | nil => exact bears_seq_nil
  | cons e rest =>
    rw [Element.allBear, Bool.and_eq_true] at h
    have hhead := bears_of_check hmarked e h.1
    exact hhead.seq_cons (bears_seq_of_check hmarked rest h.2)

/-- Either the version is known to be served by an element in front of these, or one of them
derives something. -/
theorem someBears_of_check (hmarked : ∀ r, marked r = true → Bears g v (.rule r))
    (es : List Element) (known : Nat) (h : Element.someBears marked known es = true) :
    v.number < known ∨ ∃ e ∈ es, Bears g v e := by
  unfold Element.someBears at h
  split at h
  · cases h
  · rename_i u e es
    rcases someBears_of_check hmarked es _ h with hbelow | ⟨e', hmem, he'⟩
    · split at hbelow
      · rename_i hbears
        rcases lt_max_iff.1 hbelow with hknown | hgate
        · exact .inl hknown
        · obtain ⟨w, hw⟩ := bears_of_check hmarked e hbears
          exact .inr ⟨.before u e, List.mem_cons_self, w, .before hgate hw⟩
      · exact .inl hbelow
    · exact .inr ⟨e', List.mem_cons_of_mem _ hmem, he'⟩
  · rename_i u e es
    rcases Bool.or_eq_true_iff.1 h with hhead | hrest
    · obtain ⟨hgate, hbears⟩ := Bool.and_eq_true_iff.1 hhead
      have hgate : u.number ≤ known := of_decide_eq_true hgate
      by_cases hbelow : v.number < known
      · exact .inl hbelow
      · obtain ⟨w, hw⟩ := bears_of_check hmarked e hbears
        have hopen : u ≤ v := Nat.le_trans hgate (Nat.le_of_not_lt hbelow)
        exact .inr ⟨.since u e, List.mem_cons_self, w, .since hopen hw⟩
    · rcases someBears_of_check hmarked es known hrest with hbelow | ⟨e', hmem, he'⟩
      · exact .inl hbelow
      · exact .inr ⟨e', List.mem_cons_of_mem _ hmem, he'⟩
  · rename_i e es _ _
    rcases Bool.or_eq_true_iff.1 h with hhead | hrest
    · exact .inr ⟨e, List.mem_cons_self, bears_of_check hmarked e hhead⟩
    · rcases someBears_of_check hmarked es known hrest with hbelow | ⟨e', hmem, he'⟩
      · exact .inl hbelow
      · exact .inr ⟨e', List.mem_cons_of_mem _ hmem, he'⟩

end

/-- The rule has a derivation of at most this height, on servers of every version. -/
def bearsWithin (g : Grammar) : Nat → Rule → Bool
  | 0, _ => false
  | height + 1, r => (g.body? r).any (Element.bears (g.bearsWithin height))

theorem bears_of_bearsWithin (height : Nat) (r : Rule) (h : g.bearsWithin height r = true) :
    Bears g v (.rule r) := by
  induction height generalizing r with
  | zero => cases h
  | succ height ih =>
    obtain ⟨body, hbody, hbears⟩ := (Option.any_eq_true _ _).1 h
    obtain ⟨w, hw⟩ := bears_of_check ih body hbears
    exact ⟨w, .rule hbody hw⟩

end Grammar

/-! ## Elements that can be finished -/

namespace Element

mutual

/-- Whatever is begun in the element can be finished where every rule derives something: behind
each part of a sequence stand parts that derive something. -/
def finishes : Element → Bool
  | token _ => true
  | ident => true
  | rule _ => true
  | seq items => seqFinishes items
  | choice alternatives => allFinish alternatives
  | opt e => e.finishes
  | star e => e.finishes
  | plus e => e.finishes
  | since _ e => e.finishes
  | before _ e => e.finishes

/-- Whatever is begun in the sequence can be finished. -/
def seqFinishes : List Element → Bool
  | [] => true
  | e :: rest => e.finishes && allBear (fun _ => true) rest && seqFinishes rest

/-- Whatever is begun in one of the elements can be finished. -/
def allFinish : List Element → Bool
  | [] => true
  | e :: es => e.finishes && allFinish es

end

theorem finishes_of_allFinish {es : List Element} (h : allFinish es = true) {e : Element}
    (he : e ∈ es) : e.finishes = true := by
  induction es with
  | nil => cases he
  | cons e' es ih =>
    rw [allFinish, Bool.and_eq_true] at h
    rcases List.mem_cons.1 he with rfl | he
    · exact h.1
    · exact ih h.2 he

end Element

namespace Grammar

variable {g : Grammar} {v : Version}

/-- Every rule derives something, and whatever is begun in a body can be finished. -/
structure Whole (g : Grammar) (v : Version) : Prop where
  bears : ∀ r, Bears g v (.rule r)
  finishes : ∀ r body, g.body? r = some body → body.finishes = true

/-- A partial derivation with a terminal next is a derivation up to that terminal. -/
theorem Reaches.consumes (hwhole : g.Whole v) {e : Element} {follow next : List Element}
    {u : List Terminal} {chain : List Rule} {t : Terminal}
    (h : Reaches g v e follow u chain (.token t next)) (he : e.finishes = true) :
    ∃ w, Consumes g v e follow u chain t next w := by
  generalize hspot : Spot.token t next = spot at h
  induction h with
  | token t' follow' =>
    cases hspot
    exact ⟨[], .token t next⟩
  | ident => cases hspot
  | call => cases hspot
  | enter defined _ ih =>
    obtain ⟨w, hw⟩ := ih (hwhole.finishes _ _ defined) hspot
    exact ⟨w, .rule defined hw⟩
  | @seqHead e rest _ _ _ _ _ ih =>
    rw [Element.finishes, Element.seqFinishes, Bool.and_eq_true, Bool.and_eq_true] at he
    obtain ⟨w, hw⟩ := ih he.1.1 hspot
    obtain ⟨z, hz⟩ := bears_seq_of_check (fun r _ => hwhole.bears r) rest he.1.2
    exact ⟨w ++ z, .seqHead hw hz⟩
  | @seqTail e rest follow _ _ _ _ head _ ih =>
    rw [Element.finishes, Element.seqFinishes, Bool.and_eq_true] at he
    have htail : (Element.seq rest).finishes = true := by
      rw [Element.finishes]
      exact he.2
    obtain ⟨w, hw⟩ := ih htail hspot
    exact ⟨w, .seqTail head hw⟩
  | choice chosen _ ih =>
    rw [Element.finishes] at he
    obtain ⟨w, hw⟩ := ih (Element.finishes_of_allFinish he chosen) hspot
    exact ⟨w, .choice chosen hw⟩
  | opt _ ih =>
    rw [Element.finishes] at he
    obtain ⟨w, hw⟩ := ih he hspot
    exact ⟨w, .opt hw⟩
  | @star e _ _ _ _ _ rounds _ ih =>
    rw [Element.finishes] at he
    obtain ⟨w, hw⟩ := ih he hspot
    exact ⟨w ++ [], .star rounds hw (.starNil e)⟩
  | @plus e _ _ _ _ _ rounds _ ih =>
    rw [Element.finishes] at he
    obtain ⟨w, hw⟩ := ih he hspot
    exact ⟨w ++ [], .plus rounds hw (.starNil e)⟩
  | since gate _ ih =>
    rw [Element.finishes] at he
    obtain ⟨w, hw⟩ := ih he hspot
    exact ⟨w, .since gate hw⟩
  | before gate _ ih =>
    rw [Element.finishes] at he
    obtain ⟨w, hw⟩ := ih he hspot
    exact ⟨w, .before gate hw⟩

/-- The input goes on with some terminals to something that the entry rule derives. -/
def Continues (g : Grammar) (v : Version) (input more : List Terminal) : Prop :=
  ∃ w, Derives g v (.rule g.entry) (input ++ more ++ w)

end Grammar

section

variable {g : Grammar} {v : Version} {input : List Terminal} {t : Terminal}

/-- What occurs at the end of the input continues it, and so does what must follow. -/
theorem Occurs.continues (hwhole : g.Whole v) {following : List Terminal}
    (h : Occurs (g.Expects v input) t following) : g.Continues v input (t :: following) := by
  obtain ⟨chain, follow, hexpects, -, rfl⟩ := h
  obtain ⟨w, hw⟩ := hexpects.consumes hwhole rfl
  have hprefix : followingTerminals follow <+: w := by
    rcases hw.following with ⟨rfl, -⟩ | hprefix
    · exact List.nil_prefix
    · exact hprefix
  obtain ⟨z, rfl⟩ := hprefix
  refine ⟨z, ?_⟩
  simpa using hw.derives

theorem Grammar.Continues.of_append {more rest : List Terminal}
    (h : g.Continues v input (more ++ rest)) : g.Continues v input more := by
  obtain ⟨w, hw⟩ := h
  exact ⟨rest ++ w, by simpa using hw⟩

/-- What stands under a terminal is what must follow it somewhere, or nothing. -/
theorem Agreed.continues (hwhole : g.Whole v) {known : List Terminal}
    (h : Agreed (g.Expects v input) t known) : g.Continues v input (t :: known) := by
  obtain ⟨following, hoccurs, rfl | ⟨rfl, -⟩⟩ := h
  · exact hoccurs.continues hwhole
  · have hboth : g.Continues v input ([t] ++ following) := hoccurs.continues hwhole
    exact hboth.of_append

end

/-! ## The MySQL grammar -/

/-- What is tested of the rules by their numbers holds of all of them. -/
theorem Rule.forall_of_ofNat {p : Rule → Bool} (h : ∀ n < 255, p (Rule.ofNat n) = true)
    (r : Rule) : p r = true := by
  rw [← Rule.ofNat_ctorIdx r]
  exact h _ (MemoKey.ctorIdx_lt r)

namespace Mysql

theorem bearsWithin : ∀ r, grammar.bearsWithin 9 r = true :=
  Rule.forall_of_ofNat (by decide +kernel)

theorem finishes_body : ∀ r, (body r).finishes = true :=
  Rule.forall_of_ofNat (by decide +kernel)

/-- On servers of every version, whatever is begun in the MySQL grammar can be finished. -/
theorem whole (v : Version) : grammar.Whole v where
  bears := fun r => Grammar.bears_of_bearsWithin 9 r (bearsWithin r)
  finishes := by
    intro r body hbody
    obtain rfl := Option.some.inj hbody
    exact finishes_body r

end Mysql

/-- Every terminal that is offered by the MySQL grammar, with all that must follow it, goes on
from what was typed to something that the grammar derives. -/
theorem mysql_candidates_continue (v : Version) (s : TokenStream) (caretIndex : Nat)
    (t : Terminal) (following : List Terminal)
    (h : (t, following) ∈ (collect Mysql.grammar v s caretIndex).tokens) :
    ∃ w, Mysql.grammar.Derives v (.rule .query)
      (s.kindsBefore caretIndex ++ [t] ++ following ++ w) := by
  have hbacked := collect_backed Mysql.grammar v s caretIndex
  obtain ⟨-, hagreed⟩ := hbacked.tokens t following (lookup_of_mem hbacked.distinct.terminals h)
  obtain ⟨w, hw⟩ := hagreed.continues (Mysql.whole v)
  refine ⟨w, ?_⟩
  rw [List.append_assoc (s.kindsBefore caretIndex)]
  exact hw

theorem mysql_candidates_continue_orderBy :
    (.keyword .ORDER, [.keyword .BY]) ∈
        (collect Mysql.grammar .standard (.ofText {} "DELETE FROM users ") 6).tokens ∧
      ∃ w, Mysql.grammar.Derives .standard (.rule .query)
        ((TokenStream.ofText {} "DELETE FROM users ").kindsBefore 6 ++ [.keyword .ORDER] ++
          [.keyword .BY] ++ w) := by
  have hmem : (.keyword .ORDER, [.keyword .BY]) ∈
      (collect Mysql.grammar .standard (.ofText {} "DELETE FROM users ") 6).tokens := by
    decide +kernel
  exact ⟨hmem, mysql_candidates_continue _ _ _ _ _ hmem⟩

end SqlCompletion
