import SqlCompletion.Proofs.Viability
import SqlCompletion.Proofs.Watch
set_option autoImplicit false

/-!
# Left corners

The heads of an element are the rules that it may call before it has derived a terminal, whatever
the version of the server is. Partial derivations that have derived nothing yet go from heads to
heads (`Reaches.corners`). A rule settles when going on like that comes to an end
(`Grammar.settlesWithin`), and then it is not left recursive: a left recursion would be a loop of
corners, and a level is taken away with each of them (`not_leftRecursive_of_settles`).

All rules of the MySQL grammar settle within 11 levels (`Mysql.settlesWithin`), which is evaluated.
So none of them is left recursive at any version, and no walk calls a rule that is open at the same
position (`Mysql.never_reenters`). The second part is said with a watch on such calls, which may do
what it likes: the walk is the same.

Which rules derive the empty sequence has to be known for the heads of a sequence. They are given as
marks on the rules, and that a rule that is marked takes something is checked along with the rest.
In the MySQL grammar all rules are marked.
-/

namespace SqlCompletion

/-! ## Heads -/

namespace Element

mutual

/-- The rules that the element may call before any terminal, where the rules that are marked derive
no empty sequence. -/
def heads (marked : Rule → Bool) : Element → List Rule
  | token _ => []
  | ident => []
  | rule r => [r]
  | seq items => seqHeads marked items
  | choice alternatives => choiceHeads marked alternatives
  | opt e => e.heads marked
  | star e => e.heads marked
  | plus e => e.heads marked
  | since _ e => e.heads marked
  | before _ e => e.heads marked

/-- The heads of a sequence: those of its elements up to the first one that takes something. -/
def seqHeads (marked : Rule → Bool) : List Element → List Rule
  | [] => []
  | e :: rest => e.heads marked ++ if e.takes marked then [] else seqHeads marked rest

/-- The heads of some alternatives. -/
def choiceHeads (marked : Rule → Bool) : List Element → List Rule
  | [] => []
  | e :: es => e.heads marked ++ choiceHeads marked es

end

variable {marked : Rule → Bool}

theorem mem_choiceHeads {e : Element} {es : List Element} {r : Rule} (he : e ∈ es)
    (hr : r ∈ e.heads marked) : r ∈ choiceHeads marked es := by
  induction es with
  | nil => cases he
  | cons e' es ih =>
    rw [choiceHeads, List.mem_append]
    rcases List.mem_cons.1 he with rfl | he
    · exact .inl hr
    · exact .inr (ih he)

theorem mem_seqHeads_of_rest {e : Element} {rest : List Element} {r : Rule}
    (hempty : e.takes marked = false) (hr : r ∈ (seq rest).heads marked) :
    r ∈ (seq (e :: rest)).heads marked := by
  rw [heads] at hr
  rw [heads, seqHeads, hempty]
  exact List.mem_append_right _ hr

end Element

namespace Grammar

variable {g : Grammar} {v : Version} {marked : Rule → Bool}

/-- The body of the first rule may call the second before any terminal. -/
def Corner (g : Grammar) (marked : Rule → Bool) (r s : Rule) : Prop :=
  ∃ body, g.body? r = some body ∧ s ∈ body.heads marked

/-- Where nothing has been derived yet, the open rules, and the rule that is next where it is one,
are a chain of corners: the first is a head of the element, and each other one a head of the body
of the rule in front of it. -/
theorem Reaches.corners (hmarked : g.TakesMarked marked) {e : Element} {follow : List Element}
    {w : List Terminal} {chain : List Rule} {spot : Spot} (h : Reaches g v e follow w chain spot)
    (hw : w = []) :
    (∀ r ∈ (chain ++ spot.opens).head?, r ∈ e.heads marked) ∧
      (chain ++ spot.opens).IsChain (g.Corner marked) := by
  induction h with
  | token | ident => simp [Spot.opens]
  | call r => simp [Spot.opens, Element.heads]
  | @enter r body _ _ chain spot defined _ ih =>
    refine ⟨by simp [Element.heads], ?_⟩
    exact (ih hw).2.cons fun s hs => ⟨body, defined, (ih hw).1 s hs⟩
  | seqHead _ ih =>
    refine ⟨fun r hr => ?_, (ih hw).2⟩
    rw [Element.heads, Element.seqHeads]
    exact List.mem_append_left _ ((ih hw).1 r hr)
  | @seqTail e _ _ u _ _ _ head _ ih =>
    obtain ⟨rfl, rfl⟩ := List.append_eq_nil_iff.1 hw
    refine ⟨fun r hr => ?_, (ih rfl).2⟩
    refine Element.mem_seqHeads_of_rest ?_ ((ih rfl).1 r hr)
    -- The element in front of the rest has derived the empty sequence.
    exact Bool.eq_false_iff.2 fun htakes => head.ne_nil hmarked htakes rfl
  | choice chosen _ ih =>
    refine ⟨fun r hr => ?_, (ih hw).2⟩
    rw [Element.heads]
    exact Element.mem_choiceHeads chosen ((ih hw).1 r hr)
  | star _ _ ih | plus _ _ ih =>
    have hinner := (List.append_eq_nil_iff.1 hw).2
    exact ⟨fun r hr => by simpa [Element.heads] using (ih hinner).1 r hr, (ih hinner).2⟩
  | opt _ ih | since _ _ ih | before _ _ ih =>
    exact ⟨fun r hr => by simpa [Element.heads] using (ih hw).1 r hr, (ih hw).2⟩

/-! ## Rules that settle -/

/-- From heads to heads, the rule comes to an end in fewer than this many levels. -/
def settlesWithin (g : Grammar) (marked : Rule → Bool) : Nat → Rule → Bool
  | 0, _ => false
  | n + 1, r => (g.body? r).all fun body => (body.heads marked).all (g.settlesWithin marked n)

theorem settlesWithin_of_corner {n : Nat} {r s : Rule} (h : g.settlesWithin marked (n + 1) r = true)
    (hcorner : g.Corner marked r s) : g.settlesWithin marked n s = true := by
  obtain ⟨body, hbody, hs⟩ := hcorner
  rw [settlesWithin, hbody, Option.all_some, List.all_eq_true] at h
  exact h s hs

/-- A chain of corners from a rule that settles takes away a level with each rule. -/
theorem settlesWithin_of_isChain {rules : List Rule} {n : Nat} {r s : Rule}
    (h : g.settlesWithin marked n r = true) (hchain : (r :: rules).IsChain (g.Corner marked))
    (hlast : rules.getLast? = some s) : ∃ m < n, g.settlesWithin marked m s = true := by
  induction rules generalizing n r with
  | nil => cases hlast
  | cons r' rules ih =>
    cases n with
    | zero => cases h
    | succ n =>
      obtain ⟨hcorner, hrest⟩ := List.isChain_cons_cons.1 hchain
      have hnext := settlesWithin_of_corner h hcorner
      cases rules with
      | nil =>
        cases hlast
        exact ⟨n, Nat.lt_succ_self n, hnext⟩
      | cons r'' rules =>
        rw [List.getLast?_cons_cons] at hlast
        obtain ⟨m, hm, hs⟩ := ih hnext hrest hlast
        exact ⟨m, Nat.lt_succ_of_lt hm, hs⟩

/-- A rule that settles is not left recursive: its loop of corners would go down for ever. -/
theorem not_leftRecursive_of_settles (hmarked : g.TakesMarked marked) {n : Nat} {r : Rule}
    (h : g.settlesWithin marked n r = true) : ¬g.LeftRecursive v r := by
  rintro ⟨body, chain, hbody, hreach⟩
  obtain ⟨hhead, hchain⟩ := hreach.corners hmarked rfl
  have hloop : (r :: (chain ++ [r])).IsChain (g.Corner marked) :=
    hchain.cons fun s hs => ⟨body, hbody, hhead s hs⟩
  induction n using Nat.strong_induction_on with
  | _ n ih =>
    obtain ⟨m, hm, hs⟩ := settlesWithin_of_isChain (s := r) h hloop (by simp)
    exact ih m hm hs

end Grammar

namespace Mysql

theorem settlesWithin : ∀ r, grammar.settlesWithin (fun _ => true) 11 r = true :=
  Rule.forall_of_ofNat (by decide +kernel)

/-- At no version of the server is a rule of the MySQL grammar left recursive. -/
theorem not_leftRecursive (v : Version) (r : Rule) : ¬grammar.LeftRecursive v r :=
  Grammar.not_leftRecursive_of_settles takesMarked (settlesWithin r)

end Mysql

/-! ## Calls of open rules -/

/-- At no version of the server is a rule of the MySQL grammar reached from its own body before any
terminal, and so no walk for candidates ever calls a rule that is open at the same position:
whatever is done in place of such a call makes no difference. None is cut off for that either. -/
theorem Mysql.never_reenters (v : Version) :
    (∀ r, ¬Mysql.grammar.LeftRecursive v r) ∧
      ∀ (s : TokenStream) (caretIndex : Nat),
        (∀ reentry, Walk.watchedRun (caretSetting Mysql.grammar v s caretIndex)
            { reentry := reentry } =
          Walk.run (caretSetting Mysql.grammar v s caretIndex)) ∧
        (Walk.run (caretSetting Mysql.grammar v s caretIndex)).2.cuts.leftRecursion = false := by
  refine ⟨not_leftRecursive v, fun s caretIndex => ⟨fun reentry => ?_, ?_⟩⟩
  · exact Walk.watchedRun_eq_run (fun r hr => absurd hr (not_leftRecursive v r))
      fun _ _ _ _ => rfl
  · by_contra hcut
    obtain ⟨r, hr⟩ := (Walk.run_outcome _).good.recursion (Bool.of_not_eq_false hcut)
    exact not_leftRecursive v r hr

end SqlCompletion
