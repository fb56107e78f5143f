import SqlCompletion.Proofs.LeftCorners
import SqlCompletion.Proofs.Tasks
set_option autoImplicit false

/-!
# What the limit on open rules leaves

A partial derivation is told with the number of rules that are open in it at once (`ComesWithin`),
those of the parts that it has derived already among them (`SpansWithin`). Told so for some number,
these are all the partial derivations to a terminal outside of preferred rules (`comesWithin_iff`):
the number only counts, it excludes none.

The walk stops where `maxDepth` rules are open. What it has found there of a rule is kept in the
memory, and answers for the rule wherever it is called at that position again, also where far fewer
rules are open. So a terminal may be missed that a short partial derivation has next: behind 32
opening parentheses of the grammar `nestedDates`, the date that three open rules lead to
(`nestedDates_misses_date`).

It is found when every rule of the partial derivation is spared (`Setting.Spares`): in whatever
chain of rules it may be called at its position, there is room for what the partial derivation opens
in it (`collect_within`). Then no answer from the memory was cut off. Not far behind the start of
the input all rules are spared (`Setting.spares_of_settles`), if from heads to heads all rules come
to an end.

That is a task of a walk (`sparedTask`), which may be asked of every call of a rule alike, wherever
the memory answers for it. The grammars here have no left recursion. What lies inside of preferred
rules is left out, as it is reported by its rule.
-/

namespace SqlCompletion.Walk

open Grammar (Derives Reaches)

/-! ## Derivations with few open rules -/

/-- The outermost preferred rule around what is inside the rule. -/
def preferredInside (preferred : Option Rule) (r : Rule) : Option Rule :=
  preferred.or ([r].find? Rule.isPreferred)

section

variable (c : Setting) (allowed : Option Rule → Rule → Nat → Nat → Prop)

/-- The rule derives the input from one position to another with no more than `n` rules open at
once, itself among them. Every rule that is used must be allowed where it starts, with the number
of rules that it needs and the outermost preferred rule around it. -/
def SpansWithin : (n : Nat) → Option Rule → Rule → Nat → Nat → Prop
  | 0, _, _, _, _ => False
  | n + 1, preferred, r, p, q =>
    SpansWithin n preferred r p q ∨
      allowed preferred r p (n + 1) ∧ ∃ body, c.grammar.body? r = some body ∧
        Passes c (SpansWithin n (preferredInside preferred r)) body p q

/-- The rule derives the input from a position up to the caret and has the terminal next there,
outside of preferred rules, with no more than `n` rules open at once, itself among them. -/
def ComesWithin : (n : Nat) → Rule → Nat → Terminal → Prop
  | 0, _, _, _ => False
  | n + 1, r, p, t =>
    ComesWithin n r p t ∨
      allowed none r p (n + 1) ∧ r.isPreferred = false ∧ ∃ body, c.grammar.body? r = some body ∧
        ((∃ follow, Comes c (SpansWithin c allowed n none) body [] p (.token t follow) c.caret) ∨
          ∃ s m, Comes c (SpansWithin c allowed n none) body [] p (.rule s) m ∧ ComesWithin n s m t)

end

section

variable {c : Setting} {allowed : Option Rule → Rule → Nat → Nat → Prop} {n m : Nat}
  {preferred : Option Rule} {r : Rule} {p q : Nat} {t : Terminal}

theorem SpansWithin.mono (h : SpansWithin c allowed n preferred r p q) (hle : n ≤ m) :
    SpansWithin c allowed m preferred r p q := by
  induction hle with
  | refl => exact h
  | step _ ih => exact .inl ih

theorem ComesWithin.mono (h : ComesWithin c allowed n r p t) (hle : n ≤ m) :
    ComesWithin c allowed m r p t := by
  induction hle with
  | refl => exact h
  | step _ ih => exact .inl ih

/-- The rule itself is one of the rules that are open. -/
theorem SpansWithin.body (h : SpansWithin c allowed n preferred r p q) :
    ∃ k < n, allowed preferred r p (k + 1) ∧ ∃ body, c.grammar.body? r = some body ∧
      Passes c (SpansWithin c allowed k (preferredInside preferred r)) body p q := by
  induction n with
  | zero => exact h.elim
  | succ n ih =>
    rcases h with h | h
    · obtain ⟨k, hk, h⟩ := ih h
      exact ⟨k, Nat.lt_succ_of_lt hk, h⟩
    · exact ⟨n, Nat.lt_succ_self n, h⟩

theorem ComesWithin.body (h : ComesWithin c allowed n r p t) :
    ∃ k < n, allowed none r p (k + 1) ∧ r.isPreferred = false ∧
      ∃ body, c.grammar.body? r = some body ∧
        ((∃ follow, Comes c (SpansWithin c allowed k none) body [] p (.token t follow) c.caret) ∨
          ∃ s m, Comes c (SpansWithin c allowed k none) body [] p (.rule s) m ∧
            ComesWithin c allowed k s m t) := by
  induction n with
  | zero => exact h.elim
  | succ n ih =>
    rcases h with h | h
    · obtain ⟨k, hk, h⟩ := ih h
      exact ⟨k, Nat.lt_succ_of_lt hk, h⟩
    · exact ⟨n, Nat.lt_succ_self n, h⟩

end

/-! ### All derivations -/

section

variable {c : Setting} {rules : Rule → Nat → Nat → Prop} {e : Element} {follow : List Element}
  {p q : Nat}

/-- What an element passes it derives, where the rules do. -/
theorem Passes.derives (h : Passes c rules e p q)
    (hrules : ∀ r p q, rules r p q →
      ∃ w, c.Spells p w q ∧ Derives c.grammar c.version (.rule r) w) :
    ∃ w, c.Spells p w q ∧ Derives c.grammar c.version e w := by
  induction h with
  | @token t _ here => exact ⟨[t], .cons here (.nil _), .token t⟩
  | @ident t _ here name => exact ⟨[t], .cons here (.nil _), .ident name⟩
  | rule h => exact hrules _ _ _ h
  | seqNil p => exact ⟨[], .nil p, .seqNil⟩
  | seqCons _ _ ihHead ihTail =>
    obtain ⟨u, hu, hdu⟩ := ihHead
    obtain ⟨w, hw, hdw⟩ := ihTail
    exact ⟨u ++ w, hu.append hw, .seqCons hdu hdw⟩
  | choice chosen _ ih =>
    obtain ⟨w, hw, hd⟩ := ih
    exact ⟨w, hw, .choice chosen hd⟩
  | optNone e p => exact ⟨[], .nil p, .optNone e⟩
  | optSome _ ih =>
    obtain ⟨w, hw, hd⟩ := ih
    exact ⟨w, hw, .optSome hd⟩
  | starNil e p => exact ⟨[], .nil p, .starNil e⟩
  | starCons _ _ ihHead ihTail =>
    obtain ⟨u, hu, hdu⟩ := ihHead
    obtain ⟨w, hw, hdw⟩ := ihTail
    exact ⟨u ++ w, hu.append hw, .starCons hdu hdw⟩
  | plus _ _ ihHead ihTail =>
    obtain ⟨u, hu, hdu⟩ := ihHead
    obtain ⟨w, hw, hdw⟩ := ihTail
    exact ⟨u ++ w, hu.append hw, .plus hdu hdw⟩
  | since gate _ ih =>
    obtain ⟨w, hw, hd⟩ := ih
    exact ⟨w, hw, .since gate hd⟩
  | before gate _ ih =>
    obtain ⟨w, hw, hd⟩ := ih
    exact ⟨w, hw, .before gate hd⟩

/-- Partial derivations through the spot that an element comes to are partial derivations through
the element. -/
theorem Comes.reaches {spot : Spot} (h : Comes c rules e follow p spot q)
    (hrules : ∀ r p q, rules r p q →
      ∃ w, c.Spells p w q ∧ Derives c.grammar c.version (.rule r) w) :
    ∃ u, c.Spells p u q ∧ Reaches c.grammar c.version e follow u [] spot ∧
      ∀ {r : Rule} {w : List Terminal} {body : Element} {chain : List Rule} {spot' : Spot},
        spot = .rule r → c.grammar.body? r = some body →
        Reaches c.grammar c.version body [] w chain spot' →
        Reaches c.grammar c.version e follow (u ++ w) (r :: chain) spot' := by
  induction h with
  | token t follow p => exact ⟨[], .nil p, .token t follow, fun h => nomatch h⟩
  | ident follow p => exact ⟨[], .nil p, .ident follow, fun h => nomatch h⟩
  | call r follow p =>
    refine ⟨[], .nil p, .call r follow, fun hspot defined hreach => ?_⟩
    cases hspot
    exact .enter defined hreach
  | seqHead _ ih =>
    obtain ⟨u, hu, hspot, henter⟩ := ih
    exact ⟨u, hu, .seqHead hspot, fun h hd hreach => .seqHead (henter h hd hreach)⟩
  | seqTail head _ ih =>
    obtain ⟨u, hu, hspot, henter⟩ := ih
    obtain ⟨u', hu', hd'⟩ := head.derives hrules
    refine ⟨u' ++ u, hu'.append hu, .seqTail hd' hspot, fun h hd hreach => ?_⟩
    rw [List.append_assoc]
    exact .seqTail hd' (henter h hd hreach)
  | choice chosen _ ih =>
    obtain ⟨u, hu, hspot, henter⟩ := ih
    exact ⟨u, hu, .choice chosen hspot, fun h hd hreach => .choice chosen (henter h hd hreach)⟩
  | opt _ ih =>
    obtain ⟨u, hu, hspot, henter⟩ := ih
    exact ⟨u, hu, .opt hspot, fun h hd hreach => .opt (henter h hd hreach)⟩
  | star rounds _ ih =>
    obtain ⟨u, hu, hspot, henter⟩ := ih
    obtain ⟨u', hu', hd'⟩ := rounds.derives hrules
    refine ⟨u' ++ u, hu'.append hu, .star hd' hspot, fun h hd hreach => ?_⟩
    rw [List.append_assoc]
    exact .star hd' (henter h hd hreach)
  | plus rounds _ ih =>
    obtain ⟨u, hu, hspot, henter⟩ := ih
    obtain ⟨u', hu', hd'⟩ := rounds.derives hrules
    refine ⟨u' ++ u, hu'.append hu, .plus hd' hspot, fun h hd hreach => ?_⟩
    rw [List.append_assoc]
    exact .plus hd' (henter h hd hreach)
  | since gate _ ih =>
    obtain ⟨u, hu, hspot, henter⟩ := ih
    exact ⟨u, hu, .since gate hspot, fun h hd hreach => .since gate (henter h hd hreach)⟩
  | before gate _ ih =>
    obtain ⟨u, hu, hspot, henter⟩ := ih
    exact ⟨u, hu, .before gate hspot, fun h hd hreach => .before gate (henter h hd hreach)⟩

end

section

variable {c : Setting} {allowed : Option Rule → Rule → Nat → Nat → Prop} {n : Nat}
  {preferred : Option Rule} {r : Rule} {e : Element} {follow : List Element} {p q : Nat}
  {t : Terminal} {w : List Terminal}

theorem SpansWithin.derives (h : SpansWithin c allowed n preferred r p q) :
    ∃ w, c.Spells p w q ∧ Derives c.grammar c.version (.rule r) w := by
  induction n using Nat.strong_induction_on generalizing preferred r p q with
  | _ n ih =>
    obtain ⟨k, hk, -, body, defined, hpasses⟩ := h.body
    obtain ⟨w, hw, hd⟩ := hpasses.derives fun _ _ _ h => ih k hk h
    exact ⟨w, hw, .rule defined hd⟩

/-- What comes to a terminal within some number of open rules is a partial derivation that has it
next, outside of preferred rules, with no more rules open. -/
theorem ComesWithin.reaches (h : ComesWithin c allowed n r p t) :
    ∃ w chain follow, c.Spells p w c.caret ∧
      Reaches c.grammar c.version (.rule r) [] w chain (.token t follow) ∧
      (∀ s ∈ chain, s.isPreferred = false) ∧ chain.length ≤ n := by
  induction n using Nat.strong_induction_on generalizing r p with
  | _ n ih =>
    obtain ⟨k, hk, -, hr, body, defined, hbelow⟩ := h.body
    rcases hbelow with ⟨follow, hcomes⟩ | ⟨s, m, hcomes, hs⟩
    · obtain ⟨u, hu, hreach, -⟩ := hcomes.reaches fun _ _ _ h => h.derives
      refine ⟨u, [r], follow, hu, .enter defined hreach, by simpa using hr, ?_⟩
      rw [List.length_singleton]
      omega
    · obtain ⟨u, hu, -, henter⟩ := hcomes.reaches fun _ _ _ h => h.derives
      obtain ⟨w, chain, follow, hw, hreach, hfree, hlength⟩ := ih k hk hs
      cases hreach with
      | @enter _ body' _ _ chain _ defined' hreach =>
        refine ⟨u ++ w, r :: s :: chain, follow, hu.append hw,
          .enter defined (henter rfl defined' hreach), ?_, ?_⟩
        · intro x hx
          rcases List.mem_cons.1 hx with rfl | hx
          · exact hr
          · exact hfree x hx
        · rw [List.length_cons]
          omega

/-- Every derivation has some number of rules open at once. -/
theorem exists_passes_of_derives (hd : Derives c.grammar c.version e w) (hw : c.Spells p w q)
    (preferred : Option Rule) :
    ∃ n, Passes c (SpansWithin c (fun _ _ _ _ => True) n preferred) e p q := by
  induction hd generalizing preferred p q with
  | token t =>
    cases hw with
    | cons here rest =>
      cases rest
      exact ⟨0, .token here⟩
  | ident name =>
    cases hw with
    | cons here rest =>
      cases rest
      exact ⟨0, .ident here name⟩
  | rule defined _ ih =>
    obtain ⟨n, h⟩ := ih hw (preferredInside preferred _)
    exact ⟨n + 1, .rule (.inr ⟨trivial, _, defined, h⟩)⟩
  | seqNil =>
    cases hw
    exact ⟨0, .seqNil p⟩
  | seqCons _ _ ihHead ihTail =>
    obtain ⟨m, hu, hw⟩ := hw.of_append
    obtain ⟨k, hhead⟩ := ihHead hu preferred
    obtain ⟨l, htail⟩ := ihTail hw preferred
    exact ⟨max k l, .seqCons (hhead.mono fun _ _ _ h => h.mono (Nat.le_max_left k l))
      (htail.mono fun _ _ _ h => h.mono (Nat.le_max_right k l))⟩
  | choice chosen _ ih =>
    obtain ⟨n, h⟩ := ih hw preferred
    exact ⟨n, .choice chosen h⟩
  | optNone e =>
    cases hw
    exact ⟨0, .optNone e p⟩
  | optSome _ ih =>
    obtain ⟨n, h⟩ := ih hw preferred
    exact ⟨n, .optSome h⟩
  | starNil e =>
    cases hw
    exact ⟨0, .starNil e p⟩
  | starCons _ _ ihHead ihTail =>
    obtain ⟨m, hu, hw⟩ := hw.of_append
    obtain ⟨k, hhead⟩ := ihHead hu preferred
    obtain ⟨l, htail⟩ := ihTail hw preferred
    exact ⟨max k l, .starCons (hhead.mono fun _ _ _ h => h.mono (Nat.le_max_left k l))
      (htail.mono fun _ _ _ h => h.mono (Nat.le_max_right k l))⟩
  | plus _ _ ihHead ihTail =>
    obtain ⟨m, hu, hw⟩ := hw.of_append
    obtain ⟨k, hhead⟩ := ihHead hu preferred
    obtain ⟨l, htail⟩ := ihTail hw preferred
    exact ⟨max k l, .plus (hhead.mono fun _ _ _ h => h.mono (Nat.le_max_left k l))
      (htail.mono fun _ _ _ h => h.mono (Nat.le_max_right k l))⟩
  | since gate _ ih =>
    obtain ⟨n, h⟩ := ih hw preferred
    exact ⟨n, .since gate h⟩
  | before gate _ ih =>
    obtain ⟨n, h⟩ := ih hw preferred
    exact ⟨n, .before gate h⟩

/-- The element comes to the terminal, or to the call of a rule that comes to it, with no more than
`n` rules open in it. -/
def ComesBelow (c : Setting) (allowed : Option Rule → Rule → Nat → Nat → Prop) (n : Nat)
    (e : Element) (follow : List Element) (p : Nat) (t : Terminal) : Prop :=
  (∃ next, Comes c (SpansWithin c allowed n none) e follow p (.token t next) c.caret) ∨
    ∃ s m, Comes c (SpansWithin c allowed n none) e follow p (.rule s) m ∧
      ComesWithin c allowed n s m t

theorem ComesBelow.imp {e' : Element} {follow' : List Element} {p' m : Nat}
    (h : ComesBelow c allowed n e follow p t) (hle : n ≤ m)
    (himp : ∀ {spot : Spot} {q : Nat}, Comes c (SpansWithin c allowed m none) e follow p spot q →
      Comes c (SpansWithin c allowed m none) e' follow' p' spot q) :
    ComesBelow c allowed m e' follow' p' t := by
  rcases h with ⟨next, h⟩ | ⟨s, k, h, hs⟩
  · exact .inl ⟨next, himp (h.mono fun _ _ _ h => h.mono hle)⟩
  · exact .inr ⟨s, k, himp (h.mono fun _ _ _ h => h.mono hle), hs.mono hle⟩

/-- Some rounds or parts in front of what comes to the terminal, with some number of rules open. -/
theorem ComesBelow.behind {e' front : Element} {follow' : List Element} {m k : Nat}
    (h : ComesBelow c allowed n e follow m t)
    (hfront : Passes c (SpansWithin c allowed k none) front p m)
    (himp : ∀ {l : Nat} {spot : Spot} {q : Nat}, Passes c (SpansWithin c allowed l none) front p m →
      Comes c (SpansWithin c allowed l none) e follow m spot q →
      Comes c (SpansWithin c allowed l none) e' follow' p spot q) :
    ComesBelow c allowed (max k n) e' follow' p t :=
  h.imp (Nat.le_max_right k n)
    (himp (hfront.mono fun _ _ _ h => h.mono (Nat.le_max_left k n)))

/-- Every partial derivation has some number of rules open at once. -/
theorem exists_comesBelow_of_reaches {chain : List Rule} {spot : Spot} {next : List Element}
    (hr : Reaches c.grammar c.version e follow w chain spot) (hspot : spot = .token t next)
    (hw : c.Spells p w c.caret) (hfree : ∀ s ∈ chain, s.isPreferred = false) :
    ∃ n, ComesBelow c (fun _ _ _ _ => True) n e follow p t := by
  generalize hcaret : c.caret = caret at hw
  induction hr generalizing p with
  | token _ follow =>
    cases hspot
    cases hw
    subst hcaret
    exact ⟨0, .inl ⟨_, .token t _ _⟩⟩
  | ident | call => cases hspot
  | @enter r _ follow _ _ _ defined _ ih =>
    obtain ⟨n, h⟩ := ih hspot (fun s hs => hfree s (List.mem_cons_of_mem r hs)) hw
    have hr := hfree r List.mem_cons_self
    exact ⟨n + 1, .inr ⟨r, p, .call r follow p, .inr ⟨trivial, hr, _, defined, h⟩⟩⟩
  | seqHead _ ih =>
    obtain ⟨n, h⟩ := ih hspot hfree hw
    exact ⟨n, h.imp (Nat.le_refl n) .seqHead⟩
  | seqTail head _ ih =>
    obtain ⟨m, hu, hw⟩ := hw.of_append
    obtain ⟨n, h⟩ := ih hspot hfree hw
    obtain ⟨k, hfront⟩ := exists_passes_of_derives head hu none
    exact ⟨max k n, h.behind hfront .seqTail⟩
  | choice chosen _ ih =>
    obtain ⟨n, h⟩ := ih hspot hfree hw
    exact ⟨n, h.imp (Nat.le_refl n) (.choice chosen)⟩
  | opt _ ih =>
    obtain ⟨n, h⟩ := ih hspot hfree hw
    exact ⟨n, h.imp (Nat.le_refl n) .opt⟩
  | star rounds _ ih =>
    obtain ⟨m, hu, hw⟩ := hw.of_append
    obtain ⟨n, h⟩ := ih hspot hfree hw
    obtain ⟨k, hfront⟩ := exists_passes_of_derives rounds hu none
    exact ⟨max k n, h.behind hfront .star⟩
  | plus rounds _ ih =>
    obtain ⟨m, hu, hw⟩ := hw.of_append
    obtain ⟨n, h⟩ := ih hspot hfree hw
    obtain ⟨k, hfront⟩ := exists_passes_of_derives rounds hu none
    exact ⟨max k n, h.behind hfront .plus⟩
  | since gate _ ih =>
    obtain ⟨n, h⟩ := ih hspot hfree hw
    exact ⟨n, h.imp (Nat.le_refl n) (.since gate)⟩
  | before gate _ ih =>
    obtain ⟨n, h⟩ := ih hspot hfree hw
    exact ⟨n, h.imp (Nat.le_refl n) (.before gate)⟩

/-- Where all rules are allowed, what comes to a terminal within some number of open rules is what
partial derivations have next outside of preferred rules. -/
theorem comesWithin_iff :
    (∃ n, ComesWithin c (fun _ _ _ _ => True) n r p t) ↔
      ∃ w chain follow, c.Spells p w c.caret ∧
        Reaches c.grammar c.version (.rule r) [] w chain (.token t follow) ∧
        ∀ s ∈ chain, s.isPreferred = false := by
  constructor
  · rintro ⟨n, h⟩
    obtain ⟨w, chain, follow, hw, hreach, hfree, -⟩ := h.reaches
    exact ⟨w, chain, follow, hw, hreach, hfree⟩
  · rintro ⟨w, chain, follow, hw, hreach, hfree⟩
    obtain ⟨n, ⟨next, h⟩ | ⟨s, m, h, hs⟩⟩ := exists_comesBelow_of_reaches hreach rfl hw hfree
    · cases h
    · cases h
      exact ⟨n, hs⟩

end

/-! ## Rules that are spared -/

/-- In whatever chain of rules the rule may be called at the position, inside the same outermost
preferred rule, it is not held, and either there is room for `n` rules or there is none at all. -/
structure Setting.Spares (c : Setting) (preferred : Option Rule) (r : Rule) (p n : Nat) : Prop where
  free : ¬c.Held preferred.isSome r p
  room : ∀ around u, c.Spells 0 u p → c.grammar.Expects c.version u around (.rule r) →
    around.find? Rule.isPreferred = preferred → around.length < maxDepth →
    around.length + n ≤ maxDepth

/-- Where all rules settle within `N` levels, no more than `N` rules are opened before the first
terminal and between two of them. -/
theorem length_chain_le {g : Grammar} {v : Version} {marked : Rule → Bool} {N : Nat}
    (hmarked : g.TakesMarked marked) (hsettles : ∀ r, g.settlesWithin marked N r = true)
    {e : Element} {follow : List Element} {w : List Terminal} {chain : List Rule} {spot : Spot}
    (h : Reaches g v e follow w chain spot) {n : Nat}
    (hheads : ∀ r ∈ e.heads marked, g.settlesWithin marked n r = true) :
    (chain ++ spot.opens).length ≤ n + N * w.length := by
  induction h generalizing n with
  | token | ident => simp [Spot.opens]
  | call r =>
    cases n with
    | zero => cases hheads r (by simp [Element.heads])
    | succ n => simp [Spot.opens]
  | @enter r body _ w chain spot defined _ ih =>
    cases n with
    | zero => cases hheads r (by simp [Element.heads])
    | succ n =>
      have hr := hheads r (by simp [Element.heads])
      have hbody := ih fun s hs => Grammar.settlesWithin_of_corner hr ⟨body, defined, hs⟩
      simp only [List.cons_append, List.length_cons]
      omega
  | @seqHead e rest _ _ _ _ _ ih =>
    refine ih fun r hr => hheads r ?_
    rw [Element.heads, Element.seqHeads]
    exact List.mem_append_left _ hr
  | @seqTail e rest _ u w _ _ head _ ih =>
    have hparts : N * (u ++ w).length = N * u.length + N * w.length := by
      rw [List.length_append, Nat.mul_add]
    cases u with
    | nil =>
      have hempty : e.takes marked = false :=
        Bool.eq_false_iff.2 fun htakes => head.ne_nil hmarked htakes rfl
      exact ih fun r hr => hheads r (Element.mem_seqHeads_of_rest hempty hr)
    | cons t u =>
      -- Behind a terminal the count begins anew.
      have hrest := ih fun r _ => hsettles r
      have hone : N ≤ N * (t :: u).length := Nat.le_mul_of_pos_right N (Nat.succ_pos _)
      omega
  | choice chosen _ ih =>
    refine ih fun r hr => hheads r ?_
    rw [Element.heads]
    exact Element.mem_choiceHeads chosen hr
  | @star _ _ u w _ _ _ _ ih | @plus _ _ u w _ _ _ _ ih =>
    have hinner := ih fun r hr => hheads r (by rwa [Element.heads])
    have hparts : N * (u ++ w).length = N * u.length + N * w.length := by
      rw [List.length_append, Nat.mul_add]
    omega
  | opt _ ih | since _ _ ih | before _ _ ih =>
    exact ih fun r hr => hheads r (by rwa [Element.heads])

theorem Setting.Spells.length {c : Setting} {p q : Nat} {w : List Terminal} (h : c.Spells p w q) :
    p + w.length = q := by
  induction h with
  | nil => rfl
  | cons _ _ ih =>
    rw [List.length_cons]
    omega

/-- Not far behind the start of the input all rules are spared that are not held. -/
theorem Setting.spares_of_settles {c : Setting} {marked : Rule → Bool} {N : Nat}
    (hmarked : c.grammar.TakesMarked marked)
    (hsettles : ∀ r, c.grammar.settlesWithin marked N r = true) {preferred : Option Rule} {r : Rule}
    {p n : Nat} (free : ¬c.Held preferred.isSome r p) (hroom : N + N * p + n ≤ maxDepth + 1) :
    c.Spares preferred r p n where
  free := free
  room := by
    intro around u hu hexpects _ _
    have hlength := length_chain_le hmarked hsettles hexpects fun s _ => hsettles s
    have hp := hu.length
    rw [Nat.zero_add] at hp
    simp only [hp, Spot.opens, List.length_append, List.length_singleton] at hlength
    omega

/-- The task to find the terminals that partial derivations with spared rules have next. -/
def sparedTask (c : Setting) : Task c where
  Note := Terminal
  fine := fun _ => True
  noted := fun k t => ∃ following, k.Notes (.token t following)
  must := fun path r p q =>
    ∃ n, path.length + n ≤ maxDepth ∧ SpansWithin c c.Spares n (preferredIn path) r p q
  due := fun path r p t => preferredIn path = none ∧ t.isIgnored = false ∧
    ∃ n, path.length + n ≤ maxDepth ∧ ComesWithin c c.Spares n r p t

section

variable {c : Setting} {path path' : Path} {r : Rule} {p q : Nat} {t : Terminal}

theorem length_chain (path : Path) : (chain path).length = path.length := by
  rw [chain, List.length_reverse, List.length_map]

/-- A rule that is spared has room inside every path on which it may be called. -/
theorem Setting.Spares.length_add_le {n : Nat} (h : c.Spares (preferredIn path) r p n)
    (hcalled : Called c path r p) (hroom : path.length < maxDepth) :
    path.length + n ≤ maxDepth := by
  obtain ⟨u, hu, hexpects⟩ := hcalled.expects
  have hle := h.room (chain path) u hu hexpects rfl (by rwa [length_chain])
  rwa [length_chain] at hle

theorem sparedTask_recalled_must (hcalled : Called c path r p)
    (hsame : preferredIn path = preferredIn path') (hroom : path.length < maxDepth)
    (h : (sparedTask c).must path' r p q) : (sparedTask c).must path r p q := by
  obtain ⟨n, -, hspans⟩ := h
  rw [← hsame] at hspans
  obtain ⟨k, -, hspares, hbody⟩ := hspans.body
  exact ⟨k + 1, hspares.length_add_le hcalled hroom, .inr ⟨hspares, hbody⟩⟩

theorem sparedTask_recalled_due (hcalled : Called c path r p)
    (hsame : preferredIn path = preferredIn path') (hroom : path.length < maxDepth)
    (h : (sparedTask c).due path' r p t) : (sparedTask c).due path r p t := by
  obtain ⟨hnone, hkept, n, -, hcomes⟩ := h
  have hnone' := hsame.trans hnone
  obtain ⟨k, -, hspares, hbody⟩ := hcomes.body
  refine ⟨hnone', hkept, k + 1, ?_, .inr ⟨hspares, hbody⟩⟩
  exact Setting.Spares.length_add_le (hnone'.symm ▸ hspares) hcalled hroom

/-- What the parts of a body span, its rule inside must end at. -/
theorem sparedTask_must_of_spans {k : Nat} (hk : path.length + (k + 1) ≤ maxDepth) {s : Rule}
    {m m' : Nat} (h : SpansWithin c c.Spares k (preferredInside (preferredIn path) r) s m m') :
    (sparedTask c).must (⟨r, p⟩ :: path) s m m' := by
  refine ⟨k, ?_, by rwa [preferredIn_cons]⟩
  rw [List.length_cons]
  omega

theorem sparedTask_body (h : (sparedTask c).must path r p q) :
    ∃ body, c.grammar.body? r = some body ∧
      Passes c ((sparedTask c).must (⟨r, p⟩ :: path)) body p q := by
  obtain ⟨n, hn, hspans⟩ := h
  obtain ⟨k, hk, -, body, defined, hpasses⟩ := hspans.body
  exact ⟨body, defined, hpasses.mono fun _ _ _ h => sparedTask_must_of_spans (by omega) h⟩

theorem sparedTask_passed (h : (sparedTask c).due path r p t) :
    ∃ body, c.grammar.body? r = some body ∧ (sparedTask c).Passed (⟨r, p⟩ :: path) body p t := by
  obtain ⟨hnone, hkept, n, hn, hcomes⟩ := h
  obtain ⟨k, hk, -, hr, body, defined, hbelow⟩ := hcomes.body
  have hinside : preferredInside (preferredIn path) r = none := by
    simp [preferredInside, hnone, hr]
  have hnone' : preferredIn (⟨r, p⟩ :: path) = none := by rwa [preferredIn_cons]
  have hmust : ∀ s m m', SpansWithin c c.Spares k none s m m' →
      (sparedTask c).must (⟨r, p⟩ :: path) s m m' := by
    intro s m m' hspans
    rw [← hinside] at hspans
    exact sparedTask_must_of_spans (by omega) hspans
  refine ⟨body, defined, ?_⟩
  rcases hbelow with ⟨follow, htoken⟩ | ⟨s, m, hcall, hs⟩
  · refine .inl ⟨.token t follow, rfl, htoken.mono hmust, fun candidates => ?_⟩
    refine ⟨followingTerminals follow, Candidates.notes_offer candidates ?_⟩
    have hfind : (chain (⟨r, p⟩ :: path)).find? Rule.isPreferred = none := hnone'
    simp only [demand?, Spot.opens, List.append_nil, Option.none_or, hfind, hkept,
      Bool.false_eq_true, if_false]
  · refine .inr ⟨s, m, hcall.mono hmust, hnone', hkept, k, ?_, hs⟩
    rw [List.length_cons]
    omega

theorem sparedTask_sound (c : Setting) : (sparedTask c).Sound where
  lasts := by
    rintro k t rules spot ⟨following, h⟩
    exact ⟨following, h.offer rules spot⟩
  fine_of_depth := fun h => h
  fine_of_undefinedRule := fun h => h
  free := by
    rintro path r p q ⟨n, -, hspans⟩
    obtain ⟨k, -, hspares, -⟩ := hspans.body
    exact hspares.free
  held := by
    rintro path r p t - hheld ⟨hnone, -, n, -, hcomes⟩
    obtain ⟨k, -, hspares, -⟩ := hcomes.body
    rw [hnone] at hheld
    exact absurd hheld hspares.free
  deep := by
    intro cuts path r p hlength _ _
    constructor
    · rintro q ⟨n, hn, hspans⟩
      obtain ⟨k, hk, -⟩ := hspans.body
      omega
    · rintro t ⟨-, -, n, hn, hcomes⟩
      obtain ⟨k, hk, -⟩ := hcomes.body
      omega
  recalled := fun hcalled _ hsame _ hroom =>
    ⟨fun _ h => sparedTask_recalled_must hcalled hsame hroom h,
      fun _ h => sparedTask_recalled_due hcalled hsame hroom h⟩
  body := fun _ h => sparedTask_body h
  passed := fun _ _ h => sparedTask_passed h

end

end SqlCompletion.Walk

namespace SqlCompletion

section

variable {g : Grammar} {v : Version} {s : TokenStream} {caretIndex : Nat}

/-- Where no rule is left recursive, a terminal is collected that a partial derivation has next
outside of preferred rules, with no more than `maxDepth` rules open at once, all of which are
spared. -/
theorem collect_within (hrec : ∀ r, ¬g.LeftRecursive v r) {t : Terminal}
    (hkept : t.isIgnored = false)
    (h : Walk.ComesWithin (caretSetting g v s caretIndex) (caretSetting g v s caretIndex).Spares
      Walk.maxDepth g.entry 0 t) :
    t ∈ (collect g v s caretIndex).terminals := by
  have hdue : (Walk.sparedTask (caretSetting g v s caretIndex)).due [] g.entry 0 t :=
    ⟨rfl, hkept, Walk.maxDepth, Nat.le_of_eq (Nat.zero_add _), h⟩
  obtain ⟨following, known, hknown, -⟩ :=
    Walk.Task.run_fulfils hrec (Walk.sparedTask_sound _) trivial hdue
  exact List.mem_map.2 ⟨(t, known), mem_of_lookup hknown, rfl⟩

end

/-! ## A terminal that is missed -/

/-- Dates behind opening parentheses: deep inside expressions, or without any. -/
def nestedDates : Grammar :=
  .ofDefinitions .query [
    (.query, .choice [.rule .expr, .seq [.star (.sym .openPar), .rule .literal]]),
    (.expr, .rule .boolTerm),
    (.boolTerm, .rule .boolPri),
    (.boolPri, .rule .predicate),
    (.predicate, .rule .bitExpr),
    (.bitExpr, .rule .simpleExpr),
    (.simpleExpr, .choice [.seq [.sym .openPar, .rule .expr], .rule .literal]),
    (.literal, .rule .temporalLiteral),
    (.temporalLiteral, .kw .DATE)]

theorem nestedDates_takesMarked : nestedDates.TakesMarked fun _ => true := by
  have htakes : ∀ r, ((nestedDates.body? r).all fun body => body.takes fun _ => true) = true :=
    Rule.forall_of_ofNat (by decide +kernel)
  intro r body _ hbody
  simpa [hbody] using htakes r

theorem nestedDates_settlesWithin :
    ∀ r, nestedDates.settlesWithin (fun _ => true) 9 r = true :=
  Rule.forall_of_ofNat (by decide +kernel)

theorem nestedDates_not_leftRecursive (r : Rule) : ¬nestedDates.LeftRecursive .standard r :=
  Grammar.not_leftRecursive_of_settles nestedDates_takesMarked (nestedDates_settlesWithin r)

/-- So many opening parentheses. -/
def openParens (n : Nat) : String := String.ofList (List.replicate n '(')

theorem passes_star_of_replicate {c : Walk.Setting} {rules : Rule → Nat → Nat → Prop} {t : Terminal}
    {n : Nat} (hinput : c.input = (List.replicate n t).toArray) (k : Nat) {p : Nat}
    (hp : p + k = n) : Walk.Passes c rules (.star (.token t)) p n := by
  induction k generalizing p with
  | zero =>
    obtain rfl : p = n := hp
    exact .starNil _ p
  | succ k ih =>
    refine .starCons (.token ?_) (ih (by omega))
    rw [hinput, List.getElem?_toArray, List.getElem?_replicate, if_pos (by omega)]

/-- Behind any number of opening parentheses a date can be next with three rules open. -/
theorem nestedDates_comesWithin {c : Walk.Setting} (hgrammar : c.grammar = nestedDates) {n : Nat}
    (hinput : c.input = (List.replicate n (.symbol .openPar)).toArray)
    {allowed : Option Rule → Rule → Nat → Nat → Prop}
    (hallowed : ∀ r p k, r.isPreferred = false → p ≤ n → k ≤ 3 → allowed none r p k) :
    Walk.ComesWithin c allowed 3 .query 0 (.keyword .DATE) := by
  have hcaret : c.caret = n := by
    rw [Walk.Setting.caret, hinput, List.size_toArray, List.length_replicate]
  have hbody : ∀ r, c.grammar.body? r = nestedDates.body? r := by simp [hgrammar]
  have htoken : Walk.Comes c (Walk.SpansWithin c allowed 0 none) (.kw .DATE) [] n
      (.token (.keyword .DATE) []) c.caret := by
    rw [hcaret]
    exact .token _ [] n
  have htemporal : Walk.ComesWithin c allowed 1 .temporalLiteral n (.keyword .DATE) :=
    .inr ⟨hallowed _ n 1 rfl (Nat.le_refl n) (by decide), rfl, _, hbody .temporalLiteral,
      .inl ⟨[], htoken⟩⟩
  have hliteral : Walk.ComesWithin c allowed 2 .literal n (.keyword .DATE) :=
    .inr ⟨hallowed _ n 2 rfl (Nat.le_refl n) (by decide), rfl, _, hbody .literal,
      .inr ⟨.temporalLiteral, n, .call _ [] n, htemporal⟩⟩
  exact .inr ⟨hallowed _ 0 3 rfl (Nat.zero_le n) (by decide), rfl, _, hbody .query,
    .inr ⟨.literal, n, .choice (.tail _ (.head _)) (.seqTail
      (passes_star_of_replicate hinput n (Nat.zero_add n)) (.seqHead (.call _ [] n))), hliteral⟩⟩

/-- Behind 32 opening parentheses the date is missed, though it can be next with three rules open:
with 199 rules open, the walk has found nothing in a literal there. -/
theorem nestedDates_misses_date :
    (∀ r, ¬nestedDates.LeftRecursive .standard r) ∧
      Walk.ComesWithin (caretSetting nestedDates .standard (.ofText {} (openParens 32)) 32)
        (fun _ _ _ _ => True) 3 .query 0 (.keyword .DATE) ∧
      (Terminal.keyword .DATE).isIgnored = false ∧
      .keyword .DATE ∉
        (collect nestedDates .standard (.ofText {} (openParens 32)) 32).terminals := by
  have hinput : (TokenStream.ofText {} (openParens 32)).kindsBefore 32 =
      List.replicate 32 (.symbol .openPar) := by decide +kernel
  refine ⟨nestedDates_not_leftRecursive, ?_, rfl, by decide +kernel⟩
  exact nestedDates_comesWithin rfl (congrArg List.toArray hinput) fun _ _ _ _ _ _ => trivial

/-- Behind three opening parentheses the date is found. -/
theorem collect_within_nestedDates :
    (Terminal.keyword .DATE).isIgnored = false ∧
      .keyword .DATE ∈ (collect nestedDates .standard (.ofText {} (openParens 3)) 3).terminals := by
  have hinput : (TokenStream.ofText {} (openParens 3)).kindsBefore 3 =
      List.replicate 3 (.symbol .openPar) := by decide +kernel
  refine ⟨rfl, collect_within nestedDates_not_leftRecursive rfl ?_⟩
  refine (nestedDates_comesWithin rfl (congrArg List.toArray hinput) ?_).mono (by decide)
  intro r p k hr hp hk
  refine Walk.Setting.spares_of_settles nestedDates_takesMarked nestedDates_settlesWithin ?_ ?_
  · simp [Walk.Setting.Held, hr]
  · simp only [Walk.maxDepth]
    omega

end SqlCompletion
