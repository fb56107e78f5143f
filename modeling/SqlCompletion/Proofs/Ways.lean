import Mathlib.Data.List.Basic
import SqlCompletion.Candidate.Walk
import SqlCompletion.Proofs.Derivation
set_option autoImplicit false

/-!
# Ways up to the caret

The derivations of a grammar, told by the positions of an input. A way crosses an element from one
position to another (`Crosses`), or arrives at the caret inside it (`Arrives`). Walks go along ways:
what they do is told by positions too, and they do not see what follows a rule that they do not go
past.

A rule is held at the caret when it is preferred or stands inside a preferred rule: it is reported
as a whole there, and no way goes into it or past it. That is all that sets ways apart from
derivations. Two results tell how far apart they are.

* Every way is a derivation of what the input has between its two positions (`Crosses.derives`,
  `Arrives.reaches`).
* Every derivation is a way unless a rule that is held derives nothing at all, and then the ways
  that go on behind that rule are missing (`crosses_of_derives`, `meets_of_reaches`).

`Setting.Spells` is what an input has between two positions, up to the caret and no further.
`Unskipped` is the condition of the second result, for the elements of a partial derivation; it is
handed down to the parts of an element (`Unskipped.part`). Where it fails, a way still comes to the
rule that is held, and `Meets` says so.

Walks are not spoken of here, nor is the memory: ways are a matter of the grammar, the version and
the input.
-/

namespace SqlCompletion.Walk

open Grammar (Derives Reaches)

/-! ## Positions -/

/-- The terminals of the input from one position up to another. -/
inductive Setting.Spells (c : Setting) : Nat → List Terminal → Nat → Prop
  | nil (p : Nat) : Spells c p [] p
  | cons {p q : Nat} {t : Terminal} {w : List Terminal} (here : c.input[p]? = some t)
      (rest : Spells c (p + 1) w q) : Spells c p (t :: w) q

namespace Setting.Spells

variable {c : Setting} {p q r : Nat} {u w : List Terminal}

theorem le (h : c.Spells p w q) : p ≤ q := by
  induction h with
  | nil => exact Nat.le_refl _
  | cons _ _ ih => omega

theorem le_caret (h : c.Spells p w q) (hp : p ≤ c.caret) : q ≤ c.caret := by
  induction h with
  | nil => exact hp
  | cons here _ ih =>
    obtain ⟨hlt, -⟩ := Array.getElem?_eq_some_iff.1 here
    exact ih hlt

theorem append (h : c.Spells p u q) (hw : c.Spells q w r) : c.Spells p (u ++ w) r := by
  induction h with
  | nil => exact hw
  | cons here _ ih => exact .cons here (ih hw)

theorem of_append (h : c.Spells p (u ++ w) r) : ∃ q, c.Spells p u q ∧ c.Spells q w r := by
  induction u generalizing p with
  | nil => exact ⟨p, .nil p, h⟩
  | cons t u ih =>
    cases h with
    | cons here rest =>
      obtain ⟨q, hu, hw⟩ := ih rest
      exact ⟨q, .cons here hu, hw⟩

/-- Nothing lies between a position and itself. -/
theorem eq_nil (h : c.Spells p w p) : w = [] := by
  cases h with
  | nil => rfl
  | cons _ rest =>
    have := rest.le
    omega

/-- Behind the caret there is nothing. -/
theorem at_caret (h : c.Spells c.caret w q) : w = [] ∧ q = c.caret := by
  cases h with
  | nil => exact ⟨rfl, rfl⟩
  | cons here _ =>
    obtain ⟨hlt, -⟩ := Array.getElem?_eq_some_iff.1 here
    exact absurd hlt (Nat.lt_irrefl _)

/-- The terminals between two positions are determined by them. -/
theorem unique (h : c.Spells p u q) (h' : c.Spells p w q) : u = w := by
  induction h generalizing w with
  | nil => exact h'.eq_nil.symm
  | cons here rest ih =>
    cases h' with
    | nil =>
      have := rest.le
      omega
    | cons here' rest' =>
      obtain rfl := Option.some.inj (here.symm.trans here')
      rw [ih rest']

end Setting.Spells

theorem Setting.length_input (c : Setting) : c.input.toList.length = c.caret :=
  Array.length_toList

theorem Setting.spells_drop (c : Setting) (n : Nat) {p : Nat} (hp : p + n = c.caret) :
    c.Spells p (c.input.toList.drop p) c.caret := by
  induction n generalizing p with
  | zero =>
    obtain rfl : p = c.caret := by omega
    rw [List.drop_of_length_le (Nat.le_of_eq c.length_input)]
    exact .nil _
  | succ n ih =>
    have hlt : p < c.input.toList.length := by
      rw [c.length_input]
      omega
    rw [List.drop_eq_getElem_cons hlt]
    refine .cons ?_ (ih (by omega))
    rw [← Array.getElem?_toList, List.getElem?_eq_getElem hlt]

/-- The terminals from the start up to the caret are the input. -/
theorem Setting.spells_iff {c : Setting} {w : List Terminal} :
    c.Spells 0 w c.caret ↔ w = c.input.toList := by
  have hall : c.Spells 0 c.input.toList c.caret := c.spells_drop c.caret (Nat.zero_add _)
  constructor
  · intro h
    exact h.unique hall
  · rintro rfl
    exact hall

/-! ## Ways -/

/-- The rule is reported as a whole: it is at the caret, and it is preferred or a preferred rule
is open around it. -/
def Setting.Held (c : Setting) (inside : Bool) (r : Rule) (p : Nat) : Prop :=
  p = c.caret ∧ (r.isPreferred = true ∨ inside = true)

section

variable (c : Setting)

/-- Ways that cross an element, from one position to another. `inside` says whether a preferred
rule is open around the element. -/
inductive Crosses : Bool → Element → Nat → Nat → Prop
  | token {inside : Bool} {t : Terminal} {p : Nat} (here : c.input[p]? = some t) :
      Crosses inside (.token t) p (p + 1)
  | ident {inside : Bool} {t : Terminal} {p : Nat} (here : c.input[p]? = some t)
      (name : t.isNameLike = true) : Crosses inside .ident p (p + 1)
  | rule {inside : Bool} {r : Rule} {body : Element} {p q : Nat} (free : ¬c.Held inside r p)
      (defined : c.grammar.body? r = some body)
      (inner : Crosses (inside || r.isPreferred) body p q) : Crosses inside (.rule r) p q
  | seqNil (inside : Bool) (p : Nat) : Crosses inside (.seq []) p p
  | seqCons {inside : Bool} {e : Element} {rest : List Element} {p m q : Nat}
      (head : Crosses inside e p m) (tail : Crosses inside (.seq rest) m q) :
      Crosses inside (.seq (e :: rest)) p q
  | choice {inside : Bool} {e : Element} {alternatives : List Element} {p q : Nat}
      (chosen : e ∈ alternatives) (inner : Crosses inside e p q) :
      Crosses inside (.choice alternatives) p q
  | optNone (inside : Bool) (e : Element) (p : Nat) : Crosses inside (.opt e) p p
  | optSome {inside : Bool} {e : Element} {p q : Nat} (inner : Crosses inside e p q) :
      Crosses inside (.opt e) p q
  | starNil (inside : Bool) (e : Element) (p : Nat) : Crosses inside (.star e) p p
  | starCons {inside : Bool} {e : Element} {p m q : Nat} (head : Crosses inside e p m)
      (tail : Crosses inside (.star e) m q) : Crosses inside (.star e) p q
  | plus {inside : Bool} {e : Element} {p m q : Nat} (head : Crosses inside e p m)
      (tail : Crosses inside (.star e) m q) : Crosses inside (.plus e) p q
  | since {inside : Bool} {u : Version} {e : Element} {p q : Nat} (gate : u ≤ c.version)
      (inner : Crosses inside e p q) : Crosses inside (.since u e) p q
  | before {inside : Bool} {u : Version} {e : Element} {p q : Nat} (gate : c.version < u)
      (inner : Crosses inside e p q) : Crosses inside (.before u e) p q

/-- Ways that arrive at the caret inside an element: `Arrives inside e follow p chain spot` starts
the element at `p`, opens the rules in `chain` and has `spot` next at the caret. -/
inductive Arrives : Bool → Element → List Element → Nat → List Rule → Spot → Prop
  | token (inside : Bool) (t : Terminal) (follow : List Element) :
      Arrives inside (.token t) follow c.caret [] (.token t follow)
  | ident (inside : Bool) (follow : List Element) :
      Arrives inside .ident follow c.caret [] .ident
  | call (inside : Bool) (r : Rule) (follow : List Element) :
      Arrives inside (.rule r) follow c.caret [] (.rule r)
  | enter {inside : Bool} {r : Rule} {body : Element} {follow : List Element} {p : Nat}
      {chain : List Rule} {spot : Spot} (free : ¬c.Held inside r p)
      (defined : c.grammar.body? r = some body)
      (inner : Arrives (inside || r.isPreferred) body [] p chain spot) :
      Arrives inside (.rule r) follow p (r :: chain) spot
  | seqHead {inside : Bool} {e : Element} {rest follow : List Element} {p : Nat}
      {chain : List Rule} {spot : Spot} (inner : Arrives inside e rest p chain spot) :
      Arrives inside (.seq (e :: rest)) follow p chain spot
  | seqTail {inside : Bool} {e : Element} {rest follow : List Element} {p m : Nat}
      {chain : List Rule} {spot : Spot} (head : Crosses c inside e p m)
      (inner : Arrives inside (.seq rest) follow m chain spot) :
      Arrives inside (.seq (e :: rest)) follow p chain spot
  | choice {inside : Bool} {e : Element} {alternatives follow : List Element} {p : Nat}
      {chain : List Rule} {spot : Spot} (chosen : e ∈ alternatives)
      (inner : Arrives inside e (Element.choiceFollow alternatives follow) p chain spot) :
      Arrives inside (.choice alternatives) follow p chain spot
  | opt {inside : Bool} {e : Element} {follow : List Element} {p : Nat} {chain : List Rule}
      {spot : Spot} (inner : Arrives inside e [] p chain spot) :
      Arrives inside (.opt e) follow p chain spot
  | star {inside : Bool} {e : Element} {follow : List Element} {p m : Nat} {chain : List Rule}
      {spot : Spot} (rounds : Crosses c inside (.star e) p m)
      (inner : Arrives inside e [] m chain spot) : Arrives inside (.star e) follow p chain spot
  | plus {inside : Bool} {e : Element} {follow : List Element} {p m : Nat} {chain : List Rule}
      {spot : Spot} (rounds : Crosses c inside (.star e) p m)
      (inner : Arrives inside e [] m chain spot) : Arrives inside (.plus e) follow p chain spot
  | since {inside : Bool} {u : Version} {e : Element} {follow : List Element} {p : Nat}
      {chain : List Rule} {spot : Spot} (gate : u ≤ c.version)
      (inner : Arrives inside e follow p chain spot) :
      Arrives inside (.since u e) follow p chain spot
  | before {inside : Bool} {u : Version} {e : Element} {follow : List Element} {p : Nat}
      {chain : List Rule} {spot : Spot} (gate : c.version < u)
      (inner : Arrives inside e follow p chain spot) :
      Arrives inside (.before u e) follow p chain spot

/-- Ways from the start of the entry rule: such a way opens the rules in `chain` and has `spot`
next at the caret. -/
def Setting.Ways (chain : List Rule) (spot : Spot) : Prop :=
  Arrives c false (.rule c.grammar.entry) [] 0 chain spot

end

variable {c : Setting} {inside : Bool} {e : Element} {follow : List Element} {p q : Nat}
  {chain : List Rule} {spot : Spot} {w : List Terminal}

/-! ## Every way is a derivation -/

theorem Crosses.derives (h : Crosses c inside e p q) :
    ∃ w, c.Spells p w q ∧ Derives c.grammar c.version e w := by
  induction h with
  | @token _ t _ here => exact ⟨[t], .cons here (.nil _), .token t⟩
  | @ident _ t _ here name => exact ⟨[t], .cons here (.nil _), .ident name⟩
  | rule _ defined _ ih =>
    obtain ⟨w, hw, hd⟩ := ih
    exact ⟨w, hw, .rule defined hd⟩
  | seqNil _ p => exact ⟨[], .nil p, .seqNil⟩
  | seqCons _ _ ihHead ihTail =>
    obtain ⟨u, hu, hdu⟩ := ihHead
    obtain ⟨w, hw, hdw⟩ := ihTail
    exact ⟨u ++ w, hu.append hw, .seqCons hdu hdw⟩
  | choice chosen _ ih =>
    obtain ⟨w, hw, hd⟩ := ih
    exact ⟨w, hw, .choice chosen hd⟩
  | optNone _ e p => exact ⟨[], .nil p, .optNone e⟩
  | optSome _ ih =>
    obtain ⟨w, hw, hd⟩ := ih
    exact ⟨w, hw, .optSome hd⟩
  | starNil _ e p => exact ⟨[], .nil p, .starNil e⟩
  | starCons _ _ ihHead ihTail =>
    obtain ⟨u, hu, hdu⟩ := ihHead
    obtain ⟨w, hw, hdw⟩ := ihTail
    exact ⟨u ++ w, hu.append hw, .starCons hdu hdw⟩
  | plus _ _ ihHead ihTail =>
    obtain ⟨u, hu, hdu⟩ := ihHead
    obtain ⟨w, hw, hdw⟩ := ihTail
    exact ⟨u ++ w, hu.append hw, .plus hdu hdw⟩
  | since gate _ ih =>
    obtain ⟨w, hw, hd⟩ := ih
    exact ⟨w, hw, .since gate hd⟩
  | before gate _ ih =>
    obtain ⟨w, hw, hd⟩ := ih
    exact ⟨w, hw, .before gate hd⟩

theorem Crosses.le_caret (h : Crosses c inside e p q) (hp : p ≤ c.caret) : q ≤ c.caret := by
  obtain ⟨w, hw, -⟩ := h.derives
  exact hw.le_caret hp

theorem Arrives.reaches (h : Arrives c inside e follow p chain spot) :
    ∃ w, c.Spells p w c.caret ∧ Reaches c.grammar c.version e follow w chain spot := by
  induction h with
  | token _ t follow => exact ⟨[], .nil _, .token t follow⟩
  | ident _ follow => exact ⟨[], .nil _, .ident follow⟩
  | call _ r follow => exact ⟨[], .nil _, .call r follow⟩
  | enter _ defined _ ih =>
    obtain ⟨w, hw, hr⟩ := ih
    exact ⟨w, hw, .enter defined hr⟩
  | seqHead _ ih =>
    obtain ⟨w, hw, hr⟩ := ih
    exact ⟨w, hw, .seqHead hr⟩
  | seqTail head _ ih =>
    obtain ⟨u, hu, hd⟩ := head.derives
    obtain ⟨w, hw, hr⟩ := ih
    exact ⟨u ++ w, hu.append hw, .seqTail hd hr⟩
  | choice chosen _ ih =>
    obtain ⟨w, hw, hr⟩ := ih
    exact ⟨w, hw, .choice chosen hr⟩
  | opt _ ih =>
    obtain ⟨w, hw, hr⟩ := ih
    exact ⟨w, hw, .opt hr⟩
  | star rounds _ ih =>
    obtain ⟨u, hu, hd⟩ := rounds.derives
    obtain ⟨w, hw, hr⟩ := ih
    exact ⟨u ++ w, hu.append hw, .star hd hr⟩
  | plus rounds _ ih =>
    obtain ⟨u, hu, hd⟩ := rounds.derives
    obtain ⟨w, hw, hr⟩ := ih
    exact ⟨u ++ w, hu.append hw, .plus hd hr⟩
  | since gate _ ih =>
    obtain ⟨w, hw, hr⟩ := ih
    exact ⟨w, hw, .since gate hr⟩
  | before gate _ ih =>
    obtain ⟨w, hw, hr⟩ := ih
    exact ⟨w, hw, .before gate hr⟩

/-! ## Every derivation is a way unless a held rule derives nothing -/

/-- No rule that is held where the element arrives at the caret derives the empty sequence. -/
def Unskipped (c : Setting) (inside : Bool) (e : Element) (follow : List Element) (p : Nat) :
    Prop :=
  ∀ (w : List Terminal) (chain : List Rule) (r : Rule), c.Spells p w c.caret →
    Reaches c.grammar c.version e follow w chain (.rule r) →
    (inside || (chain ++ [r]).any Rule.isPreferred) = true →
    ¬Derives c.grammar c.version (.rule r) []

/-- It is enough to know it of an element for the parts that the element reaches. -/
theorem Unskipped.part {e' : Element} {follow' : List Element} {u : List Terminal}
    (h : Unskipped c inside e follow p) (hu : c.Spells p u q)
    (hpart : ∀ {w : List Terminal} {chain : List Rule} {spot : Spot},
      Reaches c.grammar c.version e' follow' w chain spot →
      Reaches c.grammar c.version e follow (u ++ w) chain spot) :
    Unskipped c inside e' follow' q := by
  intro w chain r hw hreach
  exact h (u ++ w) chain r (hu.append hw) (hpart hreach)

theorem Unskipped.enter {r : Rule} {body : Element}
    (h : Unskipped c inside (.rule r) follow p) (defined : c.grammar.body? r = some body) :
    Unskipped c (inside || r.isPreferred) body [] p := by
  intro w chain s hw hreach hheld
  refine h w (r :: chain) s hw (.enter defined hreach) ?_
  simpa [Bool.or_assoc] using hheld

/-- A part of a later round is a part of the repetition. -/
theorem reaches_star_of_round {u : List Terminal} (head : Derives c.grammar c.version e u)
    (h : Reaches c.grammar c.version (.star e) follow w chain spot) :
    Reaches c.grammar c.version (.star e) follow (u ++ w) chain spot := by
  cases h with
  | star rounds inner =>
    rw [← List.append_assoc]
    exact .star (.starCons head rounds) inner

theorem reaches_plus_of_round {u : List Terminal} (head : Derives c.grammar c.version e u)
    (h : Reaches c.grammar c.version (.star e) follow w chain spot) :
    Reaches c.grammar c.version (.plus e) follow (u ++ w) chain spot := by
  cases h with
  | star rounds inner =>
    rw [← List.append_assoc]
    exact .plus (.starCons head rounds) inner

theorem crosses_of_derives (hd : Derives c.grammar c.version e w) (hw : c.Spells p w q)
    (hskip : Unskipped c inside e follow p) : Crosses c inside e p q := by
  induction hd generalizing inside follow p q with
  | token t =>
    cases hw with
    | cons here rest =>
      cases rest
      exact .token here
  | ident name =>
    cases hw with
    | cons here rest =>
      cases rest
      exact .ident here name
  | @rule r body w defined inner ih =>
    by_cases hheld : c.Held inside r p
    · -- At the caret only the empty sequence is left, and the rule does not derive it.
      obtain ⟨rfl, hkind⟩ := hheld
      obtain ⟨rfl, -⟩ := hw.at_caret
      refine absurd (Derives.rule defined inner) (hskip [] [] r (.nil _) (.call r follow) ?_)
      simpa [or_comm] using hkind
    · exact .rule hheld defined (ih hw (hskip.enter defined))
  | seqNil =>
    cases hw
    exact .seqNil inside _
  | seqCons head _ ihHead ihTail =>
    obtain ⟨m, hu, hw⟩ := hw.of_append
    exact .seqCons (ihHead hu (hskip.part (.nil p) .seqHead))
      (ihTail hw (hskip.part hu (.seqTail head)))
  | choice chosen _ ih => exact .choice chosen (ih hw (hskip.part (.nil p) (.choice chosen)))
  | optNone e =>
    cases hw
    exact .optNone inside e _
  | optSome _ ih => exact .optSome (ih hw (hskip.part (.nil p) .opt))
  | starNil e =>
    cases hw
    exact .starNil inside e _
  | @starCons e _ _ head _ ihHead ihTail =>
    obtain ⟨m, hu, hw⟩ := hw.of_append
    exact .starCons (ihHead hu (hskip.part (.nil p) (.star (.starNil e))))
      (ihTail hw (hskip.part hu (reaches_star_of_round head)))
  | @plus e _ _ head _ ihHead ihTail =>
    obtain ⟨m, hu, hw⟩ := hw.of_append
    exact .plus (ihHead hu (hskip.part (.nil p) (.plus (.starNil e))))
      (ihTail hw (hskip.part hu (reaches_plus_of_round head)))
  | since gate _ ih => exact .since gate (ih hw (hskip.part (.nil p) (.since gate)))
  | before gate _ ih => exact .before gate (ih hw (hskip.part (.nil p) (.before gate)))

/-- A way arrives where the partial derivation does, or it ends at the caret in front of a rule on
the chain that is held there. -/
def Meets (c : Setting) (inside : Bool) (e : Element) (follow : List Element) (p : Nat)
    (chain : List Rule) (spot : Spot) : Prop :=
  Arrives c inside e follow p chain spot ∨
    ∃ outer r inner, chain = outer ++ r :: inner ∧
      Arrives c inside e follow p outer (.rule r) ∧
      (inside || (outer ++ [r]).any Rule.isPreferred) = true

theorem Meets.imp {e' : Element} {follow' : List Element}
    (h : Meets c inside e' follow' q chain spot)
    (himp : ∀ {chain : List Rule} {spot : Spot}, Arrives c inside e' follow' q chain spot →
      Arrives c inside e follow p chain spot) : Meets c inside e follow p chain spot := by
  rcases h with h | ⟨outer, r, inner, hchain, h, hheld⟩
  · exact .inl (himp h)
  · exact .inr ⟨outer, r, inner, hchain, himp h, hheld⟩

theorem Meets.enter {r : Rule} {body : Element} (free : ¬c.Held inside r p)
    (defined : c.grammar.body? r = some body)
    (h : Meets c (inside || r.isPreferred) body [] p chain spot) :
    Meets c inside (.rule r) follow p (r :: chain) spot := by
  rcases h with h | ⟨outer, s, inner, rfl, h, hheld⟩
  · exact .inl (.enter free defined h)
  · refine .inr ⟨r :: outer, s, inner, rfl, .enter free defined h, ?_⟩
    simpa [Bool.or_assoc] using hheld

theorem meets_of_reaches (hr : Reaches c.grammar c.version e follow w chain spot)
    (hw : c.Spells p w c.caret) (hskip : Unskipped c inside e follow p) :
    Meets c inside e follow p chain spot := by
  generalize hcaret : c.caret = n at hw
  induction hr generalizing inside p with
  | token t follow =>
    cases hw
    subst hcaret
    exact .inl (.token inside t follow)
  | ident follow =>
    cases hw
    subst hcaret
    exact .inl (.ident inside follow)
  | call r follow =>
    cases hw
    subst hcaret
    exact .inl (.call inside r follow)
  | @enter r body follow w chain spot defined _ ih =>
    by_cases hheld : c.Held inside r p
    · obtain ⟨rfl, hkind⟩ := hheld
      refine .inr ⟨[], r, chain, rfl, .call inside r follow, ?_⟩
      simpa [or_comm] using hkind
    · exact (ih (hskip.enter defined) hw).enter hheld defined
  | seqHead _ ih => exact (ih (hskip.part (.nil p) .seqHead) hw).imp .seqHead
  | seqTail head _ ih =>
    obtain ⟨m, hu, hw⟩ := hw.of_append
    have hcross := crosses_of_derives head hu (hskip.part (.nil p) .seqHead)
    exact (ih (hskip.part hu (.seqTail head)) hw).imp (.seqTail hcross)
  | choice chosen _ ih =>
    exact (ih (hskip.part (.nil p) (.choice chosen)) hw).imp (.choice chosen)
  | opt _ ih => exact (ih (hskip.part (.nil p) .opt) hw).imp .opt
  | @star e follow _ _ _ _ rounds _ ih =>
    obtain ⟨m, hu, hw⟩ := hw.of_append
    have hcross := crosses_of_derives rounds hu hskip
    exact (ih (hskip.part hu (.star rounds)) hw).imp (.star hcross)
  | @plus e follow _ _ _ _ rounds _ ih =>
    obtain ⟨m, hu, hw⟩ := hw.of_append
    have hstar : Unskipped c inside (.star e) follow p := by
      refine hskip.part (.nil p) fun h => ?_
      rw [List.nil_append]
      cases h with
      | star rounds inner => exact .plus rounds inner
    have hcross := crosses_of_derives rounds hu hstar
    exact (ih (hskip.part hu (.plus rounds)) hw).imp (.plus hcross)
  | since gate _ ih => exact (ih (hskip.part (.nil p) (.since gate)) hw).imp (.since gate)
  | before gate _ ih => exact (ih (hskip.part (.nil p) (.before gate)) hw).imp (.before gate)

end SqlCompletion.Walk
