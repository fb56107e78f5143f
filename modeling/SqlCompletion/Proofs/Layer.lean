import SqlCompletion.Proofs.Plan
import SqlCompletion.Proofs.Ways
set_option autoImplicit false

/-!
# One layer of a grammar

What an element does by itself, with the rules that it calls left to a relation: it passes from one
position to another (`Passes`), and it comes to a terminal, a name or a call (`Comes`). The main
result is about the plan of an element (`plan_serves`). Whatever fair answers its calls get, the
plan does nothing that ways do not (`Part`), and it does all that the layer wants (`Wanted`): it
ends at all positions to which the element passes, and makes all the notes and calls to which the
element comes.

This is the only place where the shapes of an element are gone through for what a walk does. What
walks gather, what a task makes of them and which calls they make are special cases: they choose the
relation, and say of the notes and calls how these go (`Course`).

The ways of a grammar are layers upon layers. They pass an element where they cross the rules that
it calls (`passes_iff_crosses`), and they arrive inside it or inside a rule to whose call it comes
(`Arrives.arrivesBelow`). A part of an element to which a walk comes is where ways and partial
derivations through the whole lead (`Leads`).

There is a lemma for each shape (`token_serves` up to `before_serves`), and a repetition is
`Plan.Serves.rounds`. The start of the element must not lie behind the caret: no position behind it
is ever reached, and the fuel of a repetition is counted by the positions up to there. The relation
may be less than what the rules do; then less is wanted, and the plan does it all the same.
-/

namespace SqlCompletion.Walk

open Grammar (Reaches)

/-! ## Layers -/

section

variable (c : Setting) (rules : Rule → Nat → Nat → Prop)

/-- The element goes from one position to another, with rules as `rules` says. -/
inductive Passes : Element → Nat → Nat → Prop
  | token {t : Terminal} {p : Nat} (here : c.input[p]? = some t) : Passes (.token t) p (p + 1)
  | ident {t : Terminal} {p : Nat} (here : c.input[p]? = some t) (name : t.isNameLike = true) :
      Passes .ident p (p + 1)
  | rule {r : Rule} {p q : Nat} (h : rules r p q) : Passes (.rule r) p q
  | seqNil (p : Nat) : Passes (.seq []) p p
  | seqCons {e : Element} {rest : List Element} {p m q : Nat} (head : Passes e p m)
      (tail : Passes (.seq rest) m q) : Passes (.seq (e :: rest)) p q
  | choice {e : Element} {alternatives : List Element} {p q : Nat} (chosen : e ∈ alternatives)
      (inner : Passes e p q) : Passes (.choice alternatives) p q
  | optNone (e : Element) (p : Nat) : Passes (.opt e) p p
  | optSome {e : Element} {p q : Nat} (inner : Passes e p q) : Passes (.opt e) p q
  | starNil (e : Element) (p : Nat) : Passes (.star e) p p
  | starCons {e : Element} {p m q : Nat} (head : Passes e p m) (tail : Passes (.star e) m q) :
      Passes (.star e) p q
  | plus {e : Element} {p m q : Nat} (head : Passes e p m) (tail : Passes (.star e) m q) :
      Passes (.plus e) p q
  | since {u : Version} {e : Element} {p q : Nat} (gate : u ≤ c.version) (inner : Passes e p q) :
      Passes (.since u e) p q
  | before {u : Version} {e : Element} {p q : Nat} (gate : c.version < u)
      (inner : Passes e p q) : Passes (.before u e) p q

/-- The element comes to a spot of its own at some position, with rules as `rules` says. -/
inductive Comes : Element → List Element → Nat → Spot → Nat → Prop
  | token (t : Terminal) (follow : List Element) (p : Nat) :
      Comes (.token t) follow p (.token t follow) p
  | ident (follow : List Element) (p : Nat) : Comes .ident follow p .ident p
  | call (r : Rule) (follow : List Element) (p : Nat) : Comes (.rule r) follow p (.rule r) p
  | seqHead {e : Element} {rest follow : List Element} {p q : Nat} {spot : Spot}
      (inner : Comes e rest p spot q) : Comes (.seq (e :: rest)) follow p spot q
  | seqTail {e : Element} {rest follow : List Element} {p m q : Nat} {spot : Spot}
      (head : Passes c rules e p m) (inner : Comes (.seq rest) follow m spot q) :
      Comes (.seq (e :: rest)) follow p spot q
  | choice {e : Element} {alternatives follow : List Element} {p q : Nat} {spot : Spot}
      (chosen : e ∈ alternatives)
      (inner : Comes e (Element.choiceFollow alternatives follow) p spot q) :
      Comes (.choice alternatives) follow p spot q
  | opt {e : Element} {follow : List Element} {p q : Nat} {spot : Spot}
      (inner : Comes e [] p spot q) : Comes (.opt e) follow p spot q
  | star {e : Element} {follow : List Element} {p m q : Nat} {spot : Spot}
      (rounds : Passes c rules (.star e) p m) (inner : Comes e [] m spot q) :
      Comes (.star e) follow p spot q
  | plus {e : Element} {follow : List Element} {p m q : Nat} {spot : Spot}
      (rounds : Passes c rules (.star e) p m) (inner : Comes e [] m spot q) :
      Comes (.plus e) follow p spot q
  | since {u : Version} {e : Element} {follow : List Element} {p q : Nat} {spot : Spot}
      (gate : u ≤ c.version) (inner : Comes e follow p spot q) :
      Comes (.since u e) follow p spot q
  | before {u : Version} {e : Element} {follow : List Element} {p q : Nat} {spot : Spot}
      (gate : c.version < u) (inner : Comes e follow p spot q) :
      Comes (.before u e) follow p spot q

end

section

variable {c : Setting} {rules rules' : Rule → Nat → Nat → Prop} {e : Element}
  {follow : List Element} {p q : Nat} {spot : Spot}

theorem Passes.mono (h : Passes c rules e p q) (himp : ∀ r p q, rules r p q → rules' r p q) :
    Passes c rules' e p q := by
  induction h with
  | token here => exact .token here
  | ident here name => exact .ident here name
  | rule h => exact .rule (himp _ _ _ h)
  | seqNil p => exact .seqNil p
  | seqCons _ _ ihHead ihTail => exact .seqCons ihHead ihTail
  | choice chosen _ ih => exact .choice chosen ih
  | optNone e p => exact .optNone e p
  | optSome _ ih => exact .optSome ih
  | starNil e p => exact .starNil e p
  | starCons _ _ ihHead ihTail => exact .starCons ihHead ihTail
  | plus _ _ ihHead ihTail => exact .plus ihHead ihTail
  | since gate _ ih => exact .since gate ih
  | before gate _ ih => exact .before gate ih

theorem Comes.mono (h : Comes c rules e follow p spot q)
    (himp : ∀ r p q, rules r p q → rules' r p q) : Comes c rules' e follow p spot q := by
  induction h with
  | token t follow p => exact .token t follow p
  | ident follow p => exact .ident follow p
  | call r follow p => exact .call r follow p
  | seqHead _ ih => exact .seqHead ih
  | seqTail head _ ih => exact .seqTail (head.mono himp) ih
  | choice chosen _ ih => exact .choice chosen ih
  | opt _ ih => exact .opt ih
  | star rounds _ ih => exact .star (rounds.mono himp) ih
  | plus rounds _ ih => exact .plus (rounds.mono himp) ih
  | since gate _ ih => exact .since gate ih
  | before gate _ ih => exact .before gate ih

/-- The rounds of a repetition, one by one. -/
theorem passes_star_iff :
    Passes c rules (.star e) p q ↔ Relation.ReflTransGen (Passes c rules e) p q := by
  constructor
  · intro h
    generalize hs : Element.star e = s at h
    induction h with
    | starNil =>
      cases hs
      exact .refl
    | starCons head _ _ ih =>
      cases hs
      exact .head head (ih rfl)
    | _ => cases hs
  · intro h
    induction h using Relation.ReflTransGen.head_induction_on with
    | refl => exact .starNil e q
    | head hstep _ ih => exact .starCons hstep ih

end

/-! ## Ways, layer by layer -/

section

variable {c : Setting} {inside : Bool} {e : Element} {follow : List Element} {p q : Nat}

theorem passes_iff_crosses :
    Passes c (fun r => Crosses c inside (.rule r)) e p q ↔ Crosses c inside e p q := by
  constructor
  · intro h
    induction h with
    | token here => exact .token here
    | ident here name => exact .ident here name
    | rule h => exact h
    | seqNil p => exact .seqNil inside p
    | seqCons _ _ ihHead ihTail => exact .seqCons ihHead ihTail
    | choice chosen _ ih => exact .choice chosen ih
    | optNone e p => exact .optNone inside e p
    | optSome _ ih => exact .optSome ih
    | starNil e p => exact .starNil inside e p
    | starCons _ _ ihHead ihTail => exact .starCons ihHead ihTail
    | plus _ _ ihHead ihTail => exact .plus ihHead ihTail
    | since gate _ ih => exact .since gate ih
    | before gate _ ih => exact .before gate ih
  · intro h
    induction h with
    | token here => exact .token here
    | ident here name => exact .ident here name
    | rule free defined inner => exact .rule (.rule free defined inner)
    | seqNil _ p => exact .seqNil p
    | seqCons _ _ ihHead ihTail => exact .seqCons ihHead ihTail
    | choice chosen _ ih => exact .choice chosen ih
    | optNone _ e p => exact .optNone e p
    | optSome _ ih => exact .optSome ih
    | starNil _ e p => exact .starNil e p
    | starCons _ _ ihHead ihTail => exact .starCons ihHead ihTail
    | plus _ _ ihHead ihTail => exact .plus ihHead ihTail
    | since gate _ ih => exact .since gate ih
    | before gate _ ih => exact .before gate ih

/-- The rounds of a repetition, one by one. -/
theorem crosses_star_iff :
    Crosses c inside (.star e) p q ↔ Relation.ReflTransGen (Crosses c inside e) p q := by
  have hround : Passes c (fun r => Crosses c inside (.rule r)) e = Crosses c inside e :=
    funext₂ fun p q => propext passes_iff_crosses
  rw [← passes_iff_crosses, passes_star_iff, hround]

/-- The element comes to the spot itself, or to the call of a rule that arrives there. -/
def ArrivesBelow (c : Setting) (inside : Bool) (e : Element) (follow : List Element) (p : Nat)
    (rules : List Rule) (spot : Spot) : Prop :=
  match rules with
  | [] => Comes c (fun r => Crosses c inside (.rule r)) e follow p spot c.caret
  | r :: _ => ∃ m, Comes c (fun r => Crosses c inside (.rule r)) e follow p (.rule r) m ∧
      Arrives c inside (.rule r) [] m rules spot

theorem ArrivesBelow.imp {e' : Element} {follow' : List Element} {p' : Nat} {rules : List Rule}
    {spot : Spot} (h : ArrivesBelow c inside e' follow' p' rules spot)
    (himp : ∀ {spot : Spot} {m : Nat},
      Comes c (fun r => Crosses c inside (.rule r)) e' follow' p' spot m →
      Comes c (fun r => Crosses c inside (.rule r)) e follow p spot m) :
    ArrivesBelow c inside e follow p rules spot := by
  cases rules with
  | nil => exact himp h
  | cons r inner =>
    obtain ⟨m, hcomes, harr⟩ := h
    exact ⟨m, himp hcomes, harr⟩

/-- Ways arrive in an element itself, or in a rule to whose call it comes. -/
theorem Arrives.arrivesBelow {rules : List Rule} {spot : Spot}
    (h : Arrives c inside e follow p rules spot) :
    ArrivesBelow c inside e follow p rules spot := by
  induction h with
  | token _ t follow => exact .token t follow _
  | ident _ follow => exact .ident follow _
  | call _ r follow => exact .call r follow _
  | @enter _ r _ follow p _ _ free defined inner =>
    exact ⟨p, .call r follow p, .enter free defined inner⟩
  | seqHead _ ih => exact ih.imp .seqHead
  | seqTail head _ ih => exact ih.imp (.seqTail (passes_iff_crosses.2 head))
  | choice chosen _ ih => exact ih.imp (.choice chosen)
  | opt _ ih => exact ih.imp .opt
  | star rounds _ ih => exact ih.imp (.star (passes_iff_crosses.2 rounds))
  | plus rounds _ ih => exact ih.imp (.plus (passes_iff_crosses.2 rounds))
  | since gate _ ih => exact ih.imp (.since gate)
  | before gate _ ih => exact ih.imp (.before gate)

end

/-! ## Parts of an element -/

/-- Ways and partial derivations through a part are ways and partial derivations through the
whole. -/
structure Leads (c : Setting) (inside : Bool) (e : Element) (follow : List Element) (p : Nat)
    (e' : Element) (follow' : List Element) (p' : Nat) : Prop where
  arrives : ∀ {inner : List Rule} {spot : Spot}, Arrives c inside e' follow' p' inner spot →
    Arrives c inside e follow p inner spot
  reaches : ∃ u, c.Spells p u p' ∧ ∀ {w : List Terminal} {inner : List Rule} {spot : Spot},
    Reaches c.grammar c.version e' follow' w inner spot →
    Reaches c.grammar c.version e follow (u ++ w) inner spot

section

variable {c : Setting} {inside : Bool} {e e' e'' : Element} {follow follow' follow'' : List Element}
  {p p' p'' : Nat}

namespace Leads

theorem refl : Leads c inside e follow p e follow p :=
  ⟨fun h => h, [], .nil p, fun h => h⟩

theorem trans (h : Leads c inside e follow p e' follow' p')
    (h' : Leads c inside e' follow' p' e'' follow'' p'') :
    Leads c inside e follow p e'' follow'' p'' := by
  refine ⟨fun harr => h.arrives (h'.arrives harr), ?_⟩
  obtain ⟨u, hu, hreach⟩ := h.reaches
  obtain ⟨u', hu', hreach'⟩ := h'.reaches
  refine ⟨u ++ u', hu.append hu', fun hr => ?_⟩
  rw [List.append_assoc]
  exact hreach (hreach' hr)

variable {rest alternatives : List Element} {m : Nat}

theorem seqHead : Leads c inside (.seq (e :: rest)) follow p e rest p :=
  ⟨.seqHead, [], .nil p, .seqHead⟩

theorem seqTail (h : Crosses c inside e p m) :
    Leads c inside (.seq (e :: rest)) follow p (.seq rest) follow m := by
  obtain ⟨u, hu, hd⟩ := h.derives
  exact ⟨.seqTail h, u, hu, .seqTail hd⟩

theorem choice (h : e ∈ alternatives) :
    Leads c inside (.choice alternatives) follow p e (Element.choiceFollow alternatives follow) p :=
  ⟨.choice h, [], .nil p, .choice h⟩

theorem opt : Leads c inside (.opt e) follow p e [] p := ⟨.opt, [], .nil p, .opt⟩

theorem star (h : Crosses c inside (.star e) p m) : Leads c inside (.star e) follow p e [] m := by
  obtain ⟨u, hu, hd⟩ := h.derives
  exact ⟨.star h, u, hu, .star hd⟩

theorem plus (h : Crosses c inside (.star e) p m) : Leads c inside (.plus e) follow p e [] m := by
  obtain ⟨u, hu, hd⟩ := h.derives
  exact ⟨.plus h, u, hu, .plus hd⟩

theorem since {u : Version} (h : u ≤ c.version) :
    Leads c inside (.since u e) follow p e follow p :=
  ⟨.since h, [], .nil p, .since h⟩

theorem before {u : Version} (h : c.version < u) :
    Leads c inside (.before u e) follow p e follow p :=
  ⟨.before h, [], .nil p, .before h⟩

end Leads

end

/-! ## What a plan may do and must do -/

section

variable (c : Setting) (inside : Bool) (rules : Rule → Nat → Nat → Prop)

/-- A call may be answered so: with ends of ways only, and with all to which the relation takes
it. -/
structure Fair (r : Rule) (p : Nat) (ends : Positions) : Prop where
  sound : ∀ q ∈ ends, Crosses c inside (.rule r) p q
  full : ∀ q, rules r p q → q ∈ ends

/-- What ways do in an element. -/
def Part (e : Element) (follow : List Element) (p : Nat) : Event → Prop
  | .ended q => Crosses c inside e p q
  | .noted spot => Arrives c inside e follow p [] spot
  | .called r q => ∃ follow', Leads c inside e follow p (.rule r) follow' q

/-- What an element has to do where the relation tells where its calls end. -/
def Wanted (e : Element) (follow : List Element) (p : Nat) : Event → Prop
  | .ended q => Passes c rules e p q
  | .noted spot => spot.opens = [] ∧ Comes c rules e follow p spot c.caret
  | .called r q => Comes c rules e follow p (.rule r) q

end

section

variable {c : Setting} {inside : Bool} {e e' : Element} {follow follow' : List Element} {p p' : Nat}

/-- What ways do in a part, they do in the whole, but for where they end. -/
theorem Part.lead {event : Event} (hact : event.isAct)
    (hlead : Leads c inside e follow p e' follow' p') (h : Part c inside e' follow' p' event) :
    Part c inside e follow p event := by
  cases event with
  | ended q => cases hact
  | noted spot => exact hlead.arrives h
  | called r q =>
    obtain ⟨follow'', h⟩ := h
    exact ⟨follow'', hlead.trans h⟩

end

/-! ## The plan of an element -/

/-- No terminal of the input lies at the caret. -/
theorem Setting.getElem?_caret (c : Setting) : c.input[c.caret]? = none :=
  Array.getElem?_eq_none (Nat.le_refl _)

section

variable {c : Setting} {inside : Bool} {rules : Rule → Nat → Nat → Prop} {e : Element}
  {follow : List Element} {p : Nat} {event : Event}

theorem token_serves (t : Terminal) :
    (plan c (.token t) p follow).Serves (Fair c inside rules)
      (Part c inside (.token t) follow p) (Wanted c rules (.token t) follow p) := by
  rw [plan]
  split
  · rename_i hp
    subst hp
    refine ⟨⟨.token inside t follow, fun q hq => absurd hq (Positions.not_mem_empty q)⟩, ?_⟩
    rintro (q | spot | ⟨r, q⟩) hevent
    · cases hevent with
      | token here => cases c.getElem?_caret.symm.trans here
    · cases hevent.2
      exact .inl rfl
    · cases hevent
  · rename_i hp
    refine .done ?_ ?_
    · intro q hq
      split at hq
      · rename_i here
        obtain rfl := Positions.mem_singleton.1 hq
        exact .token here
      · cases Positions.not_mem_empty q hq
    · rintro (q | spot | ⟨r, q⟩) hevent
      · cases hevent with
        | token here =>
          rw [if_pos here]
          exact ⟨_, Positions.mem_singleton.2 rfl, rfl⟩
      · cases hevent.2
        exact absurd rfl hp
      · cases hevent

theorem ident_serves :
    (plan c .ident p follow).Serves (Fair c inside rules) (Part c inside .ident follow p)
      (Wanted c rules .ident follow p) := by
  rw [plan]
  split
  · rename_i hp
    subst hp
    refine ⟨⟨.ident inside follow, fun q hq => absurd hq (Positions.not_mem_empty q)⟩, ?_⟩
    rintro (q | spot | ⟨r, q⟩) hevent
    · cases hevent with
      | ident here => cases c.getElem?_caret.symm.trans here
    · cases hevent.2
      exact .inl rfl
    · cases hevent
  · rename_i hp
    refine .done ?_ ?_
    · intro q hq
      split at hq
      · rename_i here
        obtain ⟨t, here, name⟩ := (Option.any_eq_true _ _).1 here
        obtain rfl := Positions.mem_singleton.1 hq
        exact .ident here name
      · cases Positions.not_mem_empty q hq
    · rintro (q | spot | ⟨r, q⟩) hevent
      · cases hevent with
        | ident here name =>
          rw [here, if_pos (by simpa using name)]
          exact ⟨_, Positions.mem_singleton.2 rfl, rfl⟩
      · cases hevent.2
        exact absurd rfl hp
      · cases hevent

theorem call_serves (r : Rule) :
    (plan c (.rule r) p follow).Serves (Fair c inside rules)
      (Part c inside (.rule r) follow p) (Wanted c rules (.rule r) follow p) := by
  rw [plan]
  refine ⟨⟨⟨follow, .refl⟩, fun ends hfair => hfair.sound⟩, ?_⟩
  rintro (q | spot | ⟨r, q⟩) hevent
  · cases hevent with
    | rule h => exact .inr fun ends hfair => ⟨q, hfair.full q h, rfl⟩
  · obtain ⟨hopens, hcomes⟩ := hevent
    cases hcomes
    cases hopens
  · cases hevent
    exact .inl rfl

/-! ### Sequences and choices -/

theorem Part.tail {rest : List Element} {m : Nat} (head : Crosses c inside e p m)
    (h : Part c inside (.seq rest) follow m event) :
    Part c inside (.seq (e :: rest)) follow p event := by
  cases event with
  | ended q => exact .seqCons head h
  | noted | called => exact h.lead rfl (.seqTail head)

theorem Wanted.seqCons {rest : List Element}
    (h : Wanted c rules (.seq (e :: rest)) follow p event) :
    (event.isAct ∧ Wanted c rules e rest p event) ∨
      ∃ m, Passes c rules e p m ∧ Wanted c rules (.seq rest) follow m event := by
  cases event with
  | ended q =>
    cases h with
    | seqCons head tail => exact .inr ⟨_, head, tail⟩
  | noted spot =>
    obtain ⟨hopens, hcomes⟩ := h
    cases hcomes with
    | seqHead inner => exact .inl ⟨rfl, hopens, inner⟩
    | seqTail head inner => exact .inr ⟨_, head, hopens, inner⟩
  | called r q =>
    cases h with
    | seqHead inner => exact .inl ⟨rfl, inner⟩
    | seqTail head inner => exact .inr ⟨_, head, inner⟩

/-- The plan of a sequence from some positions. -/
abbrev ServesSeq (c : Setting) (inside : Bool) (rules : Rule → Nat → Nat → Prop) (x : Plan)
    (items follow : List Element) (starts : Positions) : Prop :=
  x.Serves (Fair c inside rules)
    (fun event => ∃ p ∈ starts, Part c inside (.seq items) follow p event)
    (fun event => ∃ p ∈ starts, Wanted c rules (.seq items) follow p event)

theorem seqNil_serves (starts : Positions) :
    ServesSeq c inside rules (.done starts) [] follow starts := by
  refine .done (fun q hq => ⟨q, hq, .seqNil inside q⟩) ?_
  rintro (q | spot | ⟨r, q⟩) ⟨p, hp, hevent⟩
  · cases hevent
    exact ⟨_, hp, rfl⟩
  · cases hevent.2
  · cases hevent

theorem seqCons_serves {rest : List Element} {starts : Positions} {f : Nat → Plan}
    {g : Positions → Plan}
    (hhead : ∀ p ∈ starts, (f p).Serves (Fair c inside rules) (Part c inside e rest p)
      (Wanted c rules e rest p))
    (htail : ∀ mids : Positions, (∀ m ∈ mids, ∃ p ∈ starts, Crosses c inside e p m) →
      ServesSeq c inside rules (g mids) rest follow mids) :
    ServesSeq c inside rules ((Plan.each f starts.toList ∅).bind g) (e :: rest) follow starts := by
  refine (Plan.Serves.fromEach hhead).bind ?_ (fun mids hmids =>
    (htail mids hmids).mono ?_ fun _ h => h) ?_
  · rintro event hact ⟨p, hp, h⟩
    exact ⟨p, hp, h.lead hact .seqHead⟩
  · rintro event ⟨m, hm, h⟩
    obtain ⟨p, hp, head⟩ := hmids m hm
    exact ⟨p, hp, h.tail head⟩
  · rintro event ⟨p, hp, h⟩
    rcases h.seqCons with ⟨hact, h⟩ | ⟨m, head, h⟩
    · exact .inl ⟨hact, p, hp, h⟩
    · exact .inr fun mids hfull => ⟨m, hfull m ⟨p, hp, head⟩, h⟩

/-- The plan of one alternative after another. -/
abbrev ServesChoice (c : Setting) (inside : Bool) (rules : Rule → Nat → Nat → Prop) (x : Plan)
    (alternatives follow : List Element) (p : Nat) (known : Positions) : Prop :=
  x.Serves (Fair c inside rules)
    (fun event => (∃ q ∈ known, event = .ended q) ∨
      ∃ e ∈ alternatives, Part c inside e follow p event)
    (fun event => (∃ q ∈ known, event = .ended q) ∨
      ∃ e ∈ alternatives, Wanted c rules e follow p event)

theorem choiceNil_serves (known : Positions) :
    ServesChoice c inside rules (.done known) [] follow p known := by
  refine .done (fun q hq => .inl ⟨q, hq, rfl⟩) ?_
  rintro event (h | ⟨e, he, -⟩)
  · exact h
  · cases he

theorem choiceCons_serves {rest : List Element} {known : Positions} {x : Plan}
    {g : Positions → Plan}
    (hhead : x.Serves (Fair c inside rules) (Part c inside e follow p) (Wanted c rules e follow p))
    (hrest : ∀ more : Positions, ServesChoice c inside rules (g more) rest follow p more) :
    ServesChoice c inside rules (x.bind fun ends => g (known.union ends)) (e :: rest) follow p
      known := by
  refine hhead.bind (fun event _ h => .inr ⟨e, List.mem_cons_self, h⟩) (fun ends hends =>
    (hrest (known.union ends)).mono ?_ fun _ h => h) ?_
  · rintro event (⟨q, hq, rfl⟩ | ⟨e', he', h⟩)
    · exact (Positions.mem_union.1 hq).elim (fun hq => .inl ⟨q, hq, rfl⟩)
        fun hq => .inr ⟨e, List.mem_cons_self, hends q hq⟩
    · exact .inr ⟨e', List.mem_cons_of_mem e he', h⟩
  · rintro event (⟨q, hq, rfl⟩ | ⟨e', he', h⟩)
    · exact .inr fun ends _ => .inl ⟨q, Positions.mem_union.2 (.inl hq), rfl⟩
    · rcases List.mem_cons.1 he' with rfl | he'
      · cases event with
        | ended q =>
          exact .inr fun ends hfull => .inl ⟨q, Positions.mem_union.2 (.inr (hfull q h)), rfl⟩
        | noted | called => exact .inl ⟨rfl, h⟩
      · exact .inr fun ends _ => .inr ⟨e', he', h⟩

theorem choice_serves {alternatives : List Element} {x : Plan}
    (h : ServesChoice c inside rules x alternatives (Element.choiceFollow alternatives follow) p
      ∅) :
    x.Serves (Fair c inside rules) (Part c inside (.choice alternatives) follow p)
      (Wanted c rules (.choice alternatives) follow p) := by
  refine h.mono ?_ ?_
  · rintro event (⟨q, hq, -⟩ | ⟨e, he, h⟩)
    · cases Positions.not_mem_empty q hq
    · cases event with
      | ended q => exact .choice he h
      | noted | called => exact h.lead rfl (.choice he)
  · rintro (q | spot | ⟨r, q⟩) h
    · cases h with
      | choice chosen inner => exact .inr ⟨_, chosen, inner⟩
    · obtain ⟨hopens, hcomes⟩ := h
      cases hcomes with
      | choice chosen inner => exact .inr ⟨_, chosen, hopens, inner⟩
    · cases h with
      | choice chosen inner => exact .inr ⟨_, chosen, inner⟩

/-! ### Repetitions -/

/-- The element is served from every position that rounds of it reach. -/
abbrev ServesRounds (c : Setting) (inside : Bool) (rules : Rule → Nat → Nat → Prop)
    (f : Nat → Plan) (e : Element) (p : Nat) : Prop :=
  ∀ m, Crosses c inside (.star e) p m →
    (f m).Serves (Fair c inside rules) (Part c inside e [] m) (Wanted c rules e [] m)

theorem rounds_serves {f : Nat → Plan} {starts : Positions} (hp : p ≤ c.caret)
    (hf : ServesRounds c inside rules f e p)
    (hstarts : ∀ m ∈ starts, Crosses c inside (.star e) p m) :
    (Plan.rounds f c.fuel starts starts).Serves (Fair c inside rules)
      (Plan.Repeated (Part c inside e []) starts) (Plan.Repeated (Wanted c rules e []) starts) := by
  refine Plan.Serves.rounds (fun m hm => hm.le_caret hp) ?_ hf hstarts
  intro m q hm hgo
  exact crosses_star_iff.2 ((crosses_star_iff.1 hm).tail hgo)

theorem star_serves {f : Nat → Plan} (hp : p ≤ c.caret) (hf : ServesRounds c inside rules f e p) :
    (Plan.rounds f c.fuel (.singleton p) (.singleton p)).Serves (Fair c inside rules)
      (Part c inside (.star e) follow p) (Wanted c rules (.star e) follow p) := by
  have hstart : ∀ m ∈ Positions.singleton p, Crosses c inside (.star e) p m := by
    intro m hm
    obtain rfl := Positions.mem_singleton.1 hm
    exact .starNil _ e m
  have hreached : ∀ {goes : Nat → Nat → Prop} {q : Nat},
      ReachedFrom goes (.singleton p) q ↔ Relation.ReflTransGen goes p q := by
    intro goes q
    simp [ReachedFrom]
  refine (rounds_serves hp hf hstart).mono ?_ ?_
  · rintro event (⟨h⟩ | ⟨h, hact, hevent⟩)
    · exact crosses_star_iff.2 (hreached.1 h)
    · exact hevent.lead hact (.star (crosses_star_iff.2 (hreached.1 h)))
  · rintro (q | spot | ⟨r, q⟩) h
    · exact .ended (hreached.2 (passes_star_iff.1 h))
    · obtain ⟨hopens, hcomes⟩ := h
      cases hcomes with
      | star rounds inner =>
        exact .act (hreached.2 (passes_star_iff.1 rounds)) rfl ⟨hopens, inner⟩
    · cases h with
      | star rounds inner => exact .act (hreached.2 (passes_star_iff.1 rounds)) rfl inner

/-- What has to be done behind some rounds is done before the first one is over, or behind it. -/
theorem repeated_of_rounds {m : Nat} (hact : event.isAct) (rounds : Passes c rules (.star e) p m)
    (h : Wanted c rules e [] m event) :
    (event.isAct ∧ Wanted c rules e [] p event) ∨
      ∀ first : Positions, (∀ q, Passes c rules e p q → q ∈ first) →
        Plan.Repeated (Wanted c rules e []) first event := by
  cases rounds with
  | starNil => exact .inl ⟨hact, h⟩
  | starCons head tail =>
    exact .inr fun first hfull => .act ⟨_, hfull _ head, passes_star_iff.1 tail⟩ hact h

theorem plus_serves {f : Nat → Plan} (hp : p ≤ c.caret) (hf : ServesRounds c inside rules f e p) :
    ((f p).bind fun first => Plan.rounds f c.fuel first first).Serves (Fair c inside rules)
      (Part c inside (.plus e) follow p) (Wanted c rules (.plus e) follow p) := by
  have hrounds := fun (first : Positions) (hfirst : ∀ m ∈ first, Crosses c inside e p m) =>
    rounds_serves hp hf fun m hm => .starCons (hfirst m hm) (.starNil _ e m)
  refine (hf p (.starNil _ e p)).bind (fun event hact h => h.lead hact (.plus (.starNil _ e p)))
    (fun first hfirst => (hrounds first hfirst).mono ?_ fun _ h => h) ?_
  · rintro event (⟨m, hm, hreach⟩ | ⟨⟨m, hm, hreach⟩, hact, hevent⟩)
    · exact .plus (hfirst m hm) (crosses_star_iff.2 hreach)
    · exact hevent.lead hact (.plus (.starCons (hfirst m hm) (crosses_star_iff.2 hreach)))
  · rintro (q | spot | ⟨r, q⟩) h
    · cases h with
      | plus head tail =>
        exact .inr fun first hfull => .ended ⟨_, hfull _ head, passes_star_iff.1 tail⟩
    · obtain ⟨hopens, hcomes⟩ := h
      cases hcomes with
      | plus rounds inner => exact repeated_of_rounds rfl rounds ⟨hopens, inner⟩
    · cases h with
      | plus rounds inner => exact repeated_of_rounds rfl rounds inner

theorem opt_serves {x : Plan}
    (h : x.Serves (Fair c inside rules) (Part c inside e [] p) (Wanted c rules e [] p)) :
    (x.bind fun ends => .done (ends.insert p)).Serves (Fair c inside rules)
      (Part c inside (.opt e) follow p) (Wanted c rules (.opt e) follow p) := by
  have hlast : ∀ ends : Positions, (∀ q ∈ ends, Crosses c inside e p q) →
      (Plan.done (ends.insert p)).Serves (Fair c inside rules) (Part c inside (.opt e) follow p)
        fun event => ∃ q ∈ ends.insert p, event = .ended q := by
    intro ends hends
    refine Plan.Serves.done ?_ fun _ h => h
    intro q hq
    rcases Positions.mem_insert.1 hq with rfl | hq
    · exact .optNone _ e q
    · exact .optSome (hends q hq)
  refine h.bind (fun event hact h => h.lead hact .opt) hlast ?_
  rintro (q | spot | ⟨r, q⟩) h
  · cases h with
    | optNone => exact .inr fun ends _ => ⟨_, Positions.mem_insert.2 (.inl rfl), rfl⟩
    | optSome inner =>
      exact .inr fun ends hfull => ⟨_, Positions.mem_insert.2 (.inr (hfull _ inner)), rfl⟩
  · obtain ⟨hopens, hcomes⟩ := h
    cases hcomes with
    | opt inner => exact .inl ⟨rfl, hopens, inner⟩
  · cases h with
    | opt inner => exact .inl ⟨rfl, inner⟩

/-! ### Gates -/

theorem done_empty_serves {whole : Element} (h : ∀ event, ¬Wanted c rules whole follow p event) :
    (Plan.done ∅).Serves (Fair c inside rules) (Part c inside whole follow p)
      (Wanted c rules whole follow p) :=
  .done (fun q hq => absurd hq (Positions.not_mem_empty q))
    fun event hevent => absurd hevent (h event)

theorem since_serves {u : Version} {x : Plan}
    (hx : u ≤ c.version → x.Serves (Fair c inside rules) (Part c inside e follow p)
      (Wanted c rules e follow p)) :
    (if u ≤ c.version then x else .done ∅).Serves (Fair c inside rules)
      (Part c inside (.since u e) follow p) (Wanted c rules (.since u e) follow p) := by
  have hwanted : ∀ event, Wanted c rules (.since u e) follow p event →
      u ≤ c.version ∧ Wanted c rules e follow p event := by
    rintro (q | spot | ⟨r, q⟩) h
    · cases h with
      | since gate inner => exact ⟨gate, inner⟩
    · obtain ⟨hopens, hcomes⟩ := h
      cases hcomes with
      | since gate inner => exact ⟨gate, hopens, inner⟩
    · cases h with
      | since gate inner => exact ⟨gate, inner⟩
  split
  · rename_i hgate
    refine (hx hgate).mono ?_ fun event h => (hwanted event h).2
    rintro (q | spot | ⟨r, q⟩) h
    · exact .since hgate h
    · exact h.lead rfl (.since hgate)
    · exact h.lead rfl (.since hgate)
  · rename_i hgate
    exact done_empty_serves fun event h => hgate (hwanted event h).1

theorem before_serves {u : Version} {x : Plan}
    (hx : c.version < u → x.Serves (Fair c inside rules) (Part c inside e follow p)
      (Wanted c rules e follow p)) :
    (if c.version < u then x else .done ∅).Serves (Fair c inside rules)
      (Part c inside (.before u e) follow p) (Wanted c rules (.before u e) follow p) := by
  have hwanted : ∀ event, Wanted c rules (.before u e) follow p event →
      c.version < u ∧ Wanted c rules e follow p event := by
    rintro (q | spot | ⟨r, q⟩) h
    · cases h with
      | before gate inner => exact ⟨gate, inner⟩
    · obtain ⟨hopens, hcomes⟩ := h
      cases hcomes with
      | before gate inner => exact ⟨gate, hopens, inner⟩
    · cases h with
      | before gate inner => exact ⟨gate, inner⟩
  split
  · rename_i hgate
    refine (hx hgate).mono ?_ fun event h => (hwanted event h).2
    rintro (q | spot | ⟨r, q⟩) h
    · exact .before hgate h
    · exact h.lead rfl (.before hgate)
    · exact h.lead rfl (.before hgate)
  · rename_i hgate
    exact done_empty_serves fun event h => hgate (hwanted event h).1

/-! ### All elements -/

mutual

/-- The plan of an element does what ways do in it, and all that its layer of the grammar wants. -/
theorem plan_serves (e : Element) {p : Nat} (hp : p ≤ c.caret) (follow : List Element) :
    (plan c e p follow).Serves (Fair c inside rules) (Part c inside e follow p)
      (Wanted c rules e follow p) := by
  cases e with
  | token t => exact token_serves t
  | ident => exact ident_serves
  | rule r => exact call_serves r
  | seq items =>
    rw [plan]
    have hstarts : ∀ m ∈ Positions.singleton p, m ≤ c.caret := by simpa using hp
    exact (planSeq_serves items _ hstarts follow).mono (by simp) (by simp)
  | choice alternatives =>
    rw [plan]
    exact choice_serves (planChoice_serves alternatives hp _ ∅)
  | opt e =>
    rw [plan]
    exact opt_serves (plan_serves e hp [])
  | star e =>
    rw [plan]
    exact star_serves hp fun m hm => plan_serves e (hm.le_caret hp) []
  | plus e =>
    rw [plan]
    exact plus_serves hp fun m hm => plan_serves e (hm.le_caret hp) []
  | since u e =>
    rw [plan]
    exact since_serves fun _ => plan_serves e hp follow
  | before u e =>
    rw [plan]
    exact before_serves fun _ => plan_serves e hp follow

theorem planSeq_serves (items : List Element) (starts : Positions)
    (hstarts : ∀ p ∈ starts, p ≤ c.caret) (follow : List Element) :
    ServesSeq c inside rules (planSeq c items starts) items follow starts := by
  cases items with
  | nil =>
    rw [planSeq]
    exact seqNil_serves starts
  | cons e rest =>
    rw [planSeq]
    split
    · rename_i hempty
      obtain rfl := Positions.isEmpty_iff.1 hempty
      refine .done (fun q hq => absurd hq (Positions.not_mem_empty q)) ?_
      rintro event ⟨p, hp, -⟩
      cases Positions.not_mem_empty p hp
    · refine seqCons_serves (fun p hp => plan_serves e (hstarts p hp) rest) fun mids hmids => ?_
      refine planSeq_serves rest mids (fun m hm => ?_) follow
      obtain ⟨p, hp, head⟩ := hmids m hm
      exact head.le_caret (hstarts p hp)

theorem planChoice_serves (alternatives : List Element) {p : Nat} (hp : p ≤ c.caret)
    (follow : List Element) (known : Positions) :
    ServesChoice c inside rules (planChoice c alternatives p follow known) alternatives follow p
      known := by
  cases alternatives with
  | nil =>
    rw [planChoice]
    exact choiceNil_serves known
  | cons e rest =>
    rw [planChoice]
    exact choiceCons_serves (plan_serves e hp follow) fun more =>
      planChoice_serves rest hp follow more

end

end

end SqlCompletion.Walk
