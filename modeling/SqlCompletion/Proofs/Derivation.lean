import Mathlib.Data.List.Chain
import SqlCompletion.Candidate.Basic
import SqlCompletion.Grammar.Basic
set_option autoImplicit false

/-!
# Derivations

What a grammar says about sequences of terminals, without a walk. Three relations tell it, and all
that is claimed of walks is claimed in terms of them.

* `Derives` relates an element to the sequences that it derives on servers of a version.
* `Reaches` is the partial derivation: the element has derived some terminals, some rules are open,
  and a terminal, a name or a rule is next.
* `Consumes` is a derivation that is whole again, with one of its terminals pointed out.

A derivation up to a terminal that it consumes is a partial derivation (`Consumes.reaches`), and
what must follow the terminal in its sequence is what the derivation goes on with
(`Consumes.following`). A partial derivation splits at each rule that is open (`Reaches.split`), so
its open rules are a chain of references (`Reaches.invocations`). That a partial derivation is the
first part of a derivation is not true of every grammar and not said here.

A rule is left recursive when its own body reaches it before any terminal; references that go down
by some measure exclude that (`not_leftRecursive_of_rank`). An element takes something when it does
not derive the empty sequence, which can be read off the bodies of the rules (`Derives.ne_nil`).
Both tests are sufficient and not necessary.
-/

namespace SqlCompletion

/-- What a partial derivation has next. A terminal comes with what follows it in its sequence. -/
inductive Spot where
  | token (t : Terminal) (follow : List Element)
  | ident
  | rule (r : Rule)
  deriving Repr, Inhabited

/-- The rule that the spot would open. -/
def Spot.opens : Spot → List Rule
  | token _ _ => []
  | ident => []
  | rule r => [r]

/-- What follows the alternatives of a choice: that which follows the choice where all of them
are terminals, and nothing otherwise. -/
def Element.choiceFollow (alternatives : List Element) (follow : List Element) : List Element :=
  if (Element.choice alternatives).tokenSet?.isSome then follow else []

namespace Grammar

section

variable (g : Grammar) (v : Version)

/-- The sequences of terminals that an element derives on servers of the version. -/
inductive Derives : Element → List Terminal → Prop
  | token (t : Terminal) : Derives (.token t) [t]
  | ident {t : Terminal} (name : t.isNameLike = true) : Derives .ident [t]
  | rule {r : Rule} {body : Element} {w : List Terminal} (defined : g.body? r = some body)
      (inner : Derives body w) : Derives (.rule r) w
  | seqNil : Derives (.seq []) []
  | seqCons {e : Element} {rest : List Element} {u w : List Terminal} (head : Derives e u)
      (tail : Derives (.seq rest) w) : Derives (.seq (e :: rest)) (u ++ w)
  | choice {e : Element} {alternatives : List Element} {w : List Terminal}
      (chosen : e ∈ alternatives) (inner : Derives e w) : Derives (.choice alternatives) w
  | optNone (e : Element) : Derives (.opt e) []
  | optSome {e : Element} {w : List Terminal} (inner : Derives e w) : Derives (.opt e) w
  | starNil (e : Element) : Derives (.star e) []
  | starCons {e : Element} {u w : List Terminal} (head : Derives e u)
      (tail : Derives (.star e) w) : Derives (.star e) (u ++ w)
  | plus {e : Element} {u w : List Terminal} (head : Derives e u) (tail : Derives (.star e) w) :
      Derives (.plus e) (u ++ w)
  | since {u : Version} {e : Element} {w : List Terminal} (gate : u ≤ v) (inner : Derives e w) :
      Derives (.since u e) w
  | before {u : Version} {e : Element} {w : List Terminal} (gate : v < u) (inner : Derives e w) :
      Derives (.before u e) w

/-- Partial derivations: `Reaches e follow w chain spot` says that the element, with `follow`
behind it in its sequence, derives `w` up to a point where `spot` is next, and that the rules in
`chain`, outermost first, are open there. -/
inductive Reaches : Element → List Element → List Terminal → List Rule → Spot → Prop
  | token (t : Terminal) (follow : List Element) :
      Reaches (.token t) follow [] [] (.token t follow)
  | ident (follow : List Element) : Reaches .ident follow [] [] .ident
  | call (r : Rule) (follow : List Element) : Reaches (.rule r) follow [] [] (.rule r)
  | enter {r : Rule} {body : Element} {follow : List Element} {w : List Terminal}
      {chain : List Rule} {spot : Spot} (defined : g.body? r = some body)
      (inner : Reaches body [] w chain spot) : Reaches (.rule r) follow w (r :: chain) spot
  | seqHead {e : Element} {rest follow : List Element} {w : List Terminal} {chain : List Rule}
      {spot : Spot} (inner : Reaches e rest w chain spot) :
      Reaches (.seq (e :: rest)) follow w chain spot
  | seqTail {e : Element} {rest follow : List Element} {u w : List Terminal} {chain : List Rule}
      {spot : Spot} (head : Derives g v e u) (inner : Reaches (.seq rest) follow w chain spot) :
      Reaches (.seq (e :: rest)) follow (u ++ w) chain spot
  | choice {e : Element} {alternatives follow : List Element} {w : List Terminal}
      {chain : List Rule} {spot : Spot} (chosen : e ∈ alternatives)
      (inner : Reaches e (Element.choiceFollow alternatives follow) w chain spot) :
      Reaches (.choice alternatives) follow w chain spot
  | opt {e : Element} {follow : List Element} {w : List Terminal} {chain : List Rule}
      {spot : Spot} (inner : Reaches e [] w chain spot) : Reaches (.opt e) follow w chain spot
  | star {e : Element} {follow : List Element} {u w : List Terminal} {chain : List Rule}
      {spot : Spot} (rounds : Derives g v (.star e) u) (inner : Reaches e [] w chain spot) :
      Reaches (.star e) follow (u ++ w) chain spot
  | plus {e : Element} {follow : List Element} {u w : List Terminal} {chain : List Rule}
      {spot : Spot} (rounds : Derives g v (.star e) u) (inner : Reaches e [] w chain spot) :
      Reaches (.plus e) follow (u ++ w) chain spot
  | since {u : Version} {e : Element} {follow : List Element} {w : List Terminal}
      {chain : List Rule} {spot : Spot} (gate : u ≤ v) (inner : Reaches e follow w chain spot) :
      Reaches (.since u e) follow w chain spot
  | before {u : Version} {e : Element} {follow : List Element} {w : List Terminal}
      {chain : List Rule} {spot : Spot} (gate : v < u) (inner : Reaches e follow w chain spot) :
      Reaches (.before u e) follow w chain spot

/-- Derivations with one terminal pointed out: the element derives `u ++ t :: w`, and the terminal
`t` behind `u` is consumed by an element that is this terminal, has `next` behind it in its
sequence, and stands inside the rules in `chain`. -/
inductive Consumes : Element → List Element → List Terminal → List Rule → Terminal →
    List Element → List Terminal → Prop
  | token (t : Terminal) (follow : List Element) : Consumes (.token t) follow [] [] t follow []
  | rule {r : Rule} {body : Element} {follow : List Element} {u w : List Terminal}
      {chain : List Rule} {t : Terminal} {next : List Element} (defined : g.body? r = some body)
      (inner : Consumes body [] u chain t next w) :
      Consumes (.rule r) follow u (r :: chain) t next w
  | seqHead {e : Element} {rest follow : List Element} {u w z : List Terminal}
      {chain : List Rule} {t : Terminal} {next : List Element}
      (inner : Consumes e rest u chain t next w) (tail : Derives g v (.seq rest) z) :
      Consumes (.seq (e :: rest)) follow u chain t next (w ++ z)
  | seqTail {e : Element} {rest follow : List Element} {u u' w : List Terminal}
      {chain : List Rule} {t : Terminal} {next : List Element} (head : Derives g v e u)
      (inner : Consumes (.seq rest) follow u' chain t next w) :
      Consumes (.seq (e :: rest)) follow (u ++ u') chain t next w
  | choice {e : Element} {alternatives follow : List Element} {u w : List Terminal}
      {chain : List Rule} {t : Terminal} {next : List Element} (chosen : e ∈ alternatives)
      (inner : Consumes e (Element.choiceFollow alternatives follow) u chain t next w) :
      Consumes (.choice alternatives) follow u chain t next w
  | opt {e : Element} {follow : List Element} {u w : List Terminal} {chain : List Rule}
      {t : Terminal} {next : List Element} (inner : Consumes e [] u chain t next w) :
      Consumes (.opt e) follow u chain t next w
  | star {e : Element} {follow : List Element} {u u' w z : List Terminal} {chain : List Rule}
      {t : Terminal} {next : List Element} (rounds : Derives g v (.star e) u)
      (inner : Consumes e [] u' chain t next w) (more : Derives g v (.star e) z) :
      Consumes (.star e) follow (u ++ u') chain t next (w ++ z)
  | plus {e : Element} {follow : List Element} {u u' w z : List Terminal} {chain : List Rule}
      {t : Terminal} {next : List Element} (rounds : Derives g v (.star e) u)
      (inner : Consumes e [] u' chain t next w) (more : Derives g v (.star e) z) :
      Consumes (.plus e) follow (u ++ u') chain t next (w ++ z)
  | since {x : Version} {e : Element} {follow : List Element} {u w : List Terminal}
      {chain : List Rule} {t : Terminal} {next : List Element} (gate : x ≤ v)
      (inner : Consumes e follow u chain t next w) :
      Consumes (.since x e) follow u chain t next w
  | before {x : Version} {e : Element} {follow : List Element} {u w : List Terminal}
      {chain : List Rule} {t : Terminal} {next : List Element} (gate : v < x)
      (inner : Consumes e follow u chain t next w) :
      Consumes (.before x e) follow u chain t next w

/-- The rule is reached from its own body before any terminal. -/
def LeftRecursive (r : Rule) : Prop :=
  ∃ body chain, g.body? r = some body ∧ Reaches g v body [] [] chain (.rule r)

end

/-- The body of the first rule refers to the second. -/
def Invokes (g : Grammar) (r s : Rule) : Prop := ∃ body, g.body? r = some body ∧ s ∈ body.rules

variable {g : Grammar} {v : Version}

/-! ## Repetitions -/

/-- Some rounds of a repetition, and then some more. -/
theorem Derives.star_append {e : Element} {u w : List Terminal}
    (h : Derives g v (.star e) u) (hw : Derives g v (.star e) w) :
    Derives g v (.star e) (u ++ w) := by
  generalize hs : Element.star e = s at h
  induction h with
  | starNil =>
    cases hs
    rwa [List.nil_append]
  | starCons head _ _ ih =>
    cases hs
    rw [List.append_assoc]
    exact .starCons head (ih rfl)
  | _ => cases hs

/-- Some rounds of a repetition in front of at least one. -/
theorem Derives.plus_append {e : Element} {u w : List Terminal}
    (h : Derives g v (.star e) u) (hw : Derives g v (.plus e) w) :
    Derives g v (.plus e) (u ++ w) := by
  cases hw with
  | plus head tail =>
    cases h with
    | starNil =>
      rw [List.nil_append]
      exact .plus head tail
    | starCons first rounds =>
      rw [List.append_assoc]
      exact .plus first (rounds.star_append (.starCons head tail))

/-! ## Open rules -/

/-- A partial derivation splits at each rule that is open: up to the reference to that rule, and
from there on inside the rule. -/
theorem Reaches.split {e : Element} {follow : List Element} {w : List Terminal}
    {chain : List Rule} {spot : Spot} (h : Reaches g v e follow w chain spot) {outer : List Rule}
    {r : Rule} {inner : List Rule} (hchain : chain = outer ++ r :: inner) :
    ∃ u w' body, w = u ++ w' ∧ Reaches g v e follow u outer (.rule r) ∧
      g.body? r = some body ∧ Reaches g v body [] w' inner spot := by
  induction h generalizing outer with
  | token | ident | call => cases outer <;> cases hchain
  | @enter r' body follow w chain spot defined hinner ih =>
    cases outer with
    | nil =>
      cases hchain
      exact ⟨[], w, body, rfl, .call r follow, defined, hinner⟩
    | cons r'' outer =>
      obtain ⟨rfl, hrest⟩ := List.cons.inj hchain
      obtain ⟨u, w', b, rfl, hu, hb, hw⟩ := ih hrest
      exact ⟨u, w', b, rfl, .enter defined hu, hb, hw⟩
  | seqHead _ ih =>
    obtain ⟨u, w', b, rfl, hu, hb, hw⟩ := ih hchain
    exact ⟨u, w', b, rfl, .seqHead hu, hb, hw⟩
  | @seqTail _ _ _ u₀ _ _ _ head _ ih =>
    obtain ⟨u, w', b, rfl, hu, hb, hw⟩ := ih hchain
    exact ⟨u₀ ++ u, w', b, (List.append_assoc ..).symm, .seqTail head hu, hb, hw⟩
  | choice chosen _ ih =>
    obtain ⟨u, w', b, rfl, hu, hb, hw⟩ := ih hchain
    exact ⟨u, w', b, rfl, .choice chosen hu, hb, hw⟩
  | opt _ ih =>
    obtain ⟨u, w', b, rfl, hu, hb, hw⟩ := ih hchain
    exact ⟨u, w', b, rfl, .opt hu, hb, hw⟩
  | @star _ _ u₀ _ _ _ rounds _ ih =>
    obtain ⟨u, w', b, rfl, hu, hb, hw⟩ := ih hchain
    exact ⟨u₀ ++ u, w', b, (List.append_assoc ..).symm, .star rounds hu, hb, hw⟩
  | @plus _ _ u₀ _ _ _ rounds _ ih =>
    obtain ⟨u, w', b, rfl, hu, hb, hw⟩ := ih hchain
    exact ⟨u₀ ++ u, w', b, (List.append_assoc ..).symm, .plus rounds hu, hb, hw⟩
  | since gate _ ih =>
    obtain ⟨u, w', b, rfl, hu, hb, hw⟩ := ih hchain
    exact ⟨u, w', b, rfl, .since gate hu, hb, hw⟩
  | before gate _ ih =>
    obtain ⟨u, w', b, rfl, hu, hb, hw⟩ := ih hchain
    exact ⟨u, w', b, rfl, .before gate hu, hb, hw⟩

end Grammar

namespace Element

theorem mem_rulesOf {e : Element} {es : List Element} {r : Rule} (he : e ∈ es)
    (hr : r ∈ e.rules) : r ∈ rulesOf es := by
  induction es with
  | nil => cases he
  | cons e' es ih =>
    rw [rulesOf, List.mem_append]
    rcases List.mem_cons.1 he with rfl | he
    · exact .inl hr
    · exact .inr (ih he)

end Element

namespace Grammar

variable {g : Grammar} {v : Version}

/-- The open rules, and the rule that is next where it is one, are a chain of references: the
first is one of the element, and each other one of the body of the rule in front of it. -/
theorem Reaches.invocations {e : Element} {follow : List Element} {w : List Terminal}
    {chain : List Rule} {spot : Spot} (h : Reaches g v e follow w chain spot) :
    (∀ r ∈ (chain ++ spot.opens).head?, r ∈ e.rules) ∧
      (chain ++ spot.opens).IsChain g.Invokes := by
  induction h with
  | token | ident => simp [Spot.opens]
  | call r => simp [Spot.opens, Element.rules]
  | @enter r body _ _ chain spot defined _ ih =>
    refine ⟨by simp [Element.rules], ?_⟩
    exact ih.2.cons fun s hs => ⟨body, defined, ih.1 s hs⟩
  | seqHead _ ih =>
    refine ⟨fun r hr => ?_, ih.2⟩
    rw [Element.rules, Element.rulesOf]
    exact List.mem_append_left _ (ih.1 r hr)
  | seqTail _ _ ih =>
    refine ⟨fun r hr => ?_, ih.2⟩
    rw [Element.rules, Element.rulesOf]
    have hmem := ih.1 r hr
    rw [Element.rules] at hmem
    exact List.mem_append_right _ hmem
  | choice chosen _ ih =>
    refine ⟨fun r hr => ?_, ih.2⟩
    rw [Element.rules]
    exact Element.mem_rulesOf chosen (ih.1 r hr)
  | opt _ ih | star _ _ ih | plus _ _ ih | since _ _ ih | before _ _ ih =>
    exact ⟨fun r hr => by simpa [Element.rules] using ih.1 r hr, ih.2⟩

/-- From the entry rule only rules that the grammar uses are opened or come next. -/
theorem Reaches.mem_usedRules {follow : List Element} {w : List Terminal} {chain : List Rule}
    {spot : Spot} {r : Rule} (h : Reaches g v (.rule g.entry) follow w chain spot)
    (hr : r ∈ chain ++ spot.opens) : r ∈ g.usedRules := by
  obtain ⟨hhead, hchain⟩ := h.invocations
  have hfirst : ∀ s ∈ (chain ++ spot.opens).head?, s ∈ g.usedRules := by
    intro s hs
    obtain rfl : s = g.entry := by simpa [Element.rules] using hhead s hs
    exact g.entry_mem_usedRules
  generalize chain ++ spot.opens = rules at hr hchain hfirst
  clear hhead
  induction rules with
  | nil => cases hr
  | cons s rules ih =>
    obtain ⟨hnext, hrest⟩ := List.isChain_cons.1 hchain
    rcases List.mem_cons.1 hr with rfl | hr
    · exact hfirst r rfl
    · refine ih hr hrest fun t ht => ?_
      obtain ⟨body, hbody, ht⟩ := hnext t ht
      exact mem_usedRules_of_body? hbody ht

/-- The rule that stands somewhere on the chain, with the next one at its end, is next or open. -/
theorem next_or_open {chain around rest : List Rule} {spot : Spot} {r : Rule}
    (h : chain ++ spot.opens = around ++ r :: rest) :
    (chain = around ∧ spot = .rule r) ∨ ∃ inner, chain = around ++ r :: inner := by
  cases spot with
  | token | ident =>
    rw [Spot.opens, List.append_nil] at h
    exact .inr ⟨rest, h⟩
  | rule s =>
    rw [Spot.opens] at h
    rcases List.eq_nil_or_concat rest with rfl | ⟨inner, last, rfl⟩
    · obtain ⟨rfl, hs⟩ := List.append_inj' h rfl
      cases hs
      exact .inl ⟨rfl, rfl⟩
    · refine .inr ⟨inner, ?_⟩
      have hinj : chain ++ [s] = (around ++ r :: inner) ++ [last] := by simpa using h
      exact (List.append_inj' hinj rfl).1

end Grammar

namespace Element

mutual

/-- The terminals that stand in an element, each with what follows it in its sequence, where
`follow` stands behind the element. -/
def places (follow : List Element) : Element → List (Terminal × List Element)
  | token t => [(t, follow)]
  | ident => []
  | rule _ => []
  | seq items => seqPlaces items
  | choice alternatives => choicePlaces (choiceFollow alternatives follow) alternatives
  | opt e => e.places []
  | star e => e.places []
  | plus e => e.places []
  | since _ e => e.places follow
  | before _ e => e.places follow

/-- The terminals that stand in a sequence. -/
def seqPlaces : List Element → List (Terminal × List Element)
  | [] => []
  | e :: rest => e.places rest ++ seqPlaces rest

/-- The terminals that stand in some alternatives. -/
def choicePlaces (follow : List Element) : List Element → List (Terminal × List Element)
  | [] => []
  | e :: es => e.places follow ++ choicePlaces follow es

end

theorem mem_choicePlaces {e : Element} {es follow : List Element} {p : Terminal × List Element}
    (he : e ∈ es) (hp : p ∈ e.places follow) : p ∈ choicePlaces follow es := by
  induction es with
  | nil => cases he
  | cons e' es ih =>
    rw [choicePlaces, List.mem_append]
    rcases List.mem_cons.1 he with rfl | he
    · exact .inl hp
    · exact .inr (ih he)

end Element

namespace Grammar

variable {g : Grammar} {v : Version}

/-- A terminal that is next stands in the body of the rule opened last, or in the element itself
where no rule is open. -/
theorem Reaches.place {e : Element} {follow next : List Element} {w : List Terminal}
    {chain : List Rule} {t : Terminal} (h : Reaches g v e follow w chain (.token t next)) :
    (chain = [] ∧ (t, next) ∈ e.places follow) ∨
      ∃ r body, chain.getLast? = some r ∧ g.body? r = some body ∧ (t, next) ∈ body.places [] := by
  generalize hspot : Spot.token t next = spot at h
  induction h with
  | token =>
    cases hspot
    exact .inl ⟨rfl, by simp [Element.places]⟩
  | ident | call => cases hspot
  | @enter r body _ _ chain _ defined _ ih =>
    right
    rcases ih hspot with ⟨rfl, hplace⟩ | ⟨s, inner, hlast, hbody, hplace⟩
    · exact ⟨r, body, rfl, defined, hplace⟩
    · exact ⟨s, inner, by rw [List.getLast?_cons, hlast]; rfl, hbody, hplace⟩
  | seqHead _ ih =>
    refine (ih hspot).imp_left fun ⟨hchain, hplace⟩ => ⟨hchain, ?_⟩
    rw [Element.places, Element.seqPlaces]
    exact List.mem_append_left _ hplace
  | seqTail _ _ ih =>
    refine (ih hspot).imp_left fun ⟨hchain, hplace⟩ => ⟨hchain, ?_⟩
    rw [Element.places] at hplace
    rw [Element.places, Element.seqPlaces]
    exact List.mem_append_right _ hplace
  | choice chosen _ ih =>
    refine (ih hspot).imp_left fun ⟨hchain, hplace⟩ => ⟨hchain, ?_⟩
    rw [Element.places]
    exact Element.mem_choicePlaces chosen hplace
  | opt _ ih | star _ _ ih | plus _ _ ih | since _ _ ih | before _ _ ih =>
    refine (ih hspot).imp_left fun ⟨hchain, hplace⟩ => ⟨hchain, ?_⟩
    rwa [Element.places]

/-! ## Consumed terminals -/

/-- A derivation with a terminal pointed out is a derivation. -/
theorem Consumes.derives {e : Element} {follow : List Element} {u w : List Terminal}
    {chain : List Rule} {t : Terminal} {next : List Element}
    (h : Consumes g v e follow u chain t next w) : Derives g v e (u ++ t :: w) := by
  induction h with
  | token t => exact .token t
  | rule defined _ ih => exact .rule defined ih
  | seqHead _ tail ih => simpa using Derives.seqCons ih tail
  | seqTail head _ ih => simpa using Derives.seqCons head ih
  | choice chosen _ ih => exact .choice chosen ih
  | opt _ ih => exact .optSome ih
  | star rounds _ more ih => simpa using rounds.star_append (.starCons ih more)
  | plus rounds _ more ih => simpa using rounds.plus_append (.plus ih more)
  | since gate _ ih => exact .since gate ih
  | before gate _ ih => exact .before gate ih

/-- A terminal in two parts of a sequence stands in the second part or in the first. -/
theorem append_eq_append_cons {head tail u w : List Terminal} {t : Terminal}
    (h : head ++ tail = u ++ t :: w) :
    (∃ u', u = head ++ u' ∧ tail = u' ++ t :: w) ∨ ∃ w', head = u ++ t :: w' := by
  rcases List.append_eq_append_iff.1 h with hsecond | ⟨more, rfl, hmore⟩
  · exact .inl hsecond
  · cases more with
    | nil => exact .inl ⟨[], by simp, hmore.symm⟩
    | cons x more =>
      obtain ⟨rfl, -⟩ := List.cons.inj hmore
      exact .inr ⟨more, rfl⟩

/-- In front of a terminal that is no name, a derivation is a partial derivation with that terminal
next. -/
theorem Derives.exists_reaches {e : Element} {input : List Terminal} (h : Derives g v e input)
    {u w : List Terminal} {t : Terminal} (hinput : input = u ++ t :: w)
    (hname : t.isNameLike = false) (follow : List Element) :
    ∃ chain next, Reaches g v e follow u chain (.token t next) := by
  induction h generalizing u w follow with
  | token t' =>
    cases u with
    | nil =>
      obtain ⟨rfl, -⟩ := List.cons.inj hinput
      exact ⟨[], follow, .token t' follow⟩
    | cons x u => simp at hinput
  | ident name =>
    cases u with
    | nil =>
      obtain ⟨rfl, -⟩ := List.cons.inj hinput
      rw [name] at hname
      cases hname
    | cons x u => simp at hinput
  | rule defined _ ih =>
    obtain ⟨chain, next, hreach⟩ := ih hinput []
    exact ⟨_, next, .enter defined hreach⟩
  | seqNil | optNone | starNil => simp at hinput
  | seqCons head _ ihHead ihTail =>
    rcases append_eq_append_cons hinput with ⟨u', rfl, htail⟩ | ⟨w', hhead⟩
    · obtain ⟨chain, next, hreach⟩ := ihTail htail follow
      exact ⟨chain, next, .seqTail head hreach⟩
    · obtain ⟨chain, next, hreach⟩ := ihHead hhead _
      exact ⟨chain, next, .seqHead hreach⟩
  | choice chosen _ ih =>
    obtain ⟨chain, next, hreach⟩ := ih hinput _
    exact ⟨chain, next, .choice chosen hreach⟩
  | optSome _ ih =>
    obtain ⟨chain, next, hreach⟩ := ih hinput []
    exact ⟨chain, next, .opt hreach⟩
  | @starCons e _ _ head _ ihHead ihTail =>
    rcases append_eq_append_cons hinput with ⟨u', rfl, htail⟩ | ⟨w', hhead⟩
    · -- A later round has the terminal; this one comes in front of the rounds that it has.
      obtain ⟨chain, next, hreach⟩ := ihTail htail follow
      cases hreach with
      | star rounds inner =>
        rw [← List.append_assoc]
        exact ⟨chain, next, .star (.starCons head rounds) inner⟩
    · obtain ⟨chain, next, hreach⟩ := ihHead hhead []
      exact ⟨chain, next, .star (.starNil e) hreach⟩
  | @plus e _ _ head _ ihHead ihTail =>
    rcases append_eq_append_cons hinput with ⟨u', rfl, htail⟩ | ⟨w', hhead⟩
    · obtain ⟨chain, next, hreach⟩ := ihTail htail follow
      cases hreach with
      | star rounds inner =>
        rw [← List.append_assoc]
        exact ⟨chain, next, .plus (.starCons head rounds) inner⟩
    · obtain ⟨chain, next, hreach⟩ := ihHead hhead []
      exact ⟨chain, next, .plus (.starNil e) hreach⟩
  | since gate _ ih =>
    obtain ⟨chain, next, hreach⟩ := ih hinput follow
    exact ⟨chain, next, .since gate hreach⟩
  | before gate _ ih =>
    obtain ⟨chain, next, hreach⟩ := ih hinput follow
    exact ⟨chain, next, .before gate hreach⟩

/-- Up to a terminal that a derivation consumes, it is a partial derivation. -/
theorem Consumes.reaches {e : Element} {follow : List Element} {u w : List Terminal}
    {chain : List Rule} {t : Terminal} {next : List Element}
    (h : Consumes g v e follow u chain t next w) :
    Reaches g v e follow u chain (.token t next) := by
  induction h with
  | token t follow => exact .token t follow
  | rule defined _ ih => exact .enter defined ih
  | seqHead _ _ ih => exact .seqHead ih
  | seqTail head _ ih => exact .seqTail head ih
  | choice chosen _ ih => exact .choice chosen ih
  | opt _ ih => exact .opt ih
  | star rounds _ _ ih => exact .star rounds ih
  | plus rounds _ _ ih => exact .plus rounds ih
  | since gate _ ih => exact .since gate ih
  | before gate _ ih => exact .before gate ih

/-! ## What must follow -/

theorem Derives.token_seq {t : Terminal} {rest : List Element} {z : List Terminal}
    (h : Derives g v (.seq (.token t :: rest)) z) :
    ∃ z', z = t :: z' ∧ Derives g v (.seq rest) z' := by
  cases h with
  | seqCons head tail =>
    cases head
    exact ⟨_, rfl, tail⟩

/-- Whatever a sequence derives starts with the keywords at its start. -/
theorem Derives.keywordRun_prefix {rest : List Element} {z : List Terminal}
    (h : Derives g v (.seq rest) z) : followingTerminals.keywordRun rest <+: z := by
  fun_induction followingTerminals.keywordRun rest generalizing z with
  | case1 t rest ignored => exact List.nil_prefix
  | case2 t rest _ ih =>
    obtain ⟨z', rfl, hz'⟩ := h.token_seq
    exact List.cons_prefix_cons.2 ⟨rfl, ih hz'⟩
  | case3 => exact List.nil_prefix

/-- Whatever a sequence derives starts with the terminals that must stand at its start. -/
theorem Derives.following_prefix {rest : List Element} {z : List Terminal}
    (h : Derives g v (.seq rest) z) : followingTerminals rest <+: z := by
  unfold followingTerminals
  split
  · obtain ⟨z', rfl, hz'⟩ := h.token_seq
    split
    · exact List.cons_prefix_cons.2 ⟨rfl, List.nil_prefix⟩
    · split
      · exact List.nil_prefix
      · exact List.cons_prefix_cons.2 ⟨rfl, hz'.keywordRun_prefix⟩
  · exact List.nil_prefix

/-- What follows a terminal in its sequence is what a derivation goes on with. The sequence can be
the one around the element: then the terminal is the last of what the element derives. -/
theorem Consumes.following {e : Element} {follow : List Element} {u w : List Terminal}
    {chain : List Rule} {t : Terminal} {next : List Element}
    (h : Consumes g v e follow u chain t next w) :
    (next = follow ∧ w = []) ∨ followingTerminals next <+: w := by
  induction h with
  | token => exact .inl ⟨rfl, rfl⟩
  | seqHead _ tail ih =>
    rcases ih with ⟨rfl, rfl⟩ | ih
    · exact .inr tail.following_prefix
    · exact .inr (ih.trans (List.prefix_append ..))
  | seqTail _ _ ih => exact ih
  | @choice _ alternatives follow _ _ _ _ _ _ _ ih =>
    unfold Element.choiceFollow at ih
    split at ih
    · exact ih
    · rcases ih with ⟨rfl, -⟩ | ih
      · exact .inr List.nil_prefix
      · exact .inr ih
  | rule _ _ ih | opt _ ih =>
    rcases ih with ⟨rfl, -⟩ | ih
    · exact .inr List.nil_prefix
    · exact .inr ih
  | star _ _ _ ih | plus _ _ _ ih =>
    rcases ih with ⟨rfl, -⟩ | ih
    · exact .inr List.nil_prefix
    · exact .inr (ih.trans (List.prefix_append ..))
  | since _ _ ih | before _ _ ih => exact ih

/-! ## Grammars without left recursion -/

/-- Where all references go down by some measure, no rule is left recursive. -/
theorem not_leftRecursive_of_rank (rank : Rule → Nat)
    (hrank : ∀ r s, g.Invokes r s → rank s < rank r) (r : Rule) : ¬g.LeftRecursive v r := by
  rintro ⟨body, chain, hbody, hreach⟩
  obtain ⟨hhead, hchain⟩ := hreach.invocations
  have hloop : (r :: (chain ++ [r])).IsChain fun s t => rank t < rank s :=
    (hchain.cons fun s hs => ⟨body, hbody, hhead s hs⟩).imp fun s t h => hrank s t h
  have htrans : IsTrans Rule fun s t => rank t < rank s := ⟨fun _ _ _ h h' => h'.trans h⟩
  have hpairs := List.isChain_iff_pairwise.1 hloop
  have hless := (List.pairwise_cons.1 hpairs).1 r (List.mem_append_right _ List.mem_cons_self)
  exact Nat.lt_irrefl _ hless

end Grammar

/-! ## Elements that take something -/

namespace Element

mutual

/-- The element derives no empty sequence where the rules that are marked derive none. -/
def takes (marked : Rule → Bool) : Element → Bool
  | token _ => true
  | ident => true
  | rule r => marked r
  | seq items => someTakes marked items
  | choice alternatives => allTake marked alternatives
  | opt _ => false
  | star _ => false
  | plus e => e.takes marked
  | since _ e => e.takes marked
  | before _ e => e.takes marked

/-- One of the elements takes something. -/
def someTakes (marked : Rule → Bool) : List Element → Bool
  | [] => false
  | e :: es => e.takes marked || someTakes marked es

/-- All of the elements take something. -/
def allTake (marked : Rule → Bool) : List Element → Bool
  | [] => true
  | e :: es => e.takes marked && allTake marked es

end

theorem takes_of_allTake {marked : Rule → Bool} {es : List Element} (h : allTake marked es = true)
    {e : Element} (he : e ∈ es) : e.takes marked = true := by
  induction es with
  | nil => cases he
  | cons e' es ih =>
    rw [allTake, Bool.and_eq_true] at h
    rcases List.mem_cons.1 he with rfl | he
    · exact h.1
    · exact ih h.2 he

end Element

namespace Grammar

variable {g : Grammar} {v : Version}

/-- Every rule that is marked has a body that takes something, as far as the marks tell. -/
def TakesMarked (g : Grammar) (marked : Rule → Bool) : Prop :=
  ∀ r body, marked r = true → g.body? r = some body → body.takes marked = true

theorem Derives.ne_nil {marked : Rule → Bool} (hmarked : g.TakesMarked marked) {e : Element}
    {w : List Terminal} (h : Derives g v e w) (he : e.takes marked = true) : w ≠ [] := by
  induction h with
  | token | ident => exact List.cons_ne_nil _ _
  | rule defined _ ih => exact ih (hmarked _ _ he defined)
  | seqNil => cases he
  | seqCons _ _ ihHead ihTail =>
    rw [Element.takes, Element.someTakes, Bool.or_eq_true] at he
    intro hnil
    obtain ⟨rfl, rfl⟩ := List.append_eq_nil_iff.1 hnil
    rcases he with he | he
    · exact ihHead he rfl
    · exact ihTail he rfl
  | choice chosen _ ih => exact ih (Element.takes_of_allTake he chosen)
  | optNone | optSome | starNil | starCons => cases he
  | plus _ _ ihHead =>
    intro hnil
    exact ihHead he (List.append_eq_nil_iff.1 hnil).1
  | since _ _ ih | before _ _ ih => exact ih he

end Grammar

end SqlCompletion
