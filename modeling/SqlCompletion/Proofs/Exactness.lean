import SqlCompletion.Proofs.Gathering
import SqlCompletion.Proofs.Layer
set_option autoImplicit false

/-!
# A walk gathers all ways and nothing else

Every part of a walk stands somewhere: it is inside the rules on its path, and ways and partial
derivations lead there from the entry rule (`Stands`). Under that, a part of a walk goes along all
ways and no others: it ends at ways only and, unless something was cut off, at all of them, and
notes all that they demand (`YieldsWays`).

* An element is walked along all its ways where the rules that it calls are (`walk_yields`). The
  plan of an element serves its layer (`Stands.serves`), and its notes and calls run on a course
  (`VisitsWays.course`). There is no induction on the element here.
* A rule is walked along all its ways, whatever room there is (`walkRule_yields`), by induction on
  the room that is left for open rules. A rule is held, or known from the memory, or searched for,
  and is cut off where there is no room, where it is open at its position already, or where it has
  no body.
* The whole walk is the case of the entry rule (`run_outcome`).

A rule without a body has no ways, so the cut for it takes nothing away. The other two cuts do take
ways away, and where one of them was made the ends and notes are only known to be some of those of
the ways. A rule that is open at its position is left recursive (`Stands.leftRecursive`), so that a
grammar can be known to make no such cut. Ways are what walks go along; how they compare with
derivations is told elsewhere.
-/

namespace SqlCompletion.Walk

open Grammar (Derives Reaches LeftRecursive)

variable {c : Setting} {path : Path} {e e' : Element} {follow follow' : List Element} {p p' : Nat}

/-! ## Where a part of a walk stands -/

@[simp] theorem chain_cons (f : Frame) (path : Path) :
    chain (f :: path) = chain path ++ [f.rule] := by
  simp [chain]

theorem preferredIn_cons (f : Frame) (path : Path) :
    preferredIn (f :: path) = (preferredIn path).or ([f.rule].find? Rule.isPreferred) := by
  rw [preferredIn, chain_cons, List.find?_append, preferredIn]

theorem isSome_preferredIn_cons (f : Frame) (path : Path) :
    (preferredIn (f :: path)).isSome = ((preferredIn path).isSome || f.rule.isPreferred) := by
  rw [preferredIn_cons]
  cases hr : f.rule.isPreferred <;> simp [hr]

/-- A part of a walk that goes through an element from a position, inside the rules on the path,
is where ways and partial derivations from the entry rule lead. Each frame holds a rule whose body
leads there too. -/
structure Stands (c : Setting) (path : Path) (e : Element) (follow : List Element) (p : Nat) :
    Prop where
  le_caret : p ≤ c.caret
  fromEntry : ∀ {inner : List Rule} {spot : Spot},
    Arrives c (preferredIn path).isSome e follow p inner spot →
    c.Ways (chain path ++ inner) spot
  fromStart : ∃ u, c.Spells 0 u p ∧ ∀ {w : List Terminal} {inner : List Rule} {spot : Spot},
    Reaches c.grammar c.version e follow w inner spot →
    Reaches c.grammar c.version (.rule c.grammar.entry) [] (u ++ w) (chain path ++ inner) spot
  fromFrame : ∀ f ∈ path, ∃ body outer u, c.grammar.body? f.rule = some body ∧
    c.Spells f.start u p ∧ ∀ {w : List Terminal} {inner : List Rule} {spot : Spot},
      Reaches c.grammar c.version e follow w inner spot →
      Reaches c.grammar c.version body [] (u ++ w) (outer ++ inner) spot

theorem stands_entry (c : Setting) : Stands c [] (.rule c.grammar.entry) [] 0 where
  le_caret := Nat.zero_le _
  fromEntry := fun h => h
  fromStart := ⟨[], .nil 0, fun h => h⟩
  fromFrame := fun _ hf => absurd hf List.not_mem_nil

theorem Stands.lead (h : Stands c path e follow p)
    (hlead : Leads c (preferredIn path).isSome e follow p e' follow' p') :
    Stands c path e' follow' p' := by
  obtain ⟨u', hu', hpart⟩ := hlead.reaches
  refine {
    le_caret := hu'.le_caret h.le_caret
    fromEntry := fun harrive => h.fromEntry (hlead.arrives harrive)
    fromStart := ?_
    fromFrame := ?_ }
  · obtain ⟨u, hu, hstart⟩ := h.fromStart
    refine ⟨u ++ u', hu.append hu', fun hreach => ?_⟩
    rw [List.append_assoc]
    exact hstart (hpart hreach)
  · intro f hf
    obtain ⟨body, outer, u, hbody, hu, hfrom⟩ := h.fromFrame f hf
    refine ⟨body, outer, u ++ u', hbody, hu.append hu', fun hreach => ?_⟩
    rw [List.append_assoc]
    exact hfrom (hpart hreach)

/-- A rule that is not held is entered. -/
theorem Stands.enter {r : Rule} {body : Element} (h : Stands c path (.rule r) follow p)
    (free : ¬c.Held (preferredIn path).isSome r p) (defined : c.grammar.body? r = some body) :
    Stands c (⟨r, p⟩ :: path) body [] p where
  le_caret := h.le_caret
  fromEntry := by
    intro inner spot harrive
    rw [isSome_preferredIn_cons] at harrive
    rw [chain_cons, List.append_assoc]
    exact h.fromEntry (.enter free defined harrive)
  fromStart := by
    obtain ⟨u, hu, hstart⟩ := h.fromStart
    refine ⟨u, hu, fun hreach => ?_⟩
    rw [chain_cons, List.append_assoc]
    exact hstart (.enter defined hreach)
  fromFrame := by
    intro f hf
    rcases List.mem_cons.1 hf with rfl | hf
    · exact ⟨body, [], [], defined, .nil p, fun hreach => hreach⟩
    · obtain ⟨body', outer, u, hbody, hu, hfrom⟩ := h.fromFrame f hf
      refine ⟨body', outer ++ [r], u, hbody, hu, fun hreach => ?_⟩
      rw [List.append_assoc]
      exact hfrom (.enter defined hreach)

/-- Only rules that the grammar uses are called. -/
theorem Stands.mem_usedRules {r : Rule} (h : Stands c path (.rule r) follow p) :
    r ∈ c.grammar.usedRules := by
  obtain ⟨u, -, hstart⟩ := h.fromStart
  exact (hstart (.call r follow)).mem_usedRules (List.mem_append_right _ List.mem_cons_self)

/-- The plan of an element where the walk comes to it. -/
theorem Stands.serves (h : Stands c path e follow p) (rules : Rule → Nat → Nat → Prop) :
    (plan c e p follow).Serves (Fair c (preferredIn path).isSome rules)
      (Part c (preferredIn path).isSome e follow p) (Wanted c rules e follow p) :=
  plan_serves e h.le_caret follow

/-- A rule that is called where it is open already is left recursive. -/
theorem Stands.leftRecursive {r : Rule} (h : Stands c path (.rule r) follow p)
    (hopen : (⟨r, p⟩ : Frame) ∈ path) : LeftRecursive c.grammar c.version r := by
  obtain ⟨body, outer, u, hbody, hu, hfrom⟩ := h.fromFrame ⟨r, p⟩ hopen
  obtain rfl := hu.eq_nil
  exact ⟨body, outer ++ [], hbody, hfrom (.call r follow)⟩

/-! ## Elements -/

/-- A part of a walk goes through the element along all its ways. -/
abbrev YieldsWays (c : Setting) (path : Path) (x : Step Positions) (e : Element)
    (follow : List Element) (p : Nat) : Prop :=
  Yields c x (Crosses c (preferredIn path).isSome e p) (Crosses c (preferredIn path).isSome e p)
    (Due c (preferredIn path) e follow p)

/-- An element that has only one way to arrive where it starts, and none to go on from there. -/
theorem arrived_yields {spot : Spot} (h : Stands c path e follow p)
    (harrive : Arrives c (preferredIn path).isSome e follow p [] spot)
    (honly : ∀ inner other, Arrives c (preferredIn path).isSome e follow p inner other →
      inner = [] ∧ other = spot)
    (hends : ∀ q, ¬Crosses c (preferredIn path).isSome e p q) :
    YieldsWays c path (do offerAt path spot; return ∅) e follow p := by
  have hways := h.fromEntry harrive
  rw [List.append_nil] at hways
  refine (Yields.offer hways).mono (fun _ h => h.elim) (fun q hq => absurd hq (hends q)) ?_
  rintro d ⟨inner, other, harr, hd⟩
  obtain ⟨rfl, rfl⟩ := honly inner other harr
  exact hd

/-! ## The walk through an element -/

/-- The rules that an element calls are walked along all their ways. -/
def VisitsWays (c : Setting) (path : Path) (visit : Rule → Nat → Step Positions) : Prop :=
  ∀ r p follow, Stands c path (.rule r) follow p →
    YieldsWays c path (visit r p) (.rule r) follow p

/-- The follow of a call does not matter: the body of the rule is a sequence of its own. -/
theorem Arrives.call_follow {inside : Bool} {r : Rule} {inner : List Rule} {spot : Spot}
    (h : Arrives c inside (.rule r) follow p inner spot) (follow' : List Element) :
    Arrives c inside (.rule r) follow' p inner spot := by
  cases h with
  | call => exact .call inside r follow'
  | enter free defined harr => exact .enter free defined harr

/-- What an event of a plan demands. -/
def Event.Due (c : Setting) (preferred : Option Rule) : Event → Demand → Prop
  | ended _, _ => False
  | noted spot, d => demand? preferred [] spot = some d
  | called r p, d => Walk.Due c preferred (.rule r) [] p d

section

variable {visit : Rule → Nat → Step Positions}

/-- How the plan of an element goes: the memory stays good, and unless something was cut off, what
each act of the plan demands is noted. -/
theorem VisitsWays.course (hvisit : VisitsWays c path visit) (h : Stands c path e follow p) :
    Course path visit (Part c (preferredIn path).isSome e follow p)
      (Fair c (preferredIn path).isSome fun _ _ _ => False)
      (Fair c (preferredIn path).isSome fun r => Crosses c (preferredIn path).isSome (.rule r))
      (Good c) State.Uncut Later
      (fun event s => ∀ d, event.Due c (preferredIn path) d → s.candidates.Notes d) where
  refl := Later.refl
  trans := Later.trans
  fineBefore := Later.uncut
  lasts := fun hlater hdone d hd => hlater.notes d (hdone d hd)
  note := by
    intro spot s harr hs
    have hways := h.fromEntry harr
    rw [List.append_nil] at hways
    exact ⟨hs.offer hways, later_offer s (chain path) spot,
      fun d hd => s.candidates.notes_offer ((demand?_chain path spot).trans hd)⟩
  call := by
    rintro r q s ⟨follow', hlead⟩ hs
    have hout := hvisit r q follow' (h.lead hlead) s hs
    refine ⟨hout.good, hout.later, ⟨hout.sound, fun _ h => h.elim⟩, fun hcut =>
      ⟨⟨hout.sound, hout.full hcut⟩, ?_⟩⟩
    rintro d ⟨inner, spot, harr, hd⟩
    exact hout.noted hcut d ⟨inner, spot, harr.call_follow follow', hd⟩

/-- What the ways through an element demand is demanded by an act that its layer wants. -/
theorem Due.exists_wanted {preferred : Option Rule} {d : Demand}
    (h : Due c preferred e follow p d) :
    ∃ event, event.isAct ∧
      Wanted c (fun r => Crosses c preferred.isSome (.rule r)) e follow p event ∧
      event.Due c preferred d := by
  obtain ⟨inner, spot, harr, hd⟩ := h
  have hbelow := harr.arrivesBelow
  cases inner with
  | cons r inner =>
    obtain ⟨m, hcomes, hrule⟩ := hbelow
    exact ⟨.called r m, rfl, hcomes, r :: inner, spot, hrule, hd⟩
  | nil =>
    cases spot with
    | token | ident => exact ⟨.noted _, rfl, ⟨rfl, hbelow⟩, hd⟩
    | rule r => exact ⟨.called r c.caret, rfl, hbelow, [], .rule r, .call _ r [], hd⟩

/-- An element is walked along all its ways where the rules that it calls are. -/
theorem walk_yields (hvisit : VisitsWays c path visit) (e : Element) {p : Nat}
    {follow : List Element} (h : Stands c path e follow p) :
    YieldsWays c path (walk c path visit e p follow) e follow p := by
  have hcourse := hvisit.course h
  have hkeeps := (h.serves fun _ _ _ => False).keeps
  have hfinds := (h.serves fun r => Crosses c (preferredIn path).isSome (.rule r)).finds
  rw [walk_eq_run]
  intro s hs
  obtain ⟨hgood, hlater, hends⟩ := hcourse.run_keeps hkeeps hs
  refine ⟨hgood, hlater, hends, fun hcut q hq => ?_, fun hcut d hd => ?_⟩
  · exact hcourse.mem_of_finds hkeeps (hfinds _ (passes_iff_crosses.2 hq)) hs hcut
  · obtain ⟨event, hact, hwanted, hevent⟩ := hd.exists_wanted
    exact hcourse.done_of_finds hkeeps hact (hfinds event hwanted) hs hcut d hevent

end

/-! ## The walk through a rule -/

section

variable {r : Rule}

/-- A rule that is held is noted, and nothing goes past it. -/
theorem held_yields (h : Stands c path (.rule r) follow p)
    (hheld : c.Held (preferredIn path).isSome r p) :
    YieldsWays c path (do offerAt path (.rule r); return ∅) (.rule r) follow p := by
  have hat : p = c.caret := hheld.1
  subst hat
  refine arrived_yields h (.call _ r follow) ?_ ?_
  · intro inner other harr
    cases harr with
    | call => exact ⟨rfl, rfl⟩
    | enter free => exact absurd hheld free
  · intro q hcross
    cases hcross with
    | rule free => exact free hheld

/-- A call of a rule that is not held demands nothing by itself. -/
theorem demand?_call (free : ¬c.Held (preferredIn path).isSome r c.caret) :
    demand? (preferredIn path) [] (.rule r) = none := by
  have hfree : r.isPreferred = false ∧ preferredIn path = none := by
    simpa [Setting.Held, not_or] using free
  simp [demand?, Spot.opens, hfree.1, hfree.2]

theorem due_rule {d : Demand} (free : ¬c.Held (preferredIn path).isSome r p)
    (h : Due c (preferredIn path) (.rule r) follow p d) :
    ∃ body, c.grammar.body? r = some body ∧ Due c (preferredIn (⟨r, p⟩ :: path)) body [] p d := by
  obtain ⟨inner, spot, harr, hd⟩ := h
  cases harr with
  | call =>
    rw [demand?_call free] at hd
    cases hd
  | @enter _ _ body _ _ inner _ _ defined harr =>
    refine ⟨body, defined, inner, spot, ?_, ?_⟩
    · rw [isSome_preferredIn_cons]
      exact harr
    · rw [preferredIn_cons, ← demand?_append]
      exact hd

/-- The body of a rule that is not held is walked in place of the rule. -/
theorem body_yields {body : Element} {x : Step Positions}
    (free : ¬c.Held (preferredIn path).isSome r p) (defined : c.grammar.body? r = some body)
    (h : YieldsWays c (⟨r, p⟩ :: path) x body [] p) :
    YieldsWays c path x (.rule r) follow p := by
  rw [YieldsWays, isSome_preferredIn_cons] at h
  refine h.mono (fun q hq => .rule free defined hq) ?_ ?_
  · intro q hcross
    cases hcross with
    | rule _ defined' inner =>
      obtain rfl := Option.some.inj (defined.symm.trans defined')
      exact inner
  · intro d hd
    obtain ⟨body', defined', hd⟩ := due_rule free hd
    obtain rfl := Option.some.inj (defined.symm.trans defined')
    exact hd

/-- A rule without a body has no ways. -/
theorem undefined_yields (h : Stands c path (.rule r) follow p)
    (free : ¬c.Held (preferredIn path).isSome r p) (undefined : c.grammar.body? r = none) :
    YieldsWays c path (cutOff fun cuts => { cuts with undefinedRule := true }) (.rule r) follow'
      p := by
  have hmem := Grammar.mem_undefinedRules_iff.2 ⟨undefined, h.mem_usedRules⟩
  refine .cutOff (cutting_undefinedRule hmem) fun _ _ _ => ⟨?_, ?_⟩
  · intro q hcross
    cases hcross with
    | rule _ defined => cases undefined.symm.trans defined
  · intro d hd
    obtain ⟨body, defined, -⟩ := due_rule free hd
    cases undefined.symm.trans defined

theorem held_iff : (decide (p = c.caret) && (r.isPreferred || (enclosing? path).isSome)) = true ↔
    c.Held (preferredIn path).isSome r p := by
  rw [← map_fst_enclosing?, Option.isSome_map]
  simp [Setting.Held]

/-- A rule is held, or known from the memory, or searched for. -/
theorem rule_yields {search : Step Positions} (h : Stands c path (.rule r) follow p)
    (hsearch : ¬c.Held (preferredIn path).isSome r p → YieldsWays c path search (.rule r) [] p) :
    YieldsWays c path (do
      if p = c.caret && (r.isPreferred || (enclosing? path).isSome) then
        if !(← offerEnclosing path) then offerRule r (chain path)
        return ∅
      else
        match (← get).memo.find? ⟨r, p, (enclosing? path).map Prod.fst⟩ with
        | some ends => return ends
        | none => search) (.rule r) follow p := by
  split
  · rename_i hguard
    have hheld := held_iff.1 hguard
    rw [offerHeld_return_eq path r (Bool.and_eq_true_iff.1 hguard).2]
    exact held_yields h hheld
  · rename_i hguard
    have hkey : YieldsKey c ⟨r, p, preferredIn path⟩ search :=
      hsearch fun hheld => hguard (held_iff.2 hheld)
    rw [map_fst_enclosing?]
    refine hkey.recall.mono (fun _ h => h) (fun _ h => h) ?_
    rintro d ⟨inner, spot, harr, hd⟩
    exact ⟨inner, spot, harr.call_follow [], hd⟩

/-- Where there is no room the cut shows, so that nothing need be answered for. -/
theorem tooDeep_yields :
    YieldsWays c path (cutOff fun cuts => { cuts with depth := true }) (.rule r) follow p := by
  refine .cutOff cutting_depth ?_
  intro cuts hcut
  cases hcut

/-- A rule that is not held is entered, unless it is open at this position or has no body. -/
theorem entered_yields {inner : Element → Step Positions} (h : Stands c path (.rule r) follow p)
    (free : ¬c.Held (preferredIn path).isSome r p)
    (hinner : ∀ body, c.grammar.body? r = some body →
      YieldsWays c path (inner body) (.rule r) follow' p) :
    YieldsWays c path (
      if (⟨r, p⟩ : Frame) ∈ path then cutOff fun cuts => { cuts with leftRecursion := true }
      else
        match c.grammar.body? r with
        | none => cutOff fun cuts => { cuts with undefinedRule := true }
        | some body => inner body) (.rule r) follow' p := by
  split
  · rename_i hopen
    -- The cut shows in the state, so that nothing need be answered for here but its cause.
    refine .cutOff (cutting_leftRecursion (h.leftRecursive hopen)) ?_
    intro cuts _ hcut
    cases hcut
  · split
    · rename_i undefined
      exact undefined_yields h free undefined
    · rename_i body defined
      exact hinner body defined

/-- A rule is walked along all its ways, whatever room there is. -/
theorem walkRule_yields (room : Nat) (path : Path) : VisitsWays c path (walkRule c room path) := by
  induction room generalizing path with
  | zero =>
    intro r p follow h
    unfold walkRule
    exact rule_yields h fun _ => tooDeep_yields
  | succ room ih =>
    intro r p follow h
    unfold walkRule
    refine rule_yields h fun free => ?_
    refine entered_yields h free fun body defined => ?_
    have hbody := walk_yields (ih (⟨r, p⟩ :: path)) body (h.enter free defined)
    -- The key holds all that the ends and the demands of the rule depend on.
    rw [map_fst_enclosing?]
    exact YieldsKey.keep (body_yields free defined hbody)

end

/-! ## The whole walk -/

/-- The whole walk ends at ways of the entry rule only; unless something was cut off, it ends at
all of them and has noted all that they demand. -/
theorem run_outcome (c : Setting) :
    Outcome c (Crosses c false (.rule c.grammar.entry) 0)
      (Crosses c false (.rule c.grammar.entry) 0) (Due c none (.rule c.grammar.entry) [] 0) {}
      (run c) :=
  walkRule_yields maxDepth [] c.grammar.entry 0 [] (stands_entry c) {} (good_initial c)

end SqlCompletion.Walk
