import SqlCompletion.Proofs.Tasks
import SqlCompletion.Proofs.Timed
set_option autoImplicit false

/-!
# The rules that are open during a walk

A walk knows which rules are open by its path, which every part of it is given. Here the open rules
are kept as a walk in place keeps them: on a stack that a rule is put on before its body is walked
and taken off afterwards, and in a set of rules with the positions at which they were entered. A
repetition goes on until nothing new is reached, and reading behind the input is no step. Such a
walk has an answer only if it ends within its time, which the rules inside one another and the
rounds of a repetition take (`Method`). More time does not change an answer (`visitRule_extends`).

The main result is `walk_inBounds`, for every grammar and every caret. Within some time the walk
with a stack ends with the candidates that are collected there. Of every call that it makes, a note
is kept (`Visit`): none is made behind the caret, none answers with a position behind the caret or
in front of where it started, the stack never gets higher than is allowed, and behind a call the
same rules are open as in front of it (`Visit.InBounds`).

`Follows` relates a part of the machine to the part of the walk that it follows, from every state in
which the rules on the path are the open ones. The proofs go along the shapes of an element
(`crossElement_follows`) and, for rules, by the room that is left (`visitRule_follows`). The stack
and the set agree with the path throughout (`openedBy`), which is what makes the two tests for open
rules the same.

A repetition reaches a position that is new in every round but the last one (`rounds_follows`), so
the time for it is that of the positions up to the caret. How long the whole walk takes is not told:
only that some time is enough.
-/

namespace SqlCompletion.Walk

/-! ## A walk with a stack -/

/-- What is open: the rules on the stack, the outermost first, and the set of those that have been
entered, with their starts. -/
structure Opened where
  stack : List Rule := []
  active : Finset Frame := ∅

/-- A call that is over: the positions that it was made at and those that it answered with, and what
was open in front of it and behind it. -/
structure Visit where
  starts : Positions
  ends : Positions
  before : Opened
  after : Opened

/-- What a walk with a stack works on, with the calls that are over. -/
structure Machine where
  opened : Opened := {}
  state : State := {}
  visits : List Visit := []

/-- A part of a walk with a stack. There is no answer if its time is over, or if it reads what is
not there. -/
abbrev Method := Timed Machine

namespace Method

/-- Notes what is next at the caret. -/
def offer (spot : Spot) : Method Unit :=
  modify fun m => { m with state :=
    { m.state with candidates := m.state.candidates.offer m.opened.stack spot } }

/-- Notes that a way was cut off; it ends nowhere. -/
def cut (note : Cuts → Cuts) : Method Positions := do
  modify fun m => { m with state := { m.state with cuts := note m.state.cuts } }
  return ∅

/-- Keeps where a rule can end. -/
def remember (key : MemoKey) (ends : Positions) : Method Unit :=
  modify fun m => { m with state := { m.state with memo := m.state.memo.insert key ends } }

/-- Changes what is open. -/
def change (f : Opened → Opened) : Method Unit := modify fun m => { m with opened := f m.opened }

/-- Takes a rule off the stack and out of the set, and keeps where it can end. -/
def close (key : MemoKey) (ends : Positions) : Method Positions := do
  change fun o => { o with stack := o.stack.dropLast }
  change fun o => { o with active := o.active.erase ⟨key.rule, key.start⟩ }
  remember key ends
  return ends

/-- A call of a method, which is noted when it is over. -/
def call (starts : Positions) (x : Method Positions) : Method Positions := do
  let before := (← get).opened
  let ends ← x
  modify fun m => { m with visits := m.visits ++ [⟨starts, ends, before, m.opened⟩] }
  return ends

end Method

open Timed (giveUp Extends extends_giveUp)

/-- The rounds of a repetition, until nothing new is reached. -/
def rounds (visit : Nat → Method Positions) : (time : Nat) → (reached fresh : Positions) →
    Method Positions
  | 0, _, _ => giveUp
  | time + 1, reached, fresh =>
    if fresh.isEmpty then return reached
    else do
      let ends : Positions ← fresh.toList.foldlM (fun ends p => return ends.union (← visit p)) ∅
      rounds visit time (reached.union (ends.diff reached)) (ends.diff reached)

/-- A call for a repetition. -/
def visitRepetition (visit : Nat → Method Positions) (time : Nat) (starts : Positions) :
    Method Positions :=
  .call starts (rounds visit time starts starts)

section Elements

variable (c : Setting) (visit : Rule → Nat → Method Positions) (time : Nat)

mutual

/-- The ways through an element, each element inside of it with a call of its own. -/
def crossElement (e : Element) (start : Nat) (follow : List Element) : Method Positions :=
  match e with
  | .token t =>
    if start = c.caret then do
      .offer (.token t follow)
      return ∅
    else do
      let u ← liftM c.input[start]?
      return if u == t then .singleton (start + 1) else ∅
  | .ident =>
    if start = c.caret then do
      .offer .ident
      return ∅
    else do
      let u ← liftM c.input[start]?
      return if u.isNameLike then .singleton (start + 1) else ∅
  | .rule r => visit r start
  | .seq items => crossSeq items (.singleton start)
  | .choice alternatives =>
    crossChoice alternatives start (Element.choiceFollow alternatives follow) ∅
  | .opt e => do return (← .call (.singleton start) (crossElement e start [])).insert start
  | .star e =>
    visitRepetition (fun p => .call (.singleton p) (crossElement e p [])) time (.singleton start)
  | .plus e => do
    visitRepetition (fun p => .call (.singleton p) (crossElement e p [])) time
      (← .call (.singleton start) (crossElement e start []))
  | .since v e =>
    if v ≤ c.version then .call (.singleton start) (crossElement e start follow) else return ∅
  | .before v e =>
    if c.version < v then .call (.singleton start) (crossElement e start follow) else return ∅

/-- The ways through the items of a sequence, one after another. -/
def crossSeq (items : List Element) (starts : Positions) : Method Positions :=
  match items with
  | [] => return starts
  | e :: rest =>
    if starts.isEmpty then return ∅
    else do
      let next : Positions ← starts.toList.foldlM
        (fun ends p => return ends.union (← .call (.singleton p) (crossElement e p rest))) ∅
      crossSeq rest next

/-- The ways through one of some alternatives. -/
def crossChoice (alternatives : List Element) (start : Nat) (follow : List Element)
    (ends : Positions) : Method Positions :=
  match alternatives with
  | [] => return ends
  | e :: rest => do
    crossChoice rest start follow
      (ends.union (← .call (.singleton start) (crossElement e start follow)))

end

/-- A call for an element. -/
def visitElement (e : Element) (start : Nat) (follow : List Element) : Method Positions :=
  .call (.singleton start) (crossElement c visit time e start follow)

end Elements

section Rules

variable (c : Setting)

/-- The ways through a rule that is entered, unless that cuts them off. -/
def enterRule (visitBody : Element → Method Positions) (r : Rule) (start : Nat)
    (preferred : Option Rule) : Method Positions := do
  let m ← get
  if maxDepth ≤ m.opened.stack.length then
    .cut fun cuts => { cuts with depth := true }
  else if ⟨r, start⟩ ∈ m.opened.active then
    .cut fun cuts => { cuts with leftRecursion := true }
  else
    .change fun o => { o with active := insert ⟨r, start⟩ o.active }
    match c.grammar.body? r with
    | none =>
      .change fun o => { o with active := o.active.erase ⟨r, start⟩ }
      .cut fun cuts => { cuts with undefinedRule := true }
    | some body =>
      .change fun o => { o with stack := o.stack ++ [r] }
      let ends ← visitBody body
      .close ⟨r, start, preferred⟩ ends

/-- The ways through a rule, unless the rule is a candidate itself or is known already. -/
def crossRule (visitBody : Element → Method Positions) (r : Rule) (start : Nat) :
    Method Positions := do
  let m ← get
  if start = c.caret ∧ (r.isPreferred = true ∨ m.opened.stack.any Rule.isPreferred = true) then
    .offer (.rule r)
    return ∅
  else
    let key : MemoKey := ⟨r, start, m.opened.stack.find? Rule.isPreferred⟩
    match m.state.memo.find? key with
    | some ends => return ends
    | none => enterRule c visitBody r start key.preferred

/-- A call for a rule. -/
def visitRule : (time : Nat) → Rule → Nat → Method Positions
  | 0, _, _ => giveUp
  | time + 1, r, start =>
    .call (.singleton start)
      (crossRule c (fun body => visitElement c (visitRule time) time body start []) r start)

end Rules

/-! ## More time -/

theorem extends_call (starts : Positions) {x y : Method Positions} (h : Extends x y) :
    Extends (Method.call starts x) (Method.call starts y) :=
  .behind fun _ => .bind h fun _ => .refl _

theorem rounds_extends {f g : Nat → Method Positions} (h : ∀ p, Extends (f p) (g p)) :
    (time : Nat) → (reached fresh : Positions) →
      Extends (rounds f time reached fresh) (rounds g (time + 1) reached fresh)
  | 0, _, _ => extends_giveUp _
  | time + 1, reached, fresh => by
    rw [rounds, rounds]
    refine .ite (.refl _) (.bind (.foldlM ?_ _ _) fun ends => rounds_extends h time _ _)
    exact fun ends p => .bind (h p) fun _ => .refl _

theorem visitRepetition_extends {f g : Nat → Method Positions} (h : ∀ p, Extends (f p) (g p))
    (time : Nat) (starts : Positions) :
    Extends (visitRepetition f time starts) (visitRepetition g (time + 1) starts) :=
  extends_call starts (rounds_extends h time starts starts)

section

variable {c : Setting} {visit visit' : Rule → Nat → Method Positions} (time : Nat)

mutual

theorem crossElement_extends (h : ∀ r p, Extends (visit r p) (visit' r p)) (e : Element) (p : Nat)
    (follow : List Element) :
    Extends (crossElement c visit time e p follow)
      (crossElement c visit' (time + 1) e p follow) := by
  cases e with
  | token t =>
    rw [crossElement, crossElement]
    exact .refl _
  | ident =>
    rw [crossElement, crossElement]
    exact .refl _
  | rule r =>
    rw [crossElement, crossElement]
    exact h r p
  | seq items =>
    rw [crossElement, crossElement]
    exact crossSeq_extends h items _
  | choice alternatives =>
    rw [crossElement, crossElement]
    exact crossChoice_extends h alternatives p _ _
  | opt e =>
    rw [crossElement, crossElement]
    exact .bind (extends_call _ (crossElement_extends h e p [])) fun _ => .refl _
  | star e =>
    rw [crossElement, crossElement]
    exact visitRepetition_extends (fun q => extends_call _ (crossElement_extends h e q [])) time _
  | plus e =>
    rw [crossElement, crossElement]
    refine .bind (extends_call _ (crossElement_extends h e p [])) fun first => ?_
    exact visitRepetition_extends (fun q => extends_call _ (crossElement_extends h e q [])) time _
  | since v e =>
    rw [crossElement, crossElement]
    exact .ite (extends_call _ (crossElement_extends h e p follow)) (.refl _)
  | before v e =>
    rw [crossElement, crossElement]
    exact .ite (extends_call _ (crossElement_extends h e p follow)) (.refl _)

theorem crossSeq_extends (h : ∀ r p, Extends (visit r p) (visit' r p)) (items : List Element)
    (starts : Positions) :
    Extends (crossSeq c visit time items starts) (crossSeq c visit' (time + 1) items starts) := by
  cases items with
  | nil =>
    rw [crossSeq, crossSeq]
    exact .refl _
  | cons e rest =>
    rw [crossSeq, crossSeq]
    refine .ite (.refl _) (.bind (.foldlM ?_ _ _) fun next => crossSeq_extends h rest next)
    exact fun ends p => .bind (extends_call _ (crossElement_extends h e p rest)) fun _ => .refl _

theorem crossChoice_extends (h : ∀ r p, Extends (visit r p) (visit' r p))
    (alternatives : List Element) (p : Nat) (follow : List Element) (ends : Positions) :
    Extends (crossChoice c visit time alternatives p follow ends)
      (crossChoice c visit' (time + 1) alternatives p follow ends) := by
  cases alternatives with
  | nil =>
    rw [crossChoice, crossChoice]
    exact .refl _
  | cons e rest =>
    rw [crossChoice, crossChoice]
    refine .bind (extends_call _ (crossElement_extends h e p follow)) fun more => ?_
    exact crossChoice_extends h rest p follow _

end

end

section

variable {c : Setting} {visitBody visitBody' : Element → Method Positions}
  (h : ∀ body, Extends (visitBody body) (visitBody' body)) (r : Rule) (p : Nat)
include h

theorem enterRule_extends (preferred : Option Rule) :
    Extends (enterRule c visitBody r p preferred) (enterRule c visitBody' r p preferred) := by
  refine .behind fun m => .ite (.refl _) (.ite (.refl _) (.behind fun _ => ?_))
  cases c.grammar.body? r with
  | none => exact .refl _
  | some body => exact .behind fun _ => .bind (h body) fun ends => .refl _

theorem crossRule_extends :
    Extends (crossRule c visitBody r p) (crossRule c visitBody' r p) := by
  refine .behind fun m => .ite (.refl _) ?_
  dsimp only
  split
  · exact .refl _
  · exact enterRule_extends h r p _

end

theorem visitRule_extends (c : Setting) : (time : Nat) → (r : Rule) → (p : Nat) →
    Extends (visitRule c time r p) (visitRule c (time + 1) r p)
  | 0, _, _ => extends_giveUp _
  | time + 1, r, p => by
    rw [visitRule, visitRule]
    refine extends_call _ (crossRule_extends (fun body => ?_) r p)
    exact extends_call _ (crossElement_extends time (visitRule_extends c time) body p [])

/-- A call that is over is the last one that was noted. -/
theorem Method.getLast?_visits {starts ends : Positions} {x : Method Positions} {m m' : Machine}
    (h : (Method.call starts x).run m = some (ends, m')) :
    m'.visits.getLast? = some ⟨starts, ends, m.opened, m'.opened⟩ := by
  rw [Method.call, StateT.run_bind, StateT.run_get, pure_bind, StateT.run_bind] at h
  obtain ⟨⟨reached, inner⟩, -, hend⟩ := Option.bind_eq_some_iff.1 h
  cases hend
  exact List.getLast?_concat

/-! ## In bounds -/

/-- The ends lie neither in front of all the starts nor behind the caret. -/
def Within (c : Setting) (starts ends : Positions) : Prop :=
  ∀ q ∈ ends, (∃ p ∈ starts, p ≤ q) ∧ q ≤ c.caret

/-- The call is made at positions up to the caret, and answers with positions from there up to the
caret. No more rules are open than may be, and behind the call it is the same ones as before. -/
structure Visit.InBounds (c : Setting) (v : Visit) : Prop where
  starts : ∀ p ∈ v.starts, p ≤ c.caret
  ends : Within c v.starts v.ends
  depth : v.before.stack.length ≤ maxDepth
  kept : v.after = v.before

section

variable {c : Setting} {starts ends more known : Positions} {p q : Nat}

theorem within_empty : Within c starts ∅ := fun _ hq => absurd hq (Positions.not_mem_empty _)

theorem within_refl (h : ∀ p ∈ starts, p ≤ c.caret) : Within c starts starts :=
  fun q hq => ⟨⟨q, hq, Nat.le_refl q⟩, h q hq⟩

theorem within_singleton (hle : p ≤ q) (hq : q ≤ c.caret) :
    Within c (.singleton p) (.singleton q) := by
  intro m hm
  obtain rfl := Positions.mem_singleton.1 hm
  exact ⟨⟨p, Positions.mem_singleton.2 rfl, hle⟩, hq⟩

theorem Within.le_caret (h : Within c starts ends) : ∀ q ∈ ends, q ≤ c.caret :=
  fun q hq => (h q hq).2

theorem Within.union (h : Within c starts ends) (hmore : Within c starts more) :
    Within c starts (ends.union more) :=
  fun q hq => (Positions.mem_union.1 hq).elim (h q) (hmore q)

theorem Within.trans (h : Within c starts ends) (hmore : Within c ends more) :
    Within c starts more := by
  intro q hq
  obtain ⟨⟨m, hm, hle⟩, hcaret⟩ := hmore q hq
  obtain ⟨⟨p, hp, hle'⟩, -⟩ := h m hm
  exact ⟨⟨p, hp, Nat.le_trans hle' hle⟩, hcaret⟩

/-- What one of the starts leads to. -/
theorem Within.of_mem (h : Within c (.singleton p) ends) (hp : p ∈ starts) :
    Within c starts ends := by
  intro q hq
  obtain ⟨⟨m, hm, hle⟩, hcaret⟩ := h q hq
  obtain rfl := Positions.mem_singleton.1 hm
  exact ⟨⟨m, hp, hle⟩, hcaret⟩

theorem Within.diff (h : Within c starts ends) (known : Positions) :
    Within c starts (ends.diff known) :=
  fun q hq => h q (Positions.mem_diff.1 hq).1

end

/-- All that the memory holds for a rule lies between the start of the rule and the caret. -/
def Bounded (c : Setting) (memo : Memo) : Prop :=
  ∀ (key : MemoKey) (ends : Positions), memo.find? key = some ends →
    Within c (.singleton key.start) ends

/-! ## Following a walk -/

/-- From this state, the machine goes where the walk goes and answers what it answers, with the same
rules open in the end as at the start. All its calls on the way are in bounds, and so is the
answer. -/
def FollowsFrom (c : Setting) (m : Machine) {α : Type} (x : Method α) (y : Step α)
    (within : α → Prop) : Prop :=
  ∃ more, x.run m =
      some ((y.run m.state).1, ⟨m.opened, (y.run m.state).2, m.visits ++ more⟩) ∧
    (∀ v ∈ more, v.InBounds c) ∧ Bounded c (y.run m.state).2.memo ∧ within (y.run m.state).1

/-- The machine follows the walk from every state in which these rules are open. -/
def Follows (c : Setting) (o : Opened) {α : Type} (x : Method α) (y : Step α)
    (within : α → Prop) : Prop :=
  ∀ (s : State) (visits : List Visit), Bounded c s.memo → FollowsFrom c ⟨o, s, visits⟩ x y within

section

variable {c : Setting} {o : Opened} {α β : Type} {x : Method α} {y : Step α} {within : α → Prop}

theorem FollowsFrom.congr {m : Machine} {x' : Method α} {y' : Step α}
    (h : FollowsFrom c m x y within) (hx : x'.run m = x.run m)
    (hy : y'.run m.state = y.run m.state) : FollowsFrom c m x' y' within := by
  rw [FollowsFrom, hx, hy]
  exact h

theorem Follows.pure {a : α} (h : within a) : Follows c o (Pure.pure a) (Pure.pure a) within :=
  fun _ visits hs => ⟨[], by rw [List.append_nil]; rfl, by simp, hs, h⟩

theorem Follows.bind {f : α → Method β} {g : α → Step β} {within' : β → Prop}
    (h : Follows c o x y within) (hrest : ∀ a, within a → Follows c o (f a) (g a) within') :
    Follows c o (x >>= f) (y >>= g) within' := by
  intro s visits hs
  obtain ⟨more, hx, hbounds, hmemo, hwithin⟩ := h s visits hs
  obtain ⟨more', hf, hbounds', hmemo', hwithin'⟩ :=
    hrest _ hwithin (y.run s).2 (visits ++ more) hmemo
  refine ⟨more ++ more', ?_, ?_, hmemo', hwithin'⟩
  · rw [StateT.run_bind, hx]
    show (f (y.run s).1).run _ = _
    rw [hf, List.append_assoc]
    rfl
  · intro v hv
    exact (List.mem_append.1 hv).elim (hbounds v) (hbounds' v)

theorem Follows.mono {within' : α → Prop} (h : Follows c o x y within)
    (himp : ∀ a, within a → within' a) : Follows c o x y within' := by
  intro s visits hs
  obtain ⟨more, hx, hbounds, hmemo, hwithin⟩ := h s visits hs
  exact ⟨more, hx, hbounds, hmemo, himp _ hwithin⟩

/-- A call that is noted. -/
theorem Follows.call {starts : Positions} {x : Method Positions} {y : Step Positions}
    (h : Follows c o x y (Within c starts)) (hstarts : ∀ p ∈ starts, p ≤ c.caret)
    (hdepth : o.stack.length ≤ maxDepth) :
    Follows c o (.call starts x) y (Within c starts) := by
  intro s visits hs
  obtain ⟨more, hx, hbounds, hmemo, hwithin⟩ := h s visits hs
  refine ⟨more ++ [⟨starts, (y.run s).1, o, o⟩], ?_, ?_, hmemo, hwithin⟩
  · rw [Method.call, StateT.run_bind, StateT.run_get, pure_bind, StateT.run_bind, hx,
      ← List.append_assoc]
    rfl
  · intro v hv
    rcases List.mem_append.1 hv with hv | hv
    · exact hbounds v hv
    · obtain rfl := List.mem_singleton.1 hv
      exact ⟨hstarts, hwithin, hdepth, rfl⟩

theorem Follows.offer {path : Path} (hstack : o.stack = chain path) (spot : Spot)
    (starts : Positions) :
    Follows c o (do Method.offer spot; return ∅) (do offerAt path spot; return ∅)
      (Within c starts) := by
  intro s visits hs
  refine ⟨[], ?_, by simp, hs, within_empty⟩
  rw [List.append_nil, offerAt, ← hstack]
  rfl

theorem Follows.cut (note : Cuts → Cuts) (starts : Positions) :
    Follows c o (.cut note) (cutOff note) (Within c starts) :=
  fun _ visits hs => ⟨[], by rw [List.append_nil]; rfl, by simp, hs, within_empty⟩

/-! ## Elements -/

section

variable {starts : Positions} {f : Nat → Method Positions} {g : Nat → Step Positions}

theorem Follows.foldlM {ps : List Nat} {known : Positions}
    (h : ∀ p ∈ ps, Follows c o (f p) (g p) (Within c starts)) (hknown : Within c starts known) :
    Follows c o (ps.foldlM (fun ends p => return ends.union (← f p)) known)
      (ps.foldlM (fun ends p => return ends.union (← g p)) known) (Within c starts) := by
  induction ps generalizing known with
  | nil => exact .pure hknown
  | cons p ps ih =>
    rw [List.foldlM_cons, List.foldlM_cons]
    have hfirst : Follows c o (do return known.union (← f p)) (do return known.union (← g p))
        (Within c starts) :=
      (h p List.mem_cons_self).bind fun ends hends => .pure (hknown.union hends)
    exact hfirst.bind fun ends hends => ih (fun q hq => h q (List.mem_cons_of_mem p hq)) hends

/-- The ways from some positions. -/
theorem Follows.fromEach
    (h : ∀ p ∈ starts, Follows c o (f p) (g p) (Within c (.singleton p))) :
    Follows c o (starts.toList.foldlM (fun ends p => return ends.union (← f p)) ∅)
      (Walk.fromEach g starts) (Within c starts) :=
  .foldlM (fun p hp => (h p (Positions.mem_toList.1 hp)).mono fun _ hends =>
    hends.of_mem (Positions.mem_toList.1 hp)) within_empty

/-- The rounds end before the walk gives up: each of them reaches a position that is new. -/
theorem rounds_follows (h : ∀ p ≤ c.caret, Follows c o (f p) (g p) (Within c (.singleton p)))
    {time : Nat} (fuel : Nat) (reached fresh : Positions) (hreached : Within c starts reached)
    (hfresh : ∀ p ∈ fresh, p ∈ reached) (hfuel : fresh = ∅ ∨ c.unreached reached < fuel)
    (htime : fuel < time) :
    Follows c o (rounds f time reached fresh) (repeated g fuel reached fresh)
      (Within c starts) := by
  induction fuel generalizing time reached fresh with
  | zero =>
    obtain ⟨time, rfl⟩ := Nat.exists_eq_add_of_le' htime
    have hempty := Positions.isEmpty_iff.2 (hfuel.resolve_right (Nat.not_lt_zero _))
    rw [rounds, if_pos hempty, repeated]
    exact .pure hreached
  | succ fuel ih =>
    obtain ⟨time, rfl⟩ := Nat.exists_eq_add_of_le' (Nat.zero_lt_of_lt htime)
    rw [rounds, repeated]
    split
    · exact .pure hreached
    · rename_i hsome
      have hlt : c.unreached reached < fuel + 1 :=
        hfuel.resolve_left fun hnone => hsome (Positions.isEmpty_iff.2 hnone)
      have hcaret : ∀ p ∈ fresh, p ≤ c.caret := fun p hp => hreached.le_caret p (hfresh p hp)
      refine (Follows.fromEach fun p hp => h p (hcaret p hp)).bind fun ends hends => ?_
      have hnew : Within c starts (ends.diff reached) := by
        refine Within.diff ?_ reached
        exact Within.trans (fun q hq => hreached q (hfresh q hq)) hends
      refine ih _ _ (hreached.union hnew) (fun p hp => Positions.mem_union.2 (.inr hp)) ?_
        (Nat.lt_of_succ_lt_succ htime)
      by_cases hnone : ends.diff reached = ∅
      · exact .inl hnone
      · obtain ⟨q, hq⟩ := Positions.exists_mem_of_ne_empty hnone
        have hless := c.unreached_union_lt hq (Positions.mem_diff.1 hq).2 (hnew.le_caret q hq)
        exact .inr (by omega)

end

end

/-- The rules on the path are open, no more than may be. The calls of rules follow the walk, and
there is time enough for the rounds of a repetition. -/
structure FollowsIn (c : Setting) (o : Opened) (path : Path)
    (method : Rule → Nat → Method Positions) (time : Nat)
    (visit : Rule → Nat → Step Positions) : Prop where
  stack : o.stack = chain path
  depth : o.stack.length ≤ maxDepth
  time : c.fuel < time
  call : ∀ r p, p ≤ c.caret → Follows c o (method r p) (visit r p) (Within c (.singleton p))

section

variable {c : Setting} {o : Opened} {path : Path} {method : Rule → Nat → Method Positions}
  {time : Nat} {visit : Rule → Nat → Step Positions}

theorem le_of_mem_singleton {p : Nat} (hp : p ≤ c.caret) :
    ∀ q ∈ Positions.singleton p, q ≤ c.caret :=
  fun _ hq => (Positions.mem_singleton.1 hq).symm ▸ hp

/-- A call, if the ways of what it is for are followed. -/
theorem FollowsIn.inside (h : FollowsIn c o path method time visit) {p : Nat}
    {x : Method Positions} {y : Step Positions} (hp : p ≤ c.caret)
    (hx : Follows c o x y (Within c (.singleton p))) :
    Follows c o (.call (.singleton p) x) y (Within c (.singleton p)) :=
  hx.call (le_of_mem_singleton hp) h.depth

/-- A call for a repetition, if the calls for what is repeated are followed. -/
theorem FollowsIn.repetition (h : FollowsIn c o path method time visit)
    {f : Nat → Method Positions} {g : Nat → Step Positions} {starts : Positions}
    (hstarts : ∀ p ∈ starts, p ≤ c.caret)
    (hf : ∀ p ≤ c.caret, Follows c o (f p) (g p) (Within c (.singleton p))) :
    Follows c o (visitRepetition f time starts) (repeated g c.fuel starts starts)
      (Within c starts) :=
  Follows.call (rounds_follows hf c.fuel starts starts (within_refl hstarts) (fun _ hp => hp)
    (.inr (c.unreached_lt_fuel starts)) h.time) hstarts h.depth

/-- What stands in front of the caret can be read. -/
theorem follows_read {p : Nat} (hp : p ≤ c.caret) (hne : p ≠ c.caret) (takes : Terminal → Bool) :
    Follows c o
      (do
        let u ← liftM c.input[p]?
        return if takes u then Positions.singleton (p + 1) else ∅)
      (return if (c.input[p]?).any takes then Positions.singleton (p + 1) else ∅)
      (Within c (.singleton p)) := by
  have hlt : p < c.input.size := Nat.lt_of_le_of_ne hp hne
  rw [Array.getElem?_eq_getElem hlt, Option.any_some]
  refine Follows.pure (a := if takes c.input[p] then Positions.singleton (p + 1) else ∅) ?_
  split
  · exact within_singleton (Nat.le_succ p) hlt
  · exact within_empty

mutual

theorem crossElement_follows (h : FollowsIn c o path method time visit) (e : Element) {p : Nat}
    (hp : p ≤ c.caret) (follow : List Element) :
    Follows c o (crossElement c method time e p follow) (walk c path visit e p follow)
      (Within c (.singleton p)) := by
  have hstart := le_of_mem_singleton hp
  cases e with
  | token t =>
    rw [crossElement, walk, offerToken_eq]
    split
    · exact .offer h.stack _ _
    · rename_i hne
      have htaken : c.input[p]? = some t ↔ (c.input[p]?).any (· == t) = true := by
        cases c.input[p]? <;> simp
      rw [if_congr htaken rfl rfl]
      exact follows_read hp hne (· == t)
  | ident =>
    rw [crossElement, walk, offerEnclosing_return_eq]
    split
    · exact .offer h.stack _ _
    · rename_i hne
      exact follows_read hp hne Terminal.isNameLike
  | rule r =>
    rw [crossElement, walk]
    exact h.call r p hp
  | seq items =>
    rw [crossElement, walk]
    exact crossSeq_follows h items hstart
  | choice alternatives =>
    rw [crossElement, walk]
    exact crossChoice_follows h alternatives hp _ within_empty
  | opt e =>
    rw [crossElement, walk]
    refine (h.inside hp (crossElement_follows h e hp [])).bind fun ends hends => .pure ?_
    exact hends.union (within_refl hstart)
  | star e =>
    rw [crossElement, walk]
    exact h.repetition hstart fun q hq => h.inside hq (crossElement_follows h e hq [])
  | plus e =>
    rw [crossElement, walk]
    refine (h.inside hp (crossElement_follows h e hp [])).bind fun first hfirst => ?_
    exact (h.repetition hfirst.le_caret fun q hq =>
      h.inside hq (crossElement_follows h e hq [])).mono
      fun ends hends => hfirst.trans hends
  | since v e =>
    rw [crossElement, walk]
    split
    · exact h.inside hp (crossElement_follows h e hp follow)
    · exact .pure within_empty
  | before v e =>
    rw [crossElement, walk]
    split
    · exact h.inside hp (crossElement_follows h e hp follow)
    · exact .pure within_empty

theorem crossSeq_follows (h : FollowsIn c o path method time visit) (items : List Element)
    {starts : Positions} (hstarts : ∀ p ∈ starts, p ≤ c.caret) :
    Follows c o (crossSeq c method time items starts) (walkSeq c path visit items starts)
      (Within c starts) := by
  cases items with
  | nil =>
    rw [crossSeq, walkSeq]
    exact .pure (within_refl hstarts)
  | cons e rest =>
    rw [crossSeq, walkSeq]
    split
    · exact .pure within_empty
    · refine (Follows.fromEach fun p hp => h.inside (hstarts p hp)
        (crossElement_follows h e (hstarts p hp) rest)).bind fun next hnext => ?_
      exact (crossSeq_follows h rest hnext.le_caret).mono fun ends hends => hnext.trans hends

theorem crossChoice_follows (h : FollowsIn c o path method time visit)
    (alternatives : List Element) {p : Nat} (hp : p ≤ c.caret) (follow : List Element)
    {known : Positions} (hknown : Within c (.singleton p) known) :
    Follows c o (crossChoice c method time alternatives p follow known)
      (walkChoice c path visit alternatives p follow known) (Within c (.singleton p)) := by
  cases alternatives with
  | nil =>
    rw [crossChoice, walkChoice]
    exact .pure hknown
  | cons e rest =>
    rw [crossChoice, walkChoice]
    refine (h.inside hp (crossElement_follows h e hp follow)).bind fun ends hends => ?_
    exact crossChoice_follows h rest hp follow (hknown.union hends)

end

end

/-! ## Rules -/

/-- What is open on a path. -/
def openedBy (path : Path) : Opened := ⟨chain path, path.toFinset⟩

section

variable {c : Setting} {path : Path} {r : Rule} {p : Nat}

theorem openedBy_cons (f : Frame) (path : Path) :
    openedBy (f :: path) = ⟨chain path ++ [f.rule], insert f path.toFinset⟩ := by
  rw [openedBy, chain_cons, List.toFinset_cons]

theorem length_stack (path : Path) : (openedBy path).stack.length = path.length := by
  simp [openedBy, chain]

/-- A rule is entered and left: it is open while its body is walked, and what was open before is
open again behind it. -/
theorem Follows.enter {x : Method Positions} {y : Step Positions}
    (hnew : (⟨r, p⟩ : Frame) ∉ path) (preferred : Option Rule)
    (h : Follows c (openedBy (⟨r, p⟩ :: path)) x y (Within c (.singleton p))) :
    Follows c (openedBy path)
      (do
        .change fun o => { o with active := insert ⟨r, p⟩ o.active }
        .change fun o => { o with stack := o.stack ++ [r] }
        let ends ← x
        .close ⟨r, p, preferred⟩ ends)
      (do
        let ends ← y
        modify fun s => { s with memo := s.memo.insert ⟨r, p, preferred⟩ ends }
        return ends)
      (Within c (.singleton p)) := by
  intro s visits hs
  obtain ⟨more, hx, hbounds, hmemo, hwithin⟩ := h s visits hs
  rw [openedBy_cons] at hx
  refine ⟨more, ?_, hbounds, ?_, hwithin⟩
  · have hstack : (chain path ++ [r]).dropLast = chain path := List.dropLast_concat
    have hactive : (insert ⟨r, p⟩ path.toFinset).erase ⟨r, p⟩ = path.toFinset :=
      Finset.erase_insert (by rwa [List.mem_toFinset])
    show (x >>= Method.close ⟨r, p, preferred⟩).run
      ⟨⟨chain path ++ [r], insert ⟨r, p⟩ path.toFinset⟩, s, visits⟩ = _
    rw [StateT.run_bind, hx]
    show some (_, (⟨⟨(chain path ++ [r]).dropLast, (insert ⟨r, p⟩ path.toFinset).erase ⟨r, p⟩⟩,
      _, _⟩ : Machine)) = _
    rw [hstack, hactive]
    rfl
  · intro key ends hfind
    have hkept : ((y.run s).2.memo.insert ⟨r, p, preferred⟩ (y.run s).1).find? key = some ends :=
      hfind
    rw [Memo.find?_insert] at hkept
    split at hkept
    · rename_i hkey
      obtain rfl := Option.some.inj hkept
      rw [hkey]
      exact hwithin
    · exact hmemo key ends hkept

theorem isSome_preferredIn (path : Path) :
    (preferredIn path).isSome = (chain path).any Rule.isPreferred := by
  rw [preferredIn, List.isSome_find?]

section

variable {visitBody : Element → Method Positions}

/-- What a call for a rule does before the rule is entered is followed, so that entering it is all
that is left. -/
theorem crossRule_follows {room : Nat}
    (h : ¬c.Held (preferredIn path).isSome r p → ∀ (s : State) (visits : List Visit),
      Bounded c s.memo → s.memo.find? ⟨r, p, preferredIn path⟩ = none →
        FollowsFrom c ⟨openedBy path, s, visits⟩ (enterRule c visitBody r p (preferredIn path))
          (walkRule c room path r p) (Within c (.singleton p))) :
    Follows c (openedBy path) (crossRule c visitBody r p) (walkRule c room path r p)
      (Within c (.singleton p)) := by
  intro s visits hs
  have hrun : (crossRule c visitBody r p).run ⟨openedBy path, s, visits⟩ =
      StateT.run (
        if p = c.caret ∧ (r.isPreferred = true ∨ (preferredIn path).isSome = true) then do
          Method.offer (.rule r)
          return ∅
        else
          match s.memo.find? ⟨r, p, preferredIn path⟩ with
          | some ends => return ends
          | none => enterRule c visitBody r p (preferredIn path))
        ⟨openedBy path, s, visits⟩ := by
    rw [crossRule, StateT.run_bind, StateT.run_get, pure_bind, isSome_preferredIn]
    rfl
  by_cases hheld : c.Held (preferredIn path).isSome r p
  · rw [if_pos (show p = c.caret ∧ _ from hheld)] at hrun
    exact (Follows.offer rfl _ _ s visits hs).congr hrun (by rw [walkRule_of_held room hheld])
  rw [if_neg (show ¬(p = c.caret ∧ _) from hheld)] at hrun
  cases hfind : s.memo.find? ⟨r, p, preferredIn path⟩ with
  | some ends =>
    rw [hfind] at hrun
    refine (Follows.pure (hs _ ends hfind) s visits hs).congr hrun ?_
    exact run_walkRule_of_find room hheld hfind
  | none =>
    rw [hfind] at hrun
    exact (h hheld s visits hs hfind).congr hrun rfl

/-- What entering a rule does first, with what is open told by the path. -/
theorem run_enterRule (s : State) (visits : List Visit) :
    (enterRule c visitBody r p (preferredIn path)).run ⟨openedBy path, s, visits⟩ =
      StateT.run (
        if maxDepth ≤ path.length then .cut fun cuts => { cuts with depth := true }
        else if (⟨r, p⟩ : Frame) ∈ path then .cut fun cuts => { cuts with leftRecursion := true }
        else do
          .change fun o => { o with active := insert ⟨r, p⟩ o.active }
          match c.grammar.body? r with
          | none =>
            .change fun o => { o with active := o.active.erase ⟨r, p⟩ }
            .cut fun cuts => { cuts with undefinedRule := true }
          | some body =>
            .change fun o => { o with stack := o.stack ++ [r] }
            let ends ← visitBody body
            .close ⟨r, p, preferredIn path⟩ ends : Method Positions)
        ⟨openedBy path, s, visits⟩ := by
  rw [enterRule, StateT.run_bind, StateT.run_get, pure_bind]
  dsimp only
  simp only [length_stack]
  simp only [openedBy, List.mem_toFinset]

end

/-- A rule without a body is taken out of the set again. -/
theorem Follows.undefined (hnew : (⟨r, p⟩ : Frame) ∉ path) (note : Cuts → Cuts)
    (starts : Positions) :
    Follows c (openedBy path)
      (do
        .change fun o => { o with active := insert ⟨r, p⟩ o.active }
        .change fun o => { o with active := o.active.erase ⟨r, p⟩ }
        .cut note)
      (cutOff note) (Within c starts) := by
  intro s visits hs
  have hactive : (insert ⟨r, p⟩ path.toFinset).erase ⟨r, p⟩ = path.toFinset :=
    Finset.erase_insert (by rwa [List.mem_toFinset])
  refine (Follows.cut note starts s visits hs).congr ?_ rfl
  show (Method.cut note).run
    ⟨⟨chain path, (insert ⟨r, p⟩ path.toFinset).erase ⟨r, p⟩⟩, s, visits⟩ = _
  rw [hactive]
  rfl

/-- With room for one more rule, entering a rule is followed if the calls inside of it are. -/
theorem enterRule_follows {room time : Nat} {method : Rule → Nat → Method Positions}
    (hroom : path.length + (room + 1) = maxDepth) (htime : c.fuel < time) (hp : p ≤ c.caret)
    (hcalls : ∀ r' p', p' ≤ c.caret → Follows c (openedBy (⟨r, p⟩ :: path)) (method r' p')
      (walkRule c room (⟨r, p⟩ :: path) r' p') (Within c (.singleton p')))
    (free : ¬c.Held (preferredIn path).isSome r p) {s : State} (visits : List Visit)
    (hs : Bounded c s.memo) (hfind : s.memo.find? ⟨r, p, preferredIn path⟩ = none) :
    FollowsFrom c ⟨openedBy path, s, visits⟩
      (enterRule c (fun body => visitElement c method time body p []) r p (preferredIn path))
      (walkRule c (room + 1) path r p) (Within c (.singleton p)) := by
  refine .congr ?_ (run_enterRule s visits) (run_walkRule_of_miss room free hfind)
  rw [if_neg (by omega)]
  split
  · exact Follows.cut _ _ s visits hs
  · rename_i hnew
    cases c.grammar.body? r with
    | none => exact Follows.undefined hnew _ _ s visits hs
    | some body =>
      have hdepth : (openedBy (⟨r, p⟩ :: path)).stack.length ≤ maxDepth := by
        rw [length_stack, List.length_cons]
        omega
      have hin : FollowsIn c (openedBy (⟨r, p⟩ :: path)) (⟨r, p⟩ :: path) method time
          (walkRule c room (⟨r, p⟩ :: path)) := ⟨rfl, hdepth, htime, hcalls⟩
      exact (hin.inside hp (crossElement_follows hin body hp [])).enter hnew _ s visits hs

/-- A call for a rule follows the walk. What room there is for more open rules shows on the
stack, and the time is enough for as many rules inside one another. -/
theorem visitRule_follows (room : Nat) (path : Path) (hroom : path.length + room = maxDepth)
    {time : Nat} (htime : c.fuel + room + 1 < time) (r : Rule) (p : Nat) (hp : p ≤ c.caret) :
    Follows c (openedBy path) (visitRule c time r p) (walkRule c room path r p)
      (Within c (.singleton p)) := by
  have hdepth : (openedBy path).stack.length ≤ maxDepth := by
    rw [length_stack]
    omega
  obtain ⟨time, rfl⟩ := Nat.exists_eq_add_of_le' (Nat.zero_lt_of_lt htime)
  rw [visitRule]
  refine (crossRule_follows fun free s visits hs hfind => ?_).call (le_of_mem_singleton hp) hdepth
  cases room with
  | zero =>
    refine (Follows.cut _ _ s visits hs).congr ?_ (run_walkRule_zero_of_miss free hfind)
    rw [run_enterRule, if_pos (by omega)]
  | succ room =>
    refine enterRule_follows hroom (by omega) hp (fun r' p' hp' => ?_) free visits hs hfind
    have hinside : (⟨r, p⟩ :: path : Path).length + room = maxDepth := by
      rw [List.length_cons]
      omega
    exact visitRule_follows room _ hinside (by omega) r' p' hp'

end

/-! ## The whole walk -/

/-- With time enough, the walk with a stack ends, whatever the grammar is and whatever the input. It
answers what the walk answers that knows its path and comes to the same state, nothing is open
behind it, and all its calls are in bounds. -/
theorem machine_follows (c : Setting) {time : Nat} (htime : c.fuel + maxDepth + 1 < time) :
    ∃ m : Machine, (visitRule c time c.grammar.entry 0).run {} = some ((run c).1, m) ∧
      m.opened = {} ∧ m.state = (run c).2 ∧ ∀ v ∈ m.visits, v.InBounds c := by
  have hempty : Bounded c ({} : State).memo := fun key ends hfind => by
    rw [show ({} : State).memo.find? key = none from Memo.find?_empty key] at hfind
    cases hfind
  obtain ⟨visits, hrun, hbounds, -, -⟩ :=
    visitRule_follows maxDepth [] (Nat.zero_add _) htime c.grammar.entry 0 (Nat.zero_le _) {} []
      hempty
  exact ⟨_, hrun, rfl, rfl, hbounds⟩

/-- At every caret of every stream, the walk with a stack ends: within some time and every longer
one it comes to the same state, which holds the candidates that are collected there. Each of its
calls is made in front of the caret or at it, answers with positions from there up to the caret, is
made with no more rules open than may be, and leaves open exactly those that it found open. The last
call is the one for the entry, and nothing is open behind it. -/
theorem walk_inBounds (g : Grammar) (v : Version) (s : TokenStream) (caretIndex : Nat) :
    ∃ (enough : Nat) (ends : Positions) (m : Machine),
      (∀ time ≥ enough, (visitRule (caretSetting g v s caretIndex) time g.entry 0).run {} =
        some (ends, m)) ∧
      m.state.candidates = collect g v s caretIndex ∧ m.opened = {} ∧
      m.visits.getLast? = some ⟨.singleton 0, ends, {}, {}⟩ ∧
      ∀ visit ∈ m.visits, visit.InBounds (caretSetting g v s caretIndex) := by
  have henough := Nat.lt_succ_self ((caretSetting g v s caretIndex).fuel + maxDepth + 1)
  obtain ⟨m, hrun, hopened, hstate, hbounds⟩ := machine_follows _ henough
  refine ⟨_, _, m, fun time htime => Timed.run_of_le
    (fun time => visitRule_extends _ time g.entry 0) hrun htime, ?_, hopened, ?_, hbounds⟩
  · rw [hstate]
    rfl
  · rw [visitRule] at hrun
    rw [Method.getLast?_visits hrun, hopened]

end SqlCompletion.Walk
