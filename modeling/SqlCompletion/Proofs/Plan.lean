import Mathlib.Data.Finset.Card
import Mathlib.Logic.Relation
import SqlCompletion.Proofs.Offers
set_option autoImplicit false

/-!
# The plan of a walk

A walk through an element does not look at the state: it makes notes at the caret, calls rules, and
goes on from where these end. `plan` is such a walk as a tree of notes and calls, with a branch for
every answer that a call may get. To run the plan is to walk (`walk_eq_run`). What a walk through
an element finds is proved of its plan, by induction on the three shapes of a plan and not on the
ten shapes of an element again.

What a plan does is told by events. It serves (`Plan.Serves`) when, whatever fair answers its calls
get, only events happen that may and all events happen that must. The ways of putting plans together
keep that: one plan after another (`Plan.Serves.bind`), the same plan from each of some positions
(`Plan.Serves.fromEach`), and a repetition until nothing new is reached (`Plan.Serves.rounds`). The
fuel of a repetition always lasts, since every round reaches a position up to the caret that was not
reached before (`Setting.unreached_union_lt`).

What happens when a plan is run depends on how its notes and calls go from the states that they
meet. That is a `Course`. On a course a run keeps what the notes and the calls keep
(`Course.run_keeps`), does what the plan finds (`Course.run_finds`), and does not depend on how the
calls are answered otherwise (`Course.run_congr`). So a fact about states is said of notes and calls
only. Two runs side by side are compared by an induction on the plan, which has three cases.
-/

namespace SqlCompletion

theorem Positions.exists_mem_of_ne_empty {ps : Positions} (h : ps ≠ ∅) : ∃ q, q ∈ ps := by
  by_contra hnone
  exact h (Positions.ext_mem fun q => by simpa using fun hq => hnone ⟨q, hq⟩)

namespace Walk

/-! ## Plans -/

/-- Notes and calls, one after another, and the positions at which it all ends. -/
inductive Plan where
  | done (ends : Positions)
  | note (spot : Spot) (rest : Plan)
  | call (r : Rule) (p : Nat) (rest : Positions → Plan)

namespace Plan

/-- One plan after another. -/
def bind : Plan → (Positions → Plan) → Plan
  | done ends, f => f ends
  | note spot rest, f => note spot (rest.bind f)
  | call r p rest, f => call r p fun ends => (rest ends).bind f

/-- Makes the notes inside the rules on the path, and the calls by `visit`. -/
def run (path : Path) (visit : Rule → Nat → Step Positions) : Plan → Step Positions
  | done ends => return ends
  | note spot rest => do
    offerAt path spot
    rest.run path visit
  | call r p rest => do (rest (← visit r p)).run path visit

/-- The same plan from each of some positions; `known` holds the ends so far. -/
def each (f : Nat → Plan) : List Nat → (known : Positions) → Plan
  | [], known => done known
  | p :: starts, known => (f p).bind fun ends => each f starts (known.union ends)

/-- The same plan again and again, as `repeated` does it. -/
def rounds (f : Nat → Plan) : (fuel : Nat) → (reached fresh : Positions) → Plan
  | 0, reached, _ => done reached
  | fuel + 1, reached, fresh =>
    if fresh.isEmpty then done reached
    else (each f fresh.toList ∅).bind fun ends =>
      rounds f fuel (reached.union (ends.diff reached)) (ends.diff reached)

variable {path : Path} {visit : Rule → Nat → Step Positions}

theorem run_bind (x : Plan) (f : Positions → Plan) :
    (x.bind f).run path visit = (do (f (← x.run path visit)).run path visit) := by
  induction x with
  | done ends => rfl
  | note spot rest ih =>
    rw [bind, run, run, ih, bind_assoc]
  | call r p rest ih =>
    rw [bind, run, run, bind_assoc]
    exact bind_congr fun ends => ih ends

theorem run_each (f : Nat → Plan) (starts : List Nat) (known : Positions) :
    (each f starts known).run path visit =
      starts.foldlM (fun ends p => return ends.union (← (f p).run path visit)) known := by
  induction starts generalizing known with
  | nil => rfl
  | cons p starts ih =>
    rw [each, run_bind, List.foldlM_cons, bind_assoc]
    refine bind_congr fun ends => ?_
    rw [ih, pure_bind]

theorem run_rounds (f : Nat → Plan) (fuel : Nat) (reached fresh : Positions) :
    (rounds f fuel reached fresh).run path visit =
      repeated (fun p => (f p).run path visit) fuel reached fresh := by
  induction fuel generalizing reached fresh with
  | zero => rfl
  | succ fuel ih =>
    rw [rounds, repeated]
    split
    · rfl
    · rw [run_bind, run_each]
      exact bind_congr fun ends => ih _ _

end Plan

section

variable (c : Setting)

mutual

/-- What a walk through an element does. -/
def plan : Element → (start : Nat) → (follow : List Element) → Plan
  | .token t, p, follow =>
    if p = c.caret then .note (.token t follow) (.done ∅)
    else .done (if c.input[p]? = some t then .singleton (p + 1) else ∅)
  | .ident, p, _ =>
    if p = c.caret then .note .ident (.done ∅)
    else .done (if (c.input[p]?).any Terminal.isNameLike then .singleton (p + 1) else ∅)
  | .rule r, p, _ => .call r p .done
  | .seq items, p, _ => planSeq items (.singleton p)
  | .choice alternatives, p, follow =>
    planChoice alternatives p (Element.choiceFollow alternatives follow) ∅
  | .opt e, p, _ => (plan e p []).bind fun ends => .done (ends.insert p)
  | .star e, p, _ => .rounds (fun q => plan e q []) c.fuel (.singleton p) (.singleton p)
  | .plus e, p, _ =>
    (plan e p []).bind fun first => .rounds (fun q => plan e q []) c.fuel first first
  | .since v e, p, follow => if v ≤ c.version then plan e p follow else .done ∅
  | .before v e, p, follow => if c.version < v then plan e p follow else .done ∅

/-- What a walk through a sequence does. -/
def planSeq : List Element → (starts : Positions) → Plan
  | [], starts => .done starts
  | e :: rest, starts =>
    if starts.isEmpty then .done ∅
    else (Plan.each (fun p => plan e p rest) starts.toList ∅).bind fun ends => planSeq rest ends

/-- What a walk through some alternatives does. -/
def planChoice : List Element → (start : Nat) → (follow : List Element) → (known : Positions) →
    Plan
  | [], _, _, known => .done known
  | e :: rest, p, follow, known =>
    (plan e p follow).bind fun ends => planChoice rest p follow (known.union ends)

end

end

section

variable {c : Setting} {path : Path} {visit : Rule → Nat → Step Positions}

mutual

/-- To run the plan of an element is to walk through it. -/
theorem walk_eq_run (e : Element) (p : Nat) (follow : List Element) :
    walk c path visit e p follow = (plan c e p follow).run path visit := by
  cases e with
  | token t =>
    rw [walk, plan]
    split
    · rw [offerToken_eq]
      rfl
    · rfl
  | ident =>
    rw [walk, plan]
    split
    · rw [offerEnclosing_return_eq]
      rfl
    · rfl
  | rule r =>
    rw [walk, plan]
    rfl
  | seq items =>
    rw [walk, plan]
    exact walkSeq_eq_run items _
  | choice alternatives =>
    rw [walk, plan]
    exact walkChoice_eq_run alternatives p _ ∅
  | opt e =>
    rw [walk, plan, Plan.run_bind, walk_eq_run e p []]
    rfl
  | star e =>
    rw [walk, plan, Plan.run_rounds]
    simp only [walk_eq_run e _ []]
  | plus e =>
    rw [walk, plan, Plan.run_bind, walk_eq_run e p []]
    refine bind_congr fun first => ?_
    rw [Plan.run_rounds]
    simp only [walk_eq_run e _ []]
  | since u e =>
    rw [walk, plan]
    split
    · exact walk_eq_run e p follow
    · rfl
  | before u e =>
    rw [walk, plan]
    split
    · exact walk_eq_run e p follow
    · rfl

theorem walkSeq_eq_run (items : List Element) (starts : Positions) :
    walkSeq c path visit items starts = (planSeq c items starts).run path visit := by
  cases items with
  | nil =>
    rw [walkSeq, planSeq]
    rfl
  | cons e rest =>
    rw [walkSeq, planSeq]
    split
    · rfl
    · rw [Plan.run_bind, Plan.run_each, fromEach]
      simp only [walk_eq_run e _ rest]
      exact bind_congr fun ends => walkSeq_eq_run rest ends

theorem walkChoice_eq_run (alternatives : List Element) (p : Nat) (follow : List Element)
    (known : Positions) :
    walkChoice c path visit alternatives p follow known =
      (planChoice c alternatives p follow known).run path visit := by
  cases alternatives with
  | nil =>
    rw [walkChoice, planChoice]
    rfl
  | cons e rest =>
    rw [walkChoice, planChoice, Plan.run_bind, walk_eq_run e p follow]
    exact bind_congr fun ends => walkChoice_eq_run rest p follow _

end

end

/-! ## Events -/

/-- What happens when a plan is run. -/
inductive Event where
  | ended (q : Nat)
  | noted (spot : Spot)
  | called (r : Rule) (p : Nat)

/-- The event is a note or a call. -/
def Event.isAct : Event → Bool
  | ended _ => false
  | noted _ => true
  | called _ _ => true

namespace Plan

section

variable (fair : Rule → Nat → Positions → Prop)

/-- Only events happen that may, whatever fair answers the calls get. -/
def Keeps (may : Event → Prop) : Plan → Prop
  | done ends => ∀ q ∈ ends, may (.ended q)
  | note spot rest => may (.noted spot) ∧ rest.Keeps may
  | call r p rest => may (.called r p) ∧ ∀ ends, fair r p ends → (rest ends).Keeps may

/-- The event happens, whatever fair answers the calls get. -/
def Finds (event : Event) : Plan → Prop
  | done ends => ∃ q ∈ ends, event = .ended q
  | note spot rest => event = .noted spot ∨ rest.Finds event
  | call r p rest => event = .called r p ∨ ∀ ends, fair r p ends → (rest ends).Finds event

/-- Whatever fair answers the calls get, only events happen that may, and all that must. -/
structure Serves (x : Plan) (may must : Event → Prop) : Prop where
  keeps : x.Keeps fair may
  finds : ∀ event, must event → x.Finds fair event

end

variable {fair : Rule → Nat → Positions → Prop} {x : Plan} {f : Positions → Plan}
  {may must may' must' : Event → Prop} {event : Event}

theorem Keeps.mono (h : x.Keeps fair may) (himp : ∀ event, may event → may' event) :
    x.Keeps fair may' := by
  induction x with
  | done ends => exact fun q hq => himp _ (h q hq)
  | note spot rest ih => exact ⟨himp _ h.1, ih h.2⟩
  | call r p rest ih => exact ⟨himp _ h.1, fun ends hfair => ih ends (h.2 ends hfair)⟩

theorem Keeps.bind (h : x.Keeps fair may) (hacts : ∀ event, event.isAct → may event → may' event)
    (hrest : ∀ ends : Positions, (∀ q ∈ ends, may (.ended q)) → (f ends).Keeps fair may') :
    (x.bind f).Keeps fair may' := by
  induction x with
  | done ends => exact hrest ends h
  | note spot rest ih => exact ⟨hacts _ rfl h.1, ih h.2⟩
  | call r p rest ih => exact ⟨hacts _ rfl h.1, fun ends hfair => ih ends (h.2 ends hfair)⟩

/-- An act of the first of two plans. -/
theorem Finds.bind_left (hact : event.isAct) (h : x.Finds fair event) :
    (x.bind f).Finds fair event := by
  induction x with
  | done ends =>
    obtain ⟨q, -, rfl⟩ := h
    cases hact
  | note spot rest ih => exact h.imp_right ih
  | call r p rest ih => exact h.imp_right fun hrest ends hfair => ih ends (hrest ends hfair)

/-- An event of the second of two plans: it goes on from positions at which the first one may end,
and from all at which it must. -/
theorem Serves.bind_right (h : x.Serves fair may must)
    (hrest : ∀ ends : Positions, (∀ q ∈ ends, may (.ended q)) →
      (∀ q, must (.ended q) → q ∈ ends) → (f ends).Finds fair event) :
    (x.bind f).Finds fair event := by
  obtain ⟨hkeeps, hfinds⟩ := h
  replace hfinds : ∀ q, must (.ended q) → x.Finds fair (.ended q) := fun q hq => hfinds _ hq
  induction x with
  | done ends =>
    refine hrest ends hkeeps fun q hq => ?_
    obtain ⟨q', hmem, heq⟩ := hfinds q hq
    cases heq
    exact hmem
  | note spot rest ih =>
    exact .inr (ih hkeeps.2 fun q hq => (hfinds q hq).resolve_left fun h => nomatch h)
  | call r p rest ih =>
    refine .inr fun ends hfair => ih ends (hkeeps.2 ends hfair) fun q hq => ?_
    exact (hfinds q hq).resolve_left (fun h => nomatch h) ends hfair

theorem Serves.mono (h : x.Serves fair may must) (hmay : ∀ event, may event → may' event)
    (hmust : ∀ event, must' event → must event) : x.Serves fair may' must' :=
  ⟨h.keeps.mono hmay, fun event hevent => h.finds event (hmust event hevent)⟩

/-- A plan without notes and calls. -/
theorem Serves.done {ends : Positions} (hmay : ∀ q ∈ ends, may (.ended q))
    (hmust : ∀ event, must event → ∃ q ∈ ends, event = .ended q) :
    (done ends).Serves fair may must :=
  ⟨hmay, hmust⟩

/-- One plan after another: an event that must happen is an act of the first, or one that must
happen in the second. -/
theorem Serves.bind {must₂ : Positions → Event → Prop} (h : x.Serves fair may must)
    (hacts : ∀ event, event.isAct → may event → may' event)
    (hrest : ∀ ends : Positions, (∀ q ∈ ends, may (.ended q)) →
      (f ends).Serves fair may' (must₂ ends))
    (hmust : ∀ event, must' event → (event.isAct ∧ must event) ∨
      ∀ ends : Positions, (∀ q, must (.ended q) → q ∈ ends) → must₂ ends event) :
    (x.bind f).Serves fair may' must' where
  keeps := h.keeps.bind hacts fun ends hends => (hrest ends hends).keeps
  finds := by
    intro event hevent
    rcases hmust event hevent with ⟨hact, hfirst⟩ | hsecond
    · exact (h.finds event hfirst).bind_left hact
    · exact h.bind_right fun ends hends hfull =>
        (hrest ends hends).finds event (hsecond ends hfull)

end Plan

/-! ## Running a plan -/

/-- How the notes and the calls of a plan go. The states are `kept`, each one comes `after` the one
in front of it, and calls get answers that are `fair`. Where all comes to an end that is `fine`, an
answer is also `full`, and what an event leaves behind is `done`. -/
structure Course (path : Path) (visit : Rule → Nat → Step Positions) (may : Event → Prop)
    (fair full : Rule → Nat → Positions → Prop) (kept fine : State → Prop)
    (after : State → State → Prop) (done : Event → State → Prop) : Prop where
  refl : ∀ s, after s s
  trans : ∀ {s s' s''}, after s s' → after s' s'' → after s s''
  fineBefore : ∀ {s s'}, after s s' → fine s' → fine s
  lasts : ∀ {event s s'}, after s s' → done event s → done event s'
  note : ∀ {spot s}, may (.noted spot) → kept s →
    kept ((offerAt path spot).run s).2 ∧ after s ((offerAt path spot).run s).2 ∧
      done (.noted spot) ((offerAt path spot).run s).2
  call : ∀ {r p s}, may (.called r p) → kept s →
    kept ((visit r p).run s).2 ∧ after s ((visit r p).run s).2 ∧
      fair r p ((visit r p).run s).1 ∧ (fine ((visit r p).run s).2 →
        full r p ((visit r p).run s).1 ∧ done (.called r p) ((visit r p).run s).2)

namespace Course

variable {path : Path} {visit visit' : Rule → Nat → Step Positions} {may : Event → Prop}
  {fair full : Rule → Nat → Positions → Prop} {kept fine : State → Prop}
  {after : State → State → Prop} {done : Event → State → Prop} {x : Plan} {event : Event}
  {s : State}

/-- A run of a plan keeps what its notes and calls keep, and ends where the plan may end. -/
theorem run_keeps (hc : Course path visit may fair full kept fine after done)
    (hx : x.Keeps fair may) (hs : kept s) :
    kept ((x.run path visit).run s).2 ∧ after s ((x.run path visit).run s).2 ∧
      ∀ q ∈ ((x.run path visit).run s).1, may (.ended q) := by
  induction x generalizing s with
  | done ends => exact ⟨hs, hc.refl s, hx⟩
  | note spot rest ih =>
    obtain ⟨hkept, hafter, -⟩ := hc.note hx.1 hs
    obtain ⟨hlast, hlater, hends⟩ := ih hx.2 hkept
    exact ⟨hlast, hc.trans hafter hlater, hends⟩
  | call r p rest ih =>
    obtain ⟨hkept, hafter, hfair, -⟩ := hc.call hx.1 hs
    obtain ⟨hlast, hlater, hends⟩ := ih _ (hx.2 _ hfair) hkept
    exact ⟨hlast, hc.trans hafter hlater, hends⟩

/-- What a plan finds is an end of its run, or an act that is done when the run is over. -/
theorem run_finds (hc : Course path visit may fair full kept fine after done)
    (hx : x.Keeps fair may) (hfinds : x.Finds full event) (hs : kept s)
    (hfine : fine ((x.run path visit).run s).2) :
    (∃ q ∈ ((x.run path visit).run s).1, event = .ended q) ∨
      (event.isAct ∧ done event ((x.run path visit).run s).2) := by
  induction x generalizing s with
  | done ends => exact .inl hfinds
  | note spot rest ih =>
    obtain ⟨hkept, -, hdone⟩ := hc.note hx.1 hs
    rcases hfinds with rfl | hfinds
    · exact .inr ⟨rfl, hc.lasts (hc.run_keeps hx.2 hkept).2.1 hdone⟩
    · exact ih hx.2 hfinds hkept hfine
  | call r p rest ih =>
    obtain ⟨hkept, -, hfair, hanswered⟩ := hc.call hx.1 hs
    have hrest := hx.2 _ hfair
    have hlater := (hc.run_keeps hrest hkept).2.1
    obtain ⟨hfull, hdone⟩ := hanswered (hc.fineBefore hlater hfine)
    rcases hfinds with rfl | hfinds
    · exact .inr ⟨rfl, hc.lasts hlater hdone⟩
    · exact ih _ hrest (hfinds _ hfull) hkept hfine

theorem mem_of_finds (hc : Course path visit may fair full kept fine after done)
    (hx : x.Keeps fair may) {q : Nat} (hfinds : x.Finds full (.ended q)) (hs : kept s)
    (hfine : fine ((x.run path visit).run s).2) : q ∈ ((x.run path visit).run s).1 := by
  rcases hc.run_finds hx hfinds hs hfine with ⟨q', hq, heq⟩ | ⟨hact, -⟩
  · cases heq
    exact hq
  · cases hact

theorem done_of_finds (hc : Course path visit may fair full kept fine after done)
    (hx : x.Keeps fair may) (hact : event.isAct) (hfinds : x.Finds full event) (hs : kept s)
    (hfine : fine ((x.run path visit).run s).2) : done event ((x.run path visit).run s).2 := by
  rcases hc.run_finds hx hfinds hs hfine with ⟨q, -, rfl⟩ | ⟨-, hdone⟩
  · cases hact
  · exact hdone

/-- Two ways to visit rules make no difference where they make none to the calls that may happen. -/
theorem run_congr (hc : Course path visit may fair full kept fine after done)
    (hx : x.Keeps fair may)
    (hsame : ∀ {r p s}, may (.called r p) → kept s → (visit' r p).run s = (visit r p).run s)
    (hs : kept s) : (x.run path visit').run s = (x.run path visit).run s := by
  induction x generalizing s with
  | done ends => rfl
  | note spot rest ih => exact ih hx.2 (hc.note hx.1 hs).1
  | call r p rest ih =>
    obtain ⟨hkept, -, hfair, -⟩ := hc.call hx.1 hs
    rw [Plan.run, Plan.run, StateT.run_bind, StateT.run_bind, hsame hx.1 hs]
    exact ih _ (hx.2 _ hfair) hkept

end Course

namespace Plan

variable {fair : Rule → Nat → Positions → Prop} {event : Event}

/-! ## The same plan from some positions -/

/-- Events of plans from some starts, with ends that are known already. -/
def Joined (known : Positions) (starts : List Nat) (events : Nat → Event → Prop)
    (event : Event) : Prop :=
  (∃ q ∈ known, event = .ended q) ∨ ∃ p ∈ starts, events p event

section

variable {f : Nat → Plan} {mays musts : Nat → Event → Prop}

theorem Serves.each (starts : List Nat) (hf : ∀ p ∈ starts, (f p).Serves fair (mays p) (musts p))
    (known : Positions) :
    (Plan.each f starts known).Serves fair (Joined known starts mays)
      (Joined known starts musts) := by
  induction starts generalizing known with
  | nil =>
    refine .done (fun q hq => .inl ⟨q, hq, rfl⟩) ?_
    rintro event (hevent | ⟨p, hp, -⟩)
    · exact hevent
    · cases hp
  | cons p starts ih =>
    have hrest := fun (ends : Positions) =>
      ih (fun m hm => hf m (List.mem_cons_of_mem p hm)) (known.union ends)
    refine (hf p List.mem_cons_self).bind (fun event _ h => .inr ⟨p, List.mem_cons_self, h⟩)
      (fun ends hends => (hrest ends).mono ?_ fun _ h => h) ?_
    · rintro event (⟨q, hq, rfl⟩ | ⟨m, hm, h⟩)
      · exact (Positions.mem_union.1 hq).elim (fun hq => .inl ⟨q, hq, rfl⟩)
          fun hq => .inr ⟨p, List.mem_cons_self, hends q hq⟩
      · exact .inr ⟨m, List.mem_cons_of_mem p hm, h⟩
    · rintro event (⟨q, hq, rfl⟩ | ⟨m, hm, h⟩)
      · exact .inr fun ends _ => .inl ⟨q, Positions.mem_union.2 (.inl hq), rfl⟩
      · rcases List.mem_cons.1 hm with rfl | hm
        · cases event with
          | ended q =>
            exact .inr fun ends hfull => .inl ⟨q, Positions.mem_union.2 (.inr (hfull q h)), rfl⟩
          | noted | called => exact .inl ⟨rfl, h⟩
        · exact .inr fun ends _ => .inr ⟨m, hm, h⟩

/-- The events of the plan from each of some starts. -/
theorem Serves.fromEach {starts : Positions}
    (hf : ∀ p ∈ starts, (f p).Serves fair (mays p) (musts p)) :
    (Plan.each f starts.toList ∅).Serves fair (fun event => ∃ p ∈ starts, mays p event)
      (fun event => ∃ p ∈ starts, musts p event) := by
  have heach := Serves.each starts.toList (fun p hp => hf p (Positions.mem_toList.1 hp)) ∅
  refine heach.mono ?_ ?_
  · rintro event (⟨q, hq, -⟩ | ⟨p, hp, h⟩)
    · cases Positions.not_mem_empty q hq
    · exact ⟨p, Positions.mem_toList.1 hp, h⟩
  · rintro event ⟨p, hp, h⟩
    exact .inr ⟨p, Positions.mem_toList.2 hp, h⟩

/-! ## Repetitions -/

end

end Plan

section

variable {c : Setting} {goes : Nat → Nat → Prop}

open Relation (ReflTransGen)

/-- What can be reached from some positions. -/
def ReachedFrom (goes : Nat → Nat → Prop) (starts : Positions) (q : Nat) : Prop :=
  ∃ p ∈ starts, ReflTransGen goes p q

/-- What has been gone on from goes to what has been reached. -/
def Closed (goes : Nat → Nat → Prop) (reached fresh : Positions) : Prop :=
  ∀ p ∈ reached, p ∉ fresh → ∀ q, goes p q → q ∈ reached

/-- How many positions up to the caret have not been reached. -/
def Setting.unreached (c : Setting) (reached : Positions) : Nat :=
  (Finset.range (c.caret + 1) \ reached.latestFirst.toFinset).card

theorem Setting.unreached_lt_fuel (c : Setting) (reached : Positions) :
    c.unreached reached < c.fuel := by
  have hle : c.unreached reached ≤ (Finset.range (c.caret + 1)).card :=
    Finset.card_le_card Finset.sdiff_subset
  rw [Finset.card_range] at hle
  unfold Setting.fuel
  omega

/-- A new position leaves fewer that have not been reached. -/
theorem Setting.unreached_union_lt {reached next : Positions} {q : Nat} (hq : q ∈ next)
    (hnew : q ∉ reached) (hle : q ≤ c.caret) :
    c.unreached (reached.union next) < c.unreached reached := by
  refine Finset.card_lt_card ((Finset.ssubset_iff_of_subset ?_).2 ⟨q, ?_, ?_⟩)
  · intro m hm
    simp only [Finset.mem_sdiff, List.mem_toFinset, ← Positions.mem_def, Positions.mem_union,
      not_or] at hm ⊢
    exact ⟨hm.1, hm.2.1⟩
  · simp only [Finset.mem_sdiff, Finset.mem_range, List.mem_toFinset, ← Positions.mem_def]
    exact ⟨Nat.lt_succ_of_le hle, hnew⟩
  · simp only [Finset.mem_sdiff, List.mem_toFinset, ← Positions.mem_def, Positions.mem_union]
    exact fun h => h.2 (.inr hq)

/-- Where all that was reached has been gone on from, nothing more can be. -/
theorem Closed.mem_of_reachedFrom {reached fresh : Positions} {q : Nat}
    (h : Closed goes reached fresh) (hfresh : fresh = ∅) (hq : ReachedFrom goes reached q) :
    q ∈ reached := by
  subst hfresh
  obtain ⟨p, hp, hreach⟩ := hq
  induction hreach with
  | refl => exact hp
  | tail _ hgoes ih => exact h _ ih (Positions.not_mem_empty _) _ hgoes

section

variable {reached fresh known : Positions}

/-- One round goes on from all that is fresh, so that what was reached is closed again but for
what is new. -/
theorem Closed.round (h : Closed goes reached fresh)
    (hfull : ∀ q, (∃ p ∈ fresh, goes p q) → q ∈ known) :
    Closed goes (reached.union (known.diff reached)) (known.diff reached) := by
  intro p hp hold q hgoes
  have hpr : p ∈ reached := (Positions.mem_union.1 hp).resolve_right hold
  by_cases hq : q ∈ reached
  · exact Positions.mem_union.2 (.inl hq)
  · have hfresh : p ∈ fresh := by
      by_contra hnot
      exact hq (h p hpr hnot q hgoes)
    exact Positions.mem_union.2 (.inr (Positions.mem_diff.2 ⟨hfull q ⟨p, hfresh, hgoes⟩, hq⟩))

/-- What one round adds does not reach further. -/
theorem ReachedFrom.of_round {q : Nat} (hfresh : ∀ p ∈ fresh, p ∈ reached)
    (hknown : ∀ q ∈ known, ∃ p ∈ fresh, goes p q)
    (h : ReachedFrom goes (reached.union (known.diff reached)) q) :
    ReachedFrom goes reached q := by
  obtain ⟨m, hm, hreach⟩ := h
  rcases Positions.mem_union.1 hm with hm | hm
  · exact ⟨m, hm, hreach⟩
  · obtain ⟨p, hp, hgoes⟩ := hknown m (Positions.mem_diff.1 hm).1
    exact ⟨p, hfresh p hp, .head hgoes hreach⟩

theorem ReachedFrom.round {q : Nat} (h : ReachedFrom goes reached q) (next : Positions) :
    ReachedFrom goes (reached.union next) q := by
  obtain ⟨p, hp, hreach⟩ := h
  exact ⟨p, Positions.mem_union.2 (.inl hp), hreach⟩

end

end

namespace Plan

section

variable {fair : Rule → Nat → Positions → Prop} {f : Nat → Plan}
  {mays musts : Nat → Event → Prop} {event : Event}

/-- A round of a plan goes from one position to another. -/
abbrev goes (events : Nat → Event → Prop) (p q : Nat) : Prop := events p (.ended q)

/-- Events of a repetition: it ends at what is reached from `reached`, and does from there what the
plan does. -/
inductive Repeated (events : Nat → Event → Prop) (reached : Positions) : Event → Prop
  | ended {q : Nat} (h : ReachedFrom (goes events) reached q) : Repeated events reached (.ended q)
  | act {q : Nat} {event : Event} (h : ReachedFrom (goes events) reached q) (hact : event.isAct)
      (hevent : events q event) : Repeated events reached event

/-- Events of a repetition that has come this far: it does the rest where it has not gone on from
yet. -/
inductive Ahead (events : Nat → Event → Prop) (reached fresh : Positions) : Event → Prop
  | ended {q : Nat} (h : ReachedFrom (goes events) reached q) :
      Ahead events reached fresh (.ended q)
  | act {q : Nat} {event : Event} (h : ReachedFrom (goes events) reached q) (hact : event.isAct)
      (hnew : q ∈ fresh ∨ q ∉ reached) (hevent : events q event) : Ahead events reached fresh event

/-- The rounds that are left serve what a repetition has ahead. -/
def ServesAhead (fair : Rule → Nat → Positions → Prop) (f : Nat → Plan)
    (mays musts : Nat → Event → Prop) (fuel : Nat) (reached fresh : Positions) : Prop :=
  (rounds f fuel reached fresh).Serves fair (Repeated mays reached)
    (fun event => Closed (goes musts) reached fresh ∧ Ahead musts reached fresh event)

theorem servesAhead_of_closed {fuel : Nat} {reached fresh : Positions} (hfresh : fresh = ∅) :
    ServesAhead fair f mays musts fuel reached fresh := by
  have hrounds : rounds f fuel reached fresh = .done reached := by
    cases fuel with
    | zero => rfl
    | succ fuel => rw [rounds, if_pos (Positions.isEmpty_iff.2 hfresh)]
  rw [ServesAhead, hrounds]
  refine .done (fun q hq => .ended ⟨q, hq, .refl⟩) ?_
  rintro event ⟨hclosed, hevent⟩
  cases hevent with
  | ended h => exact ⟨_, hclosed.mem_of_reachedFrom hfresh h, rfl⟩
  | act h _ hnew =>
    subst hfresh
    rcases hnew with hold | hnew
    · cases Positions.not_mem_empty _ hold
    · exact absurd (hclosed.mem_of_reachedFrom rfl h) hnew

theorem Repeated.of_round {reached fresh known : Positions} (hfresh : ∀ p ∈ fresh, p ∈ reached)
    (hknown : ∀ q ∈ known, ∃ p ∈ fresh, goes mays p q)
    (h : Repeated mays (reached.union (known.diff reached)) event) :
    Repeated mays reached event := by
  cases h with
  | ended h => exact .ended (h.of_round hfresh hknown)
  | act h hact hevent => exact .act (h.of_round hfresh hknown) hact hevent

theorem servesAhead_round {fuel : Nat} {reached fresh : Positions}
    (hfresh : ∀ p ∈ fresh, p ∈ reached) (hsome : fresh.isEmpty = false)
    (hf : ∀ p ∈ fresh, (f p).Serves fair (mays p) (musts p))
    (hrest : ∀ known : Positions, (∀ q ∈ known, ∃ p ∈ fresh, goes mays p q) →
      ServesAhead fair f mays musts fuel (reached.union (known.diff reached))
        (known.diff reached)) :
    ServesAhead fair f mays musts (fuel + 1) reached fresh := by
  rw [ServesAhead, rounds, if_neg (by rw [hsome]; exact Bool.false_ne_true)]
  refine (Serves.fromEach hf).bind ?_ (fun known hknown =>
    (hrest known hknown).mono (fun _ h => h.of_round hfresh hknown) fun _ h => h) ?_
  · rintro event hact ⟨p, hp, h⟩
    exact .act ⟨p, hfresh p hp, .refl⟩ hact h
  · rintro event ⟨hclosed, hevent⟩
    cases hevent with
    | ended h => exact .inr fun known hfull => ⟨hclosed.round hfull, .ended (h.round _)⟩
    | @act q _ h hact hnew hevent =>
      -- What happens where this round goes on from belongs to it, and all else to the rest.
      by_cases hq : q ∈ fresh
      · exact .inl ⟨hact, q, hq, hevent⟩
      · refine .inr fun known hfull =>
          ⟨hclosed.round hfull, .act (h.round _) hact ?_ hevent⟩
        by_cases hnext : q ∈ known.diff reached
        · exact .inl hnext
        · exact .inr fun h => (Positions.mem_union.1 h).elim (hnew.resolve_left hq) hnext

variable {c : Setting} {live : Nat → Prop}

theorem servesAhead (hle : ∀ p, live p → p ≤ c.caret)
    (hstep : ∀ p q, live p → goes mays p q → live q)
    (hf : ∀ p, live p → (f p).Serves fair (mays p) (musts p)) (fuel : Nat)
    (reached fresh : Positions) (hreached : ∀ p ∈ reached, live p)
    (hfresh : ∀ p ∈ fresh, p ∈ reached) (hfuel : fresh = ∅ ∨ c.unreached reached < fuel) :
    ServesAhead fair f mays musts fuel reached fresh := by
  induction fuel generalizing reached fresh with
  | zero => exact servesAhead_of_closed (hfuel.resolve_right (Nat.not_lt_zero _))
  | succ fuel ih =>
    cases hempty : fresh.isEmpty with
    | true => exact servesAhead_of_closed (Positions.isEmpty_iff.1 hempty)
    | false =>
      have hlt : c.unreached reached < fuel + 1 := by
        refine hfuel.resolve_left fun h => ?_
        rw [Positions.isEmpty_iff.2 h] at hempty
        cases hempty
      refine servesAhead_round hfresh hempty
        (fun p hp => hf p (hreached p (hfresh p hp))) fun known hknown => ?_
      have hnew : ∀ q ∈ known.diff reached, live q := by
        intro q hq
        obtain ⟨p, hp, hgoes⟩ := hknown q (Positions.mem_diff.1 hq).1
        exact hstep p q (hreached p (hfresh p hp)) hgoes
      refine ih _ _ ?_ (fun p hp => Positions.mem_union.2 (.inr hp)) ?_
      · intro p hp
        exact (Positions.mem_union.1 hp).elim (hreached p) (hnew p)
      · by_cases hnone : known.diff reached = ∅
        · exact .inl hnone
        · obtain ⟨q, hq⟩ := Positions.exists_mem_of_ne_empty hnone
          have hless := c.unreached_union_lt hq (Positions.mem_diff.1 hq).2 (hle q (hnew q hq))
          exact .inr (by omega)

/-- All the rounds of a repetition from some positions. -/
theorem Serves.rounds {starts : Positions} (hle : ∀ p, live p → p ≤ c.caret)
    (hstep : ∀ p q, live p → goes mays p q → live q)
    (hf : ∀ p, live p → (f p).Serves fair (mays p) (musts p))
    (hstarts : ∀ p ∈ starts, live p) :
    (rounds f c.fuel starts starts).Serves fair (Repeated mays starts)
      (Repeated musts starts) := by
  have hclosed : Closed (goes musts) starts starts := fun p hp hnot => absurd hp hnot
  refine (servesAhead hle hstep hf c.fuel starts starts hstarts (fun _ h => h)
    (.inr (c.unreached_lt_fuel starts))).mono (fun _ h => h) fun event hevent => ⟨hclosed, ?_⟩
  cases hevent with
  | ended h => exact .ended h
  | act h hact hevent => exact .act h hact (em _) hevent

end

end Plan

end Walk

end SqlCompletion
