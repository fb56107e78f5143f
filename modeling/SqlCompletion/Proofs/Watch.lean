import SqlCompletion.Proofs.Exactness
set_option autoImplicit false

/-!
# Watched walks

Some branches of a walk are there for grammars with a defect: one for the call of a rule that is
open at the same position already, and one for a rule without a body. To say that a walk never
comes to such a branch, something else is put in its place. If that makes no difference whatever it
is, the branch was not taken.

`watchedRule` is the walk through a rule with a `Watch` put in. It is the only copy of the walk:
`watchedRun_eq_run` tells for every watch when it makes no difference. It does not for a call of an
open rule where it lets the calls of left recursive rules pass, because every call stands where
partial derivations lead, and such a call would be a left recursion. And it does not for a rule
without a body where it leaves the rules alone that are used and not defined. The grammars that
have no such rules take any watch.

Nothing is said of the third cut, the limit on open rules: walks do come to that one.
-/

namespace SqlCompletion.Walk

/-- What is done in place of some branches of a walk. By itself it leaves the walk as it is. -/
structure Watch where
  /-- Done in place of the call of a rule that is open at the same position. It is given the
  call. -/
  reentry : Path → Rule → (start : Nat) → (call : Step Positions) → Step Positions :=
    fun _ _ _ call => call
  /-- Done where a rule is entered that has no body. -/
  undefined : Path → Rule → (start : Nat) → Step Positions :=
    fun _ _ _ => cutOff fun cuts => { cuts with undefinedRule := true }

/-- Calls a rule, unless it is open at the same position. -/
def Watch.call (w : Watch) (path : Path) (r : Rule) (start : Nat) (call : Step Positions) :
    Step Positions :=
  if (⟨r, start⟩ : Frame) ∈ path then w.reentry path r start call else call

/-- The walk through a rule with a watch. -/
def watchedRule (c : Setting) (w : Watch) : (room : Nat) → Path → Rule → (start : Nat) →
    Step Positions
  | room, path, r, start => w.call path r start do
    if start = c.caret && (r.isPreferred || (enclosing? path).isSome) then
      if !(← offerEnclosing path) then offerRule r (chain path)
      return ∅
    else
      let key : MemoKey := ⟨r, start, (enclosing? path).map Prod.fst⟩
      match (← get).memo.find? key with
      | some ends => return ends
      | none =>
        match room with
        | 0 => cutOff fun cuts => { cuts with depth := true }
        | room + 1 =>
          if (⟨r, start⟩ : Frame) ∈ path then
            cutOff fun cuts => { cuts with leftRecursion := true }
          else
            match c.grammar.body? r with
            | none => w.undefined path r start
            | some body => do
              let inside := ⟨r, start⟩ :: path
              let ends ← walk c inside (watchedRule c w room inside) body start []
              modify fun s => { s with memo := s.memo.insert key ends }
              return ends

/-- The whole walk with a watch. -/
def watchedRun (c : Setting) (w : Watch) : Positions × State :=
  (watchedRule c w maxDepth [] c.grammar.entry 0).run {}

section

variable {c : Setting} {path : Path} {visit visit' : Rule → Nat → Step Positions} {s : State}

/-- Two ways to visit rules make no difference to a walk where they make none to the calls that
ways lead to. -/
theorem walk_congr {e : Element} {follow : List Element} {p : Nat} (h : Stands c path e follow p)
    (hvisits : VisitsWays c path visit)
    (hsame : ∀ {r : Rule} {follow' : List Element} {q : Nat}, Stands c path (.rule r) follow' q →
      ∀ {s : State}, Good c s → (visit' r q).run s = (visit r q).run s)
    (hs : Good c s) :
    (walk c path visit' e p follow).run s = (walk c path visit e p follow).run s := by
  rw [walk_eq_run, walk_eq_run]
  refine (hvisits.course h).run_congr (h.serves _).keeps ?_ hs
  rintro r q s ⟨follow', hlead⟩ hs
  exact hsame (h.lead hlead) hs

theorem run_recall_congr {key : MemoKey} {x x' : Step Positions} (h : x'.run s = x.run s) :
    StateT.run (do
      match (← get).memo.find? key with
      | some ends => return ends
      | none => x') s =
    StateT.run (do
      match (← get).memo.find? key with
      | some ends => return ends
      | none => x) s := by
  change StateT.run (match s.memo.find? key with
    | some ends => return ends
    | none => x') s = StateT.run (match s.memo.find? key with
    | some ends => return ends
    | none => x) s
  cases s.memo.find? key with
  | some ends => rfl
  | none => exact h

variable {w : Watch}

theorem Watch.call_of_stands
    (hreentry : ∀ r, c.grammar.LeftRecursive c.version r → ∀ path p call,
      w.reentry path r p call = call)
    {r : Rule} {follow : List Element} {p : Nat} (h : Stands c path (.rule r) follow p)
    (call : Step Positions) : w.call path r p call = call := by
  unfold Watch.call
  split
  · rename_i hopen
    exact hreentry r (h.leftRecursive hopen) path p call
  · rfl

theorem watchedRule_eq_walkRule
    (hreentry : ∀ r, c.grammar.LeftRecursive c.version r → ∀ path p call,
      w.reentry path r p call = call)
    (hundefined : ∀ r ∈ c.grammar.undefinedRules, ∀ path p,
      w.undefined path r p = cutOff fun cuts => { cuts with undefinedRule := true })
    (room : Nat) {r : Rule} {follow : List Element} {p : Nat} (h : Stands c path (.rule r) follow p)
    (hs : Good c s) :
    (watchedRule c w room path r p).run s = (walkRule c room path r p).run s := by
  induction room generalizing path r follow p s with
  | zero =>
    unfold watchedRule walkRule
    exact congrArg (StateT.run · s) (w.call_of_stands hreentry h _)
  | succ room ih =>
    unfold watchedRule walkRule
    rw [w.call_of_stands hreentry h]
    split
    · rfl
    · rename_i hguard
      have free : ¬c.Held (preferredIn path).isSome r p := fun hheld => hguard (held_iff.2 hheld)
      refine run_recall_congr ?_
      dsimp only
      split
      · rfl
      · cases hbody : c.grammar.body? r with
        | none =>
          have hmem := Grammar.mem_undefinedRules_iff.2 ⟨hbody, h.mem_usedRules⟩
          exact congrArg (StateT.run · s) (hundefined r hmem path p)
        | some body =>
          have hsame := walk_congr (h.enter free hbody) (walkRule_yields room (⟨r, p⟩ :: path))
            (fun hcall _ hs => ih hcall hs) hs
          dsimp only
          rw [StateT.run_bind, StateT.run_bind, hsame]

/-- A watch makes no difference where it lets the calls of left recursive rules pass, and leaves the
rules alone that are used and not defined. The walk calls no other rule that is open at the same
position, and enters no other rule that has no body. -/
theorem watchedRun_eq_run
    (hreentry : ∀ r, c.grammar.LeftRecursive c.version r → ∀ path p call,
      w.reentry path r p call = call)
    (hundefined : ∀ r ∈ c.grammar.undefinedRules, ∀ path p,
      w.undefined path r p = cutOff fun cuts => { cuts with undefinedRule := true }) :
    watchedRun c w = run c :=
  watchedRule_eq_walkRule hreentry hundefined maxDepth (stands_entry c) (good_initial c)

end

end SqlCompletion.Walk
