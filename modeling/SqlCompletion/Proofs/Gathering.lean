import SqlCompletion.Proofs.Offers
import SqlCompletion.Proofs.Ways
set_option autoImplicit false

/-!
# What a part of a walk gathers

A part of a walk ends somewhere and makes notes on the way. `Yields` says of it that it ends at ways
only, and that, unless something was cut off, it ends at all of them and notes all that they demand.
The memory is kept good throughout (`Good`): an answer that is found there is one that could have
been walked for, notes included (`Known`).

Here are the parts that a walk is made of, other than the elements: what `Yields` says of each, and
what it does to the memory.

* An offer at the caret makes the note of a way that has arrived, and ends nowhere (`Yields.offer`).
* A cut is noted for a cause, and a good state tells the cause (`Cutting`): a left recursion is in
  the grammar, and a rule that is used has no body. What a way that is cut off would have had to do
  matters only where the cut does not show (`Yields.cutOff`).
* An answer from the memory is as good as a walk (`YieldsKey.recall`), and the ends of a walk may be
  kept there (`YieldsKey.keep`). The memory is a map from numbers, so different keys need different
  numbers (`MemoKey.code_inj`).

Nothing is ever taken away (`Later`), so what was noted stays noted. The key of an answer holds the
rule, the position and the outermost preferred rule around the call: of the rules on the path only
that one matters to what is demanded (`demand?_chain`).
-/

namespace SqlCompletion

/-! ## The memory -/

namespace MemoKey

theorem ctorIdx_lt (r : Rule) : r.ctorIdx < 255 := by
  cases r <;> decide

theorem rank_lt (r : Option Rule) : rank r < 256 := by
  cases r with
  | none => simp [rank]
  | some r =>
    have := ctorIdx_lt r
    simp only [rank]
    omega

theorem rank_inj {r s : Option Rule} (h : rank r = rank s) : r = s := by
  cases r with
  | none =>
    cases s with
    | none => rfl
    | some s => simp [rank] at h
  | some r =>
    cases s with
    | none => simp [rank] at h
    | some s => rw [Rule.ctorIdx_inj (Nat.succ.inj h)]

/-- Different keys have different numbers. -/
theorem code_inj {k l : MemoKey} (h : k.code = l.code) : k = l := by
  obtain ⟨r, p, preferred⟩ := k
  obtain ⟨s, q, other⟩ := l
  have hr := ctorIdx_lt r
  have hs := ctorIdx_lt s
  have hpreferred := rank_lt preferred
  have hother := rank_lt other
  simp only [code] at h
  obtain rfl : r = s := Rule.ctorIdx_inj (by omega)
  obtain rfl : preferred = other := rank_inj (by omega)
  obtain rfl : p = q := by omega
  rfl

end MemoKey

namespace Memo

@[simp] theorem find?_empty (k : MemoKey) : Memo.empty.find? k = none :=
  Std.TreeMap.getElem?_emptyc

theorem find?_insert (m : Memo) (k l : MemoKey) (ends : Positions) :
    (m.insert k ends).find? l = if l = k then some ends else m.find? l := by
  unfold find? insert
  rw [Std.TreeMap.getElem?_insert]
  by_cases h : l = k
  · subst h
    simp
  · have hcode : k.code ≠ l.code := fun hcode => h (MemoKey.code_inj hcode).symm
    simp [h, hcode]

end Memo

namespace Walk

/-! ## States -/

/-- No way was cut off that has a derivation. A rule without a body has none. -/
def State.Uncut (s : State) : Prop := s.cuts.depth = false ∧ s.cuts.leftRecursion = false

/-- What the ways through an element demand, where `preferred` is the outermost preferred rule
around it. -/
def Due (c : Setting) (preferred : Option Rule) (e : Element) (follow : List Element) (p : Nat)
    (d : Demand) : Prop :=
  ∃ chain spot, Arrives c preferred.isSome e follow p chain spot ∧
    demand? preferred chain spot = some d

/-- What is not lost from one state of a walk to a later one. -/
structure Later (s s' : State) : Prop where
  notes : ∀ d, s.candidates.Notes d → s'.candidates.Notes d
  uncut : s'.Uncut → s.Uncut

theorem Later.refl (s : State) : Later s s := ⟨fun _ h => h, fun h => h⟩

theorem Later.trans {s s' s'' : State} (h : Later s s') (h' : Later s' s'') : Later s s'' :=
  ⟨fun d hd => h'.notes d (h.notes d hd), fun hcut => h.uncut (h'.uncut hcut)⟩

/-- An answer that may be kept under a key: it holds ends of ways only and, unless something was
cut off, all of them, and then all that the ways demand is noted. -/
structure Known (c : Setting) (s : State) (key : MemoKey) (ends : Positions) : Prop where
  sound : ∀ q ∈ ends, Crosses c key.preferred.isSome (.rule key.rule) key.start q
  full : s.Uncut → ∀ q, Crosses c key.preferred.isSome (.rule key.rule) key.start q → q ∈ ends
  noted : s.Uncut → ∀ d, Due c key.preferred (.rule key.rule) [] key.start d →
    s.candidates.Notes d

theorem Known.later {c : Setting} {s s' : State} {key : MemoKey} {ends : Positions}
    (h : Known c s key ends) (hlater : Later s s') : Known c s' key ends where
  sound := h.sound
  full := fun hcut => h.full (hlater.uncut hcut)
  noted := fun hcut d hd => hlater.notes d (h.noted (hlater.uncut hcut) d hd)

/-- What holds of the states of a walk. -/
structure Good (c : Setting) (s : State) : Prop where
  memo : ∀ key ends, s.memo.find? key = some ends → Known c s key ends
  backed : Backed c.Ways s.candidates
  /-- Only a left recursion is cut off as one. -/
  recursion : s.cuts.leftRecursion = true → ∃ r, Grammar.LeftRecursive c.grammar c.version r
  /-- Only for a rule that is used and has no body is a way cut off so. -/
  undefinedRule : s.cuts.undefinedRule = true → ∃ r, r ∈ c.grammar.undefinedRules

theorem good_initial (c : Setting) : Good c {} where
  memo := by
    intro key ends h
    cases (Memo.find?_empty key).symm.trans h
  backed := backed_empty c.Ways
  recursion := by
    intro h
    cases h
  undefinedRule := by
    intro h
    cases h

/-! ## Parts of a walk -/

/-- How a part of a walk has gone that was begun in `s`, came to `after.2` and ends at
`after.1`. -/
structure Outcome (c : Setting) (ends must : Nat → Prop) (due : Demand → Prop) (s : State)
    (after : Positions × State) : Prop where
  good : Good c after.2
  later : Later s after.2
  sound : ∀ q ∈ after.1, ends q
  full : after.2.Uncut → ∀ q, must q → q ∈ after.1
  noted : after.2.Uncut → ∀ d, due d → after.2.candidates.Notes d

/-- The part ends at positions in `ends` only. Unless something was cut off, it ends at all
positions in `must` and has made all the notes in `due`. -/
def Yields (c : Setting) (x : Step Positions) (ends must : Nat → Prop) (due : Demand → Prop) :
    Prop :=
  ∀ s, Good c s → Outcome c ends must due s (x.run s)

section

variable {c : Setting} {x : Step Positions} {ends must ends' must' : Nat → Prop}
  {due due' : Demand → Prop}

theorem Yields.mono (h : Yields c x ends must due) (hends : ∀ q, ends q → ends' q)
    (hmust : ∀ q, must' q → must q) (hdue : ∀ d, due' d → due d) :
    Yields c x ends' must' due' := by
  intro s hs
  have hout := h s hs
  exact {
    good := hout.good
    later := hout.later
    sound := fun q hq => hends q (hout.sound q hq)
    full := fun hcut q hq => hout.full hcut q (hmust q hq)
    noted := fun hcut d hd => hout.noted hcut d (hdue d hd) }

/-! ## Notes, cuts and the memory -/

/-- The outermost preferred rule that is open. -/
def preferredIn (path : Path) : Option Rule := (chain path).find? Rule.isPreferred

theorem map_fst_enclosing? (path : Path) :
    (enclosing? path).map Prod.fst = preferredIn path := by
  rw [enclosing?_eq_outermost?, map_fst_outermost?, preferredIn]

/-- Of the rules on the path only the outermost preferred one matters to what is demanded. -/
theorem demand?_chain (path : Path) (spot : Spot) :
    demand? none (chain path) spot = demand? (preferredIn path) [] spot := by
  rw [preferredIn, ← Option.none_or (o := List.find? _ _), ← demand?_append, List.append_nil]

theorem later_offer (s : State) (rules : List Rule) (spot : Spot) :
    Later s { s with candidates := s.candidates.offer rules spot } :=
  ⟨fun _ hd => hd.offer rules spot, fun hcut => hcut⟩

theorem Good.offer {s : State} {rules : List Rule} {spot : Spot} (hs : Good c s)
    (harrive : c.Ways rules spot) :
    Good c { s with candidates := s.candidates.offer rules spot } where
  memo := fun key ends hfind => (hs.memo key ends hfind).later (later_offer s rules spot)
  backed := hs.backed.offer harrive
  recursion := hs.recursion
  undefinedRule := hs.undefinedRule

/-- A way has arrived at the caret: its note is made, and it ends nowhere. -/
theorem Yields.offer {path : Path} {spot : Spot} (harrive : c.Ways (chain path) spot) :
    Yields c (do offerAt path spot; return ∅) (fun _ => False) (fun _ => False)
      (fun d => demand? (preferredIn path) [] spot = some d) := by
  intro s hs
  exact {
    good := hs.offer harrive
    later := later_offer s (chain path) spot
    sound := fun q hq => absurd hq (Positions.not_mem_empty q)
    full := fun _ q hq => hq.elim
    noted := fun _ d hd => s.candidates.notes_offer ((demand?_chain path spot).trans hd) }

/-- A note of a cut that there is a cause for. It leaves the other cuts as they were. -/
structure Cutting (c : Setting) (note : Cuts → Cuts) : Prop where
  depth : ∀ cuts, (note cuts).depth = false → cuts.depth = false
  leftRecursion : ∀ cuts, (note cuts).leftRecursion = false → cuts.leftRecursion = false
  recursion : ∀ cuts, (note cuts).leftRecursion = true → cuts.leftRecursion = true ∨
    ∃ r, Grammar.LeftRecursive c.grammar c.version r
  undefinedRule : ∀ cuts, (note cuts).undefinedRule = true → cuts.undefinedRule = true ∨
    ∃ r, r ∈ c.grammar.undefinedRules

theorem cutting_depth : Cutting c fun cuts => { cuts with depth := true } where
  depth := fun _ h => nomatch h
  leftRecursion := fun _ h => h
  recursion := fun _ h => .inl h
  undefinedRule := fun _ h => .inl h

theorem cutting_leftRecursion {r : Rule} (h : Grammar.LeftRecursive c.grammar c.version r) :
    Cutting c fun cuts => { cuts with leftRecursion := true } where
  depth := fun _ h => h
  leftRecursion := fun _ h => nomatch h
  recursion := fun _ _ => .inr ⟨r, h⟩
  undefinedRule := fun _ h => .inl h

theorem cutting_undefinedRule {r : Rule} (h : r ∈ c.grammar.undefinedRules) :
    Cutting c fun cuts => { cuts with undefinedRule := true } where
  depth := fun _ h => h
  leftRecursion := fun _ h => h
  recursion := fun _ h => .inl h
  undefinedRule := fun _ _ => .inr ⟨r, h⟩

theorem Cutting.later {note : Cuts → Cuts} (h : Cutting c note) (s : State) :
    Later s { s with cuts := note s.cuts } :=
  ⟨fun _ hd => hd, fun hcut => ⟨h.depth _ hcut.1, h.leftRecursion _ hcut.2⟩⟩

theorem Good.cut {note : Cuts → Cuts} (h : Cutting c note) {s : State} (hs : Good c s) :
    Good c { s with cuts := note s.cuts } where
  memo := fun key ends hfind => (hs.memo key ends hfind).later (h.later s)
  backed := hs.backed
  recursion := fun hcut => (h.recursion s.cuts hcut).elim hs.recursion id
  undefinedRule := fun hcut => (h.undefinedRule s.cuts hcut).elim hs.undefinedRule id

/-- A way is cut off. What it would have had to end at and to note matters only where the cut
does not show. -/
theorem Yields.cutOff {note : Cuts → Cuts} (h : Cutting c note)
    (hshows : ∀ cuts, (note cuts).depth = false → (note cuts).leftRecursion = false →
      (∀ q, ¬must q) ∧ ∀ d, ¬due d) :
    Yields c (cutOff note) ends must due := by
  intro s hs
  exact {
    good := hs.cut h
    later := h.later s
    sound := fun q hq => absurd hq (Positions.not_mem_empty q)
    full := fun hcut q hq => absurd hq ((hshows s.cuts hcut.1 hcut.2).1 q)
    noted := fun hcut d hd => absurd hd ((hshows s.cuts hcut.1 hcut.2).2 d) }

section

variable {key : MemoKey}

/-- What the memory may answer under a key. -/
abbrev YieldsKey (c : Setting) (key : MemoKey) (x : Step Positions) : Prop :=
  Yields c x (Crosses c key.preferred.isSome (.rule key.rule) key.start)
    (Crosses c key.preferred.isSome (.rule key.rule) key.start)
    (Due c key.preferred (.rule key.rule) [] key.start)

/-- An answer from the memory is as good as a walk. -/
theorem YieldsKey.recall {search : Step Positions} (h : YieldsKey c key search) :
    YieldsKey c key (do
      match (← get).memo.find? key with
      | some ends => return ends
      | none => search) := by
  intro s hs
  change Outcome c _ _ _ s (StateT.run (match s.memo.find? key with
    | some ends => return ends
    | none => search) s)
  cases hfind : s.memo.find? key with
  | some ends =>
    have hknown := hs.memo key ends hfind
    exact ⟨hs, .refl s, hknown.sound, hknown.full, hknown.noted⟩
  | none => exact h s hs

theorem later_remember (s : State) (memo : Memo) : Later s { s with memo := memo } :=
  ⟨fun _ hd => hd, fun hcut => hcut⟩

theorem Good.remember {s : State} {ends : Positions} (hs : Good c s)
    (hknown : Known c s key ends) : Good c { s with memo := s.memo.insert key ends } where
  memo := by
    intro other found hfind
    rw [Memo.find?_insert] at hfind
    split at hfind
    · rename_i heq
      subst heq
      cases hfind
      exact hknown.later (later_remember s _)
    · exact (hs.memo other found hfind).later (later_remember s _)
  backed := hs.backed
  recursion := hs.recursion
  undefinedRule := hs.undefinedRule

/-- The ends of a walk may be kept in the memory. -/
theorem YieldsKey.keep (h : YieldsKey c key x) :
    YieldsKey c key (do
      let ends ← x
      modify fun s => { s with memo := s.memo.insert key ends }
      return ends) := by
  intro s hs
  have hout := h s hs
  have hknown : Known c (x.run s).2 key (x.run s).1 := ⟨hout.sound, hout.full, hout.noted⟩
  exact {
    good := hout.good.remember hknown
    later := hout.later.trans (later_remember _ _)
    sound := hout.sound
    full := hout.full
    noted := hout.noted }

end

end

end Walk

end SqlCompletion
