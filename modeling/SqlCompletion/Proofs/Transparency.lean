import SqlCompletion.Proofs.Collection
set_option autoImplicit false

/-!
# The memory of a walk does not show

A walk keeps where the rules that it has finished end, and an answer from the memory makes none of
the notes that a second walk of the rule would make. `search` is the walk that asks for nothing and
finds every rule again. The main result says that the two cannot be told apart
(`collect_eq_search`): they end at the same positions and collect the same terminals and rules in
the same order, with the same continuations.

Two parts of walks go side by side (`Beside`) when they end at the same positions and take related
states to related states. An element makes two walks go side by side where the rules that it calls
do (`walk_beside`). This is used twice.

* Two searches for one rule at one position, inside the same preferred rule, demand the same notes.
  So the second one makes no note that is not made (`searchRule_silent`).
* The walk goes beside the search (`walkRule_beside`): where the memory answers, the search is a
  second one.

The chains of rules that are kept with a preferred rule are not compared, and they do differ: the
second search would add some. Nor is anything said where the search is cut off. No rule may be left
recursive, and the search must not run into the limit on open rules; the walk with the memory runs
into it no sooner, but what it keeps of a rule that was cut off is kept for good.
-/

namespace SqlCompletion

/-! ## Candidates that show the same -/

namespace Candidates

/-- The candidates show the same terminals in the same order, with the same continuations, and
the same rules in the same order. -/
structure Same (k l : Candidates) : Prop where
  tokens : k.tokens = l.tokens
  ruleNames : k.ruleNames = l.ruleNames

theorem Same.refl (k : Candidates) : Same k k := ⟨rfl, rfl⟩

theorem Same.trans {k l m : Candidates} (h : Same k l) (h' : Same l m) : Same k m :=
  ⟨h.tokens.trans h'.tokens, h.ruleNames.trans h'.ruleNames⟩

theorem notes_rule_iff {k : Candidates} {r : Rule} : k.Notes (.rule r) ↔ r ∈ k.ruleNames := by
  constructor
  · rintro ⟨chains, hchains⟩
    exact List.mem_map.2 ⟨(r, chains), mem_of_lookup hchains, rfl⟩
  · intro hr
    obtain ⟨entry, hentry, rfl⟩ := List.mem_map.1 hr
    cases hlookup : k.rules.lookup entry.1 with
    | some chains => exact ⟨chains, hlookup⟩
    | none =>
      have htest := List.lookup_eq_none_iff.1 hlookup entry hentry
      simp at htest

/-- What is noted can be told from what shows. -/
theorem Same.notes {k l : Candidates} (h : Same k l) {d : Demand} (hd : k.Notes d) :
    l.Notes d := by
  cases d with
  | token t following =>
    rw [Notes, ← h.tokens]
    exact hd
  | rule r =>
    rw [notes_rule_iff, ← h.ruleNames]
    exact notes_rule_iff.1 hd

theorem assocInsert_of_lookup {α β : Type} [DecidableEq α] {a : α} {b : β}
    {entries : List (α × β)} (h : entries.lookup a = some b) :
    assocInsert a b entries = entries := by
  induction entries with
  | nil => cases h
  | cons entry rest ih =>
    obtain ⟨k, v⟩ := entry
    rw [lookup_cons_ite] at h
    unfold assocInsert
    split
    · rename_i hk
      rw [if_pos hk.symm] at h
      rw [Option.some.inj h]
    · rename_i hk
      rw [if_neg fun h => hk h.symm] at h
      rw [ih h]

/-- A terminal that is noted is not changed by a second note of the same occurrence. -/
theorem tokens_addToken_of_notes {k : Candidates} {t : Terminal} {following : List Terminal}
    (h : k.Notes (.token t following)) : (k.addToken t following).tokens = k.tokens := by
  obtain ⟨known, hknown, hcase⟩ := h
  unfold addToken
  rw [hknown]
  dsimp only
  split
  · rfl
  · rename_i hne
    have hempty : known = [] := hcase.resolve_left hne
    exact assocInsert_of_lookup (hempty ▸ hknown)

theorem ruleNames_addRule (k : Candidates) (r : Rule) (chain : List Rule) :
    (k.addRule r chain).ruleNames =
      if r ∈ k.ruleNames then k.ruleNames else k.ruleNames ++ [r] := by
  unfold addRule
  cases hlookup : k.rules.lookup r with
  | none =>
    have hnot : r ∉ k.ruleNames := by
      rw [← notes_rule_iff, Notes, hlookup]
      simp
    rw [if_neg hnot]
    simp [ruleNames]
  | some chains =>
    have hmem : r ∈ k.ruleNames := notes_rule_iff.1 ⟨chains, hlookup⟩
    rw [if_pos hmem]
    dsimp only
    split
    · rfl
    · exact keys_assocInsert hlookup

@[simp] theorem ruleNames_addToken (k : Candidates) (t : Terminal) (following : List Terminal) :
    (k.addToken t following).ruleNames = k.ruleNames := by
  simp [ruleNames]

theorem Same.addToken {k l : Candidates} (h : Same k l) (t : Terminal)
    (following : List Terminal) : Same (k.addToken t following) (l.addToken t following) := by
  refine ⟨?_, by simpa using h.ruleNames⟩
  unfold Candidates.addToken
  rw [h.tokens]
  split
  · rfl
  · split
    · exact h.tokens
    · rfl

theorem Same.addRule {k l : Candidates} (h : Same k l) (r : Rule) (chain chain' : List Rule) :
    Same (k.addRule r chain) (l.addRule r chain') :=
  ⟨by simpa using h.tokens, by rw [ruleNames_addRule, ruleNames_addRule, h.ruleNames]⟩

theorem Same.offer {k l : Candidates} (h : Same k l) (rules : List Rule) (spot : Spot) :
    Same (k.offer rules spot) (l.offer rules spot) := by
  unfold Candidates.offer
  split
  · exact h.addRule _ _ _
  · split
    · exact h
    · exact h.addToken _ _
  · exact h

/-- An offer that demands nothing new does not show. -/
theorem same_offer_of_notes {k : Candidates} {rules : List Rule} {spot : Spot}
    (h : ∀ d, demand? none rules spot = some d → k.Notes d) : Same k (k.offer rules spot) := by
  unfold demand? at h
  rw [Option.none_or, ← map_fst_outermost?] at h
  unfold Candidates.offer
  cases hout : outermost? (rules ++ spot.opens) with
  | some found =>
    rw [hout] at h
    have hnoted : found.1 ∈ k.ruleNames := notes_rule_iff.1 (h _ rfl)
    refine ⟨(tokens_addRule k _ _).symm, ?_⟩
    rw [ruleNames_addRule, if_pos hnoted]
  | none =>
    rw [hout] at h
    cases spot with
    | token t follow =>
      dsimp only [Option.map_none] at h ⊢
      split
      · exact .refl k
      · rename_i hkept
        rw [if_neg hkept] at h
        exact ⟨(tokens_addToken_of_notes (h _ rfl)).symm, (ruleNames_addToken k _ _).symm⟩
    | ident => exact .refl k
    | rule r => exact .refl k

end Candidates

namespace Walk

variable {c : Setting}

/-! ## The search -/

/-- The positions at which a rule can end, found without the memory. -/
def searchRule (c : Setting) : (room : Nat) → Path → Rule → (start : Nat) → Step Positions
  | room, path, r, start => do
    if start = c.caret && (r.isPreferred || (enclosing? path).isSome) then
      if !(← offerEnclosing path) then offerRule r (chain path)
      return ∅
    else
      match room with
      | 0 => cutOff fun cuts => { cuts with depth := true }
      | room + 1 =>
        if (⟨r, start⟩ : Frame) ∈ path then
          cutOff fun cuts => { cuts with leftRecursion := true }
        else
          match c.grammar.body? r with
          | none => cutOff fun cuts => { cuts with undefinedRule := true }
          | some body =>
            let inside := ⟨r, start⟩ :: path
            walk c inside (searchRule c room inside) body start []

/-- The whole search, from the entry rule at the start of the input. -/
def search (c : Setting) : Positions × State :=
  (searchRule c maxDepth [] c.grammar.entry 0).run {}

/-! ## Walks side by side -/

section

variable {kept : State → Prop} {related : State → State → Prop} {α β : Type}

/-- Two parts of walks go side by side: begun in related states, they give the same answer and
come to related states. Only runs count at whose end the first state is to be kept and the second
is uncut, and no part of a walk comes to such a state from another one. -/
structure Beside (kept : State → Prop) (related : State → State → Prop) (x y : Step α) : Prop where
  along : ∀ s t, related s t → kept (x.run s).2 → (y.run t).2.Uncut →
    (x.run s).1 = (y.run t).1 ∧ related (x.run s).2 (y.run t).2
  before : ∀ s, kept (x.run s).2 → kept s
  uncutBefore : ∀ t, (y.run t).2.Uncut → t.Uncut

theorem Beside.pure (a : α) : Beside kept related (Pure.pure a) (Pure.pure a) :=
  ⟨fun _ _ h _ _ => ⟨rfl, h⟩, fun _ h => h, fun _ h => h⟩

theorem Beside.bind {x y : Step α} {f g : α → Step β} (h : Beside kept related x y)
    (hrest : ∀ a, Beside kept related (f a) (g a)) :
    Beside kept related (x >>= f) (y >>= g) where
  along := by
    intro s t hrelated hkept huncut
    have hx : kept (x.run s).2 := (hrest _).before _ hkept
    have hy : (y.run t).2.Uncut := (hrest _).uncutBefore _ huncut
    obtain ⟨hsame, hmid⟩ := h.along s t hrelated hx hy
    change kept ((f (x.run s).1).run (x.run s).2).2 at hkept
    change ((g (y.run t).1).run (y.run t).2).2.Uncut at huncut
    rw [← hsame] at huncut
    have hlast := (hrest (x.run s).1).along _ _ hmid hkept huncut
    change ((f (x.run s).1).run (x.run s).2).1 = ((g (y.run t).1).run (y.run t).2).1 ∧
      related ((f (x.run s).1).run (x.run s).2).2 ((g (y.run t).1).run (y.run t).2).2
    rw [← hsame]
    exact hlast
  before := fun s hkept => h.before s ((hrest _).before _ hkept)
  uncutBefore := fun t huncut => h.uncutBefore t ((hrest _).uncutBefore _ huncut)

/-- The notes and the rules of two walks go side by side. -/
structure BesideIn (kept : State → Prop) (related : State → State → Prop) (path path' : Path)
    (visit visit' : Rule → Nat → Step Positions) : Prop where
  offers : ∀ spot, Beside kept related (offerAt path spot) (offerAt path' spot)
  visits : ∀ r p, Beside kept related (visit r p) (visit' r p)

variable {path path' : Path} {visit visit' : Rule → Nat → Step Positions}

/-- Two walks through an element go side by side where their notes and the rules that they call
do. -/
theorem walk_beside (h : BesideIn kept related path path' visit visit') (e : Element) (p : Nat)
    (follow : List Element) :
    Beside kept related (walk c path visit e p follow) (walk c path' visit' e p follow) := by
  rw [walk_eq_run, walk_eq_run]
  induction plan c e p follow with
  | done ends => exact .pure ends
  | note spot rest ih => exact (h.offers spot).bind fun _ => ih
  | call r q rest ih => exact (h.visits r q).bind ih

end

/-! ## A second search -/

section

variable {path path' : Path} {r : Rule} {p : Nat}

theorem searchRule_of_held (room : Nat) (hheld : c.Held (preferredIn path).isSome r p) :
    searchRule c room path r p = (do offerAt path (.rule r); return ∅) := by
  have hguard := held_iff.2 hheld
  unfold searchRule
  rw [if_pos hguard]
  exact offerHeld_return_eq path r (Bool.and_eq_true_iff.1 hguard).2

theorem searchRule_zero (free : ¬c.Held (preferredIn path).isSome r p) :
    searchRule c 0 path r p = cutOff fun cuts => { cuts with depth := true } := by
  unfold searchRule
  rw [if_neg fun hguard => free (held_iff.1 hguard)]

theorem searchRule_succ (room : Nat) (free : ¬c.Held (preferredIn path).isSome r p) :
    searchRule c (room + 1) path r p =
      if (⟨r, p⟩ : Frame) ∈ path then cutOff fun cuts => { cuts with leftRecursion := true }
      else
        match c.grammar.body? r with
        | none => cutOff fun cuts => { cuts with undefinedRule := true }
        | some body =>
          walk c (⟨r, p⟩ :: path) (searchRule c room (⟨r, p⟩ :: path)) body p [] := by
  rw [searchRule, if_neg fun hguard => free (held_iff.1 hguard)]

/-- A search goes beside itself. Nothing is related here, so that this says no more than that a
search which ends uncut was begun so. -/
theorem searchRule_lasting (room : Nat) (path : Path) (r : Rule) (p : Nat) :
    Beside State.Uncut (fun _ _ => False) (searchRule c room path r p)
      (searchRule c room path r p) := by
  have hoffers : ∀ path spot, Beside State.Uncut (fun _ _ => False) (offerAt path spot)
      (offerAt path spot) :=
    fun _ _ => ⟨fun _ _ h => h.elim, fun _ h => h, fun _ h => h⟩
  have hcuts : ∀ note : Cuts → Cuts, (∀ cuts, (note cuts).depth = false → cuts.depth = false) →
      (∀ cuts, (note cuts).leftRecursion = false → cuts.leftRecursion = false) →
      Beside State.Uncut (fun _ _ => False) (cutOff note) (cutOff note) := by
    intro note hdepth hrecursion
    have hbefore : ∀ s : State, ((cutOff note).run s).2.Uncut → s.Uncut :=
      fun s h => ⟨hdepth _ h.1, hrecursion _ h.2⟩
    exact ⟨fun _ _ h => h.elim, hbefore, hbefore⟩
  by_cases hheld : c.Held (preferredIn path).isSome r p
  · rw [searchRule_of_held room hheld]
    exact (hoffers path _).bind fun _ => .pure ∅
  · cases room with
    | zero =>
      rw [searchRule_zero hheld]
      exact hcuts _ (fun _ h => by cases h) (fun _ h => h)
    | succ room =>
      rw [searchRule_succ room hheld]
      split
      · exact hcuts _ (fun _ h => h) (fun _ h => by cases h)
      · split
        · exact hcuts _ (fun _ h => h) (fun _ h => h)
        · exact walk_beside ⟨hoffers _, searchRule_lasting room _⟩ _ p []

theorem not_uncut_of_depth (s : State) :
    ¬((cutOff fun cuts => { cuts with depth := true }).run s).2.Uncut :=
  fun h => by cases h.1

theorem not_uncut_of_leftRecursion (s : State) :
    ¬((cutOff fun cuts => { cuts with leftRecursion := true }).run s).2.Uncut :=
  fun h => by cases h.2

/-- What is noted in the first state is noted by `k`, so the second state shows the same as `k`. -/
def Silent (k : Candidates) (s t : State) : Prop :=
  (∀ d, s.candidates.Notes d → k.Notes d) → Candidates.Same k t.candidates

/-- A second note at a spot, inside of the same preferred rule, is silent. -/
theorem offerAt_silent (k : Candidates) (hpreferred : preferredIn path = preferredIn path')
    (spot : Spot) :
    Beside State.Uncut (Silent k) (offerAt path spot) (offerAt path' spot) where
  along := by
    intro s t hsilent _ _
    refine ⟨rfl, fun hnoted => ?_⟩
    have hsame : Candidates.Same k t.candidates :=
      hsilent fun d hd => hnoted d (hd.offer (chain path) spot)
    refine hsame.trans (Candidates.same_offer_of_notes fun d hd => hsame.notes (hnoted d ?_))
    rw [demand?_chain, ← hpreferred, ← demand?_chain] at hd
    exact s.candidates.notes_offer hd
  before := fun _ h => h
  uncutBefore := fun _ h => h

/-- A second search for a rule at a position, inside of the same preferred rule, is silent: it finds
the same ends and makes no note that the first one did not make. -/
theorem searchRule_silent (k : Candidates) (room room' : Nat) (path path' : Path) (r : Rule)
    (p : Nat) (hpreferred : preferredIn path = preferredIn path') :
    Beside State.Uncut (Silent k) (searchRule c room path r p)
      (searchRule c room' path' r p) := by
  by_cases hheld : c.Held (preferredIn path).isSome r p
  · rw [searchRule_of_held room hheld, searchRule_of_held room' (hpreferred ▸ hheld)]
    exact (offerAt_silent k hpreferred _).bind fun _ => .pure ∅
  · have hheld' : ¬c.Held (preferredIn path').isSome r p := hpreferred ▸ hheld
    refine ⟨?_, (searchRule_lasting room path r p).before,
      (searchRule_lasting room' path' r p).uncutBefore⟩
    intro s t hsilent hfirst hsecond
    -- What cuts one of the two off shows in its state, and both were to end uncut.
    cases room with
    | zero =>
      rw [searchRule_zero hheld] at hfirst
      exact absurd hfirst (not_uncut_of_depth s)
    | succ room =>
      cases room' with
      | zero =>
        rw [searchRule_zero hheld'] at hsecond
        exact absurd hsecond (not_uncut_of_depth t)
      | succ room' =>
        rw [searchRule_succ room hheld] at hfirst ⊢
        rw [searchRule_succ room' hheld'] at hsecond ⊢
        by_cases hopen : (⟨r, p⟩ : Frame) ∈ path
        · rw [if_pos hopen] at hfirst
          exact absurd hfirst (not_uncut_of_leftRecursion s)
        by_cases hopen' : (⟨r, p⟩ : Frame) ∈ path'
        · rw [if_pos hopen'] at hsecond
          exact absurd hsecond (not_uncut_of_leftRecursion t)
        rw [if_neg hopen] at hfirst ⊢
        rw [if_neg hopen'] at hsecond ⊢
        cases hbody : c.grammar.body? r with
        | none => exact ⟨rfl, hsilent⟩
        | some body =>
          rw [hbody] at hfirst hsecond
          have hinside : preferredIn (⟨r, p⟩ :: path) = preferredIn (⟨r, p⟩ :: path') := by
            rw [preferredIn_cons, preferredIn_cons, hpreferred]
          have hrules := fun s q => searchRule_silent k room room' _ _ s q hinside
          exact (walk_beside ⟨offerAt_silent k hinside, hrules⟩ body p []).along s t hsilent
            hfirst hsecond

end

/-! ## The walk goes beside the search -/

/-- An answer in the memory is one that a search has found, and the notes of that search are
made. -/
def Found (c : Setting) (t : State) (key : MemoKey) (ends : Positions) : Prop :=
  ∃ room path t₀ t₁, preferredIn path = key.preferred ∧
    (searchRule c room path key.rule key.start).run t₀ = (ends, t₁) ∧ t₁.Uncut ∧
    ∀ d, t₁.candidates.Notes d → t.candidates.Notes d

theorem Found.mono {t t' : State} {key : MemoKey} {ends : Positions} (h : Found c t key ends)
    (hnotes : ∀ d, t.candidates.Notes d → t'.candidates.Notes d) : Found c t' key ends := by
  obtain ⟨room, path, t₀, t₁, hpreferred, hrun, huncut, hnoted⟩ := h
  exact ⟨room, path, t₀, t₁, hpreferred, hrun, huncut, fun d hd => hnotes d (hnoted d hd)⟩

/-- A state of a walk and one of a search show the same, and what the walk remembers was found by
the search. -/
structure Mirrors (c : Setting) (s t : State) : Prop where
  same : Candidates.Same s.candidates t.candidates
  memo : ∀ key ends, s.memo.find? key = some ends → Found c t key ends

theorem mirrors_initial (c : Setting) : Mirrors c {} {} where
  same := .refl _
  memo := by
    intro key ends h
    cases (Memo.find?_empty key).symm.trans h

theorem offerAt_mirrors (path : Path) (spot : Spot) :
    Beside (fun _ => True) (Mirrors c) (offerAt path spot) (offerAt path spot) where
  along := by
    intro s t hmirrors _ _
    refine ⟨rfl, hmirrors.same.offer _ _, fun key ends hfind => ?_⟩
    exact (hmirrors.memo key ends hfind).mono fun d hd => hd.offer _ _
  before := fun _ _ => trivial
  uncutBefore := fun _ h => h

/-- Where the memory answers, the search is a second one. -/
theorem Mirrors.recall {s t : State} {room : Nat} {path : Path} {r : Rule} {p : Nat}
    {ends : Positions} (h : Mirrors c s t)
    (hfind : s.memo.find? ⟨r, p, preferredIn path⟩ = some ends)
    (huncut : ((searchRule c room path r p).run t).2.Uncut) :
    ends = ((searchRule c room path r p).run t).1 ∧
      Mirrors c s ((searchRule c room path r p).run t).2 := by
  obtain ⟨room₀, path₀, t₀, t₁, hpreferred, hrun, huncut₀, hnoted⟩ := h.memo _ _ hfind
  have hsecond := (searchRule_silent (c := c) t.candidates room₀ room path₀ path r p
    hpreferred).along t₀ t (fun _ => .refl _) (by rwa [hrun]) huncut
  rw [hrun] at hsecond
  obtain ⟨hends, hsilent⟩ := hsecond
  have hsame := hsilent hnoted
  refine ⟨hends, h.same.trans hsame, fun key ends hkey => ?_⟩
  exact (h.memo key ends hkey).mono fun d hd => hsame.notes hd

/-- What a search has found may be remembered. -/
theorem Mirrors.remember {s t : State} {key : MemoKey} {ends : Positions} (h : Mirrors c s t)
    (hfound : Found c t key ends) :
    Mirrors c { s with memo := s.memo.insert key ends } t where
  same := h.same
  memo := by
    intro other found hfind
    rw [Memo.find?_insert] at hfind
    split at hfind
    · rename_i heq
      cases hfind
      rw [heq]
      exact hfound
    · exact h.memo other found hfind

section

variable {path : Path} {r : Rule} {p : Nat} {s : State}

theorem walkRule_of_held (room : Nat) (hheld : c.Held (preferredIn path).isSome r p) :
    walkRule c room path r p = (do offerAt path (.rule r); return ∅) := by
  have hguard := held_iff.2 hheld
  unfold walkRule
  rw [if_pos hguard]
  exact offerHeld_return_eq path r (Bool.and_eq_true_iff.1 hguard).2

theorem run_walkRule_of_find {ends : Positions} (room : Nat)
    (free : ¬c.Held (preferredIn path).isSome r p)
    (hfind : s.memo.find? ⟨r, p, preferredIn path⟩ = some ends) :
    (walkRule c room path r p).run s = (ends, s) := by
  unfold walkRule
  rw [if_neg fun hguard => free (held_iff.1 hguard), map_fst_enclosing?]
  rw [StateT.run_bind, StateT.run_get, pure_bind]
  dsimp only
  generalize s.memo.find? ⟨r, p, preferredIn path⟩ = found at hfind ⊢
  subst hfind
  rfl

theorem run_walkRule_of_miss (room : Nat) (free : ¬c.Held (preferredIn path).isSome r p)
    (hfind : s.memo.find? ⟨r, p, preferredIn path⟩ = none) :
    (walkRule c (room + 1) path r p).run s =
      StateT.run (
        if (⟨r, p⟩ : Frame) ∈ path then cutOff fun cuts => { cuts with leftRecursion := true }
        else
          match c.grammar.body? r with
          | none => cutOff fun cuts => { cuts with undefinedRule := true }
          | some body => do
            let ends ← walk c (⟨r, p⟩ :: path) (walkRule c room (⟨r, p⟩ :: path)) body p []
            modify fun s => { s with memo := s.memo.insert ⟨r, p, preferredIn path⟩ ends }
            return ends) s := by
  rw [walkRule, if_neg fun hguard => free (held_iff.1 hguard), map_fst_enclosing?]
  rw [StateT.run_bind, StateT.run_get, pure_bind]
  dsimp only
  generalize s.memo.find? ⟨r, p, preferredIn path⟩ = found at hfind ⊢
  subst hfind
  rfl

end

/-- A walk through a rule goes beside the search for it. -/
theorem walkRule_beside (room : Nat) (path : Path) (r : Rule) (p : Nat) :
    Beside (fun _ => True) (Mirrors c) (walkRule c room path r p)
      (searchRule c room path r p) := by
  refine ⟨?_, fun _ _ => trivial, (searchRule_lasting room path r p).uncutBefore⟩
  intro s t hmirrors _ huncut
  by_cases hheld : c.Held (preferredIn path).isSome r p
  · rw [searchRule_of_held room hheld] at huncut ⊢
    rw [walkRule_of_held room hheld]
    exact ((offerAt_mirrors path _).bind fun _ => .pure ∅).along s t hmirrors trivial huncut
  cases hfind : s.memo.find? ⟨r, p, preferredIn path⟩ with
  | some ends =>
    rw [run_walkRule_of_find room hheld hfind]
    exact hmirrors.recall hfind huncut
  | none =>
    cases room with
    | zero =>
      rw [searchRule_zero hheld] at huncut
      exact absurd huncut (not_uncut_of_depth t)
    | succ room =>
      have hsearch := searchRule_succ room hheld
      rw [run_walkRule_of_miss room hheld hfind]
      by_cases hopen : (⟨r, p⟩ : Frame) ∈ path
      · rw [hsearch, if_pos hopen] at huncut
        exact absurd huncut (not_uncut_of_leftRecursion t)
      rw [if_neg hopen] at hsearch ⊢
      cases hbody : c.grammar.body? r with
      | none =>
        rw [hsearch, hbody]
        exact ⟨rfl, hmirrors.same, hmirrors.memo⟩
      | some body =>
        rw [hbody] at hsearch
        dsimp only at hsearch
        have hinside := walk_beside (c := c) ⟨offerAt_mirrors (⟨r, p⟩ :: path),
          walkRule_beside room (⟨r, p⟩ :: path)⟩ body p []
        rw [← hsearch] at hinside
        obtain ⟨hends, hafter⟩ := hinside.along s t hmirrors trivial huncut
        refine ⟨hends, hafter.remember ⟨room + 1, path, t, _, rfl, ?_, huncut, fun _ h => h⟩⟩
        exact Prod.ext hends.symm rfl

/-! ## The whole search -/

/-- A rule is searched along all its ways, whatever room there is. -/
theorem searchRule_yields (room : Nat) (path : Path) :
    VisitsWays c path (searchRule c room path) := by
  intro r p follow h
  by_cases hheld : c.Held (preferredIn path).isSome r p
  · rw [searchRule_of_held room hheld]
    exact held_yields h hheld
  · cases room with
    | zero =>
      rw [searchRule_zero hheld]
      exact tooDeep_yields
    | succ room =>
      rw [searchRule_succ room hheld]
      refine entered_yields h hheld fun body defined => ?_
      exact body_yields hheld defined
        (walk_yields (searchRule_yields room (⟨r, p⟩ :: path)) body (h.enter hheld defined))

/-- A search of a grammar without left recursion is cut off by the depth only. -/
theorem search_uncut (hrec : ∀ r, ¬c.grammar.LeftRecursive c.version r)
    (hdepth : (search c).2.cuts.depth = false) : (search c).2.Uncut := by
  refine ⟨hdepth, ?_⟩
  cases hcut : (search c).2.cuts.leftRecursion with
  | false => rfl
  | true =>
    have hgood : Good c (search c).2 :=
      (searchRule_yields maxDepth [] c.grammar.entry 0 [] (stands_entry c) {} (good_initial c)).good
    obtain ⟨r, hr⟩ := hgood.recursion hcut
    exact absurd hr (hrec r)

end Walk

/-- Where no rule is left recursive and the search is not too deep, the walk ends where the search
ends and collects the same terminals in the same order, with the same continuations, and the same
rules in the same order. -/
theorem collect_eq_search {g : Grammar} {v : Version} {s : TokenStream} {caretIndex : Nat}
    (hrec : ∀ r, ¬g.LeftRecursive v r)
    (hdepth : (Walk.search (caretSetting g v s caretIndex)).2.cuts.depth = false) :
    (Walk.run (caretSetting g v s caretIndex)).1 =
        (Walk.search (caretSetting g v s caretIndex)).1 ∧
      (collect g v s caretIndex).tokens =
        (Walk.search (caretSetting g v s caretIndex)).2.candidates.tokens ∧
      (collect g v s caretIndex).ruleNames =
        (Walk.search (caretSetting g v s caretIndex)).2.candidates.ruleNames := by
  have huncut := Walk.search_uncut (c := caretSetting g v s caretIndex) hrec hdepth
  obtain ⟨hends, hmirrors⟩ := (Walk.walkRule_beside (c := caretSetting g v s caretIndex)
    Walk.maxDepth [] g.entry 0).along {} {} (Walk.mirrors_initial _) trivial huncut
  exact ⟨hends, hmirrors.same.tokens, hmirrors.same.ruleNames⟩

/-- Two queries that begin with the same rule: the second time the memory answers for it. -/
def sharedOperand : Grammar :=
  .withLeaf (.choice [.seq [.rule .expr, .kw .FROM], .seq [.rule .expr, .kw .INTO]]) .expr
    (.choice [.kw .NULL, .seq [.kw .NULL, .kw .IS, .kw .NULL]])

theorem sharedOperand_not_leftRecursive (r : Rule) : ¬sharedOperand.LeftRecursive default r :=
  Grammar.withLeaf_not_leftRecursive (by decide) rfl default r

theorem collect_eq_search_sharedOperand :
    (collect sharedOperand default (.ofText default "NULL ") 2).tokens =
        [(.keyword .IS, [.keyword .NULL]), (.keyword .FROM, []), (.keyword .INTO, [])] ∧
      (collect sharedOperand default (.ofText default "NULL ") 2).tokens =
        (Walk.search (caretSetting sharedOperand default (.ofText default "NULL ")
          2)).2.candidates.tokens := by
  refine ⟨by decide +kernel, (collect_eq_search sharedOperand_not_leftRecursive ?_).2.1⟩
  decide +kernel

end SqlCompletion
