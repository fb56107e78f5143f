import SqlCompletion.Proofs.Collection
import SqlCompletion.Proofs.Layer
import SqlCompletion.Proofs.Transparency
set_option autoImplicit false

/-!
# Tasks of a walk

Where the memory answers a call, nothing is noted, so that what is known of one walk of a rule has
to serve for all its calls. A `Task` says what is asked of the calls: where they must end, and which
notes are due from them, given the rules on the path. A walk fulfils a task that is sound
(`run_fulfils`), and what makes a task sound is told without walks (`Task.Sound`).

* Of a call that is answered from the memory no more is asked than of the one that was walked.
* What is due from a rule is passed on by its body: the body comes to a spot that makes the note, or
  to a call from which the note is due (`Passed`).
* A call that is held makes the notes that are due from it, and where there is no room for one more
  open rule nothing is asked.

The proof keeps three things along the walk: an answer that is kept in the memory does all that is
asked of any call that it may answer (`Kept`), nothing is lost from one state to a later one
(`After`), and a call has been answered when it ends at ways and does what is asked of it
(`Answers`). Elements are walked as their plans say (`Visits.course`); the induction is on the room
for open rules (`walkRule_visits`).

There are two tasks: that a walk notes what is within its depth, and that for each last rule of the
chains to a preferred rule one chain is kept. That a walk goes along ways and no others is not a
task but what tasks start from (`Safe`).
-/

namespace SqlCompletion.Walk

/-! ## Calls -/

/-- The rule may be called at the position inside the rules on the path: a partial derivation of
what is in front of the position comes to it. -/
structure Called (c : Setting) (path : Path) (r : Rule) (p : Nat) : Prop where
  le_caret : p ≤ c.caret
  expects : ∃ u, c.Spells 0 u p ∧ c.grammar.Expects c.version u (chain path) (.rule r)

section

variable {c : Setting} {path : Path} {follow : List Element} {p : Nat} {r : Rule}

theorem Stands.called (h : Stands c path (.rule r) follow p) : Called c path r p where
  le_caret := h.le_caret
  expects := by
    obtain ⟨u, hu, hstart⟩ := h.fromStart
    have hcall := hstart (.call r follow)
    rw [List.append_nil, List.append_nil] at hcall
    exact ⟨u, hu, hcall⟩

theorem run_walkRule_zero_of_miss {s : State} (free : ¬c.Held (preferredIn path).isSome r p)
    (hfind : s.memo.find? ⟨r, p, preferredIn path⟩ = none) :
    (walkRule c 0 path r p).run s =
      (cutOff fun cuts => { cuts with depth := true } : Step Positions).run s := by
  unfold walkRule
  rw [if_neg fun hguard => free (held_iff.1 hguard), map_fst_enclosing?]
  rw [StateT.run_bind, StateT.run_get, pure_bind]
  dsimp only
  generalize s.memo.find? ⟨r, p, preferredIn path⟩ = found at hfind ⊢
  subst hfind
  rfl

end

/-! ## Tasks -/

/-- What is asked of the calls of a walk. -/
structure Task (c : Setting) where
  Note : Type
  /-- Nothing that matters was cut off. Where something was, nothing is asked. -/
  fine : Cuts → Prop
  noted : Candidates → Note → Prop
  /-- The call of a rule inside the rules on a path must end here. -/
  must : Path → Rule → Nat → Nat → Prop
  /-- The note is made when the call of a rule inside the rules on a path is over. -/
  due : Path → Rule → Nat → Note → Prop

namespace Task

section

variable {c : Setting} (t : Task c)

/-- The offer of a spot inside the rules makes the note. -/
def Makes (rules : List Rule) (spot : Spot) (d : t.Note) : Prop :=
  ∀ k : Candidates, t.noted (k.offer rules spot) d

/-- What a body must do for a note that is due from its rule: it comes to a spot that makes the
note, or to a call from which the note is due. -/
def Passed (path : Path) (body : Element) (p : Nat) (d : t.Note) : Prop :=
  (∃ spot, spot.opens = [] ∧ Comes c (t.must path) body [] p spot c.caret ∧
    t.Makes (chain path) spot d) ∨
  ∃ r q, Comes c (t.must path) body [] p (.rule r) q ∧ t.due path r q d

/-- A task that a walk can fulfil. -/
structure Sound : Prop where
  /-- Notes last. -/
  lasts : ∀ {k : Candidates} {d : t.Note} (rules : List Rule) (spot : Spot), t.noted k d →
    t.noted (k.offer rules spot) d
  fine_of_depth : ∀ {cuts : Cuts}, t.fine { cuts with depth := true } → t.fine cuts
  fine_of_undefinedRule : ∀ {cuts : Cuts}, t.fine { cuts with undefinedRule := true } → t.fine cuts
  /-- A call that is held ends nowhere. -/
  free : ∀ {path : Path} {r : Rule} {p q : Nat}, t.must path r p q →
    ¬c.Held (preferredIn path).isSome r p
  /-- A call that is held makes the notes that are due from it. -/
  held : ∀ {path : Path} {r : Rule} {p : Nat} {d : t.Note}, Called c path r p →
    c.Held (preferredIn path).isSome r p → t.due path r p d → t.Makes (chain path) (.rule r) d
  /-- Where there is no room nothing is asked. -/
  deep : ∀ {cuts : Cuts} {path : Path} {r : Rule} {p : Nat}, path.length = maxDepth →
    ¬c.Held (preferredIn path).isSome r p → t.fine { cuts with depth := true } →
    (∀ q, ¬t.must path r p q) ∧ ∀ d, ¬t.due path r p d
  /-- Of a call that is answered from the memory no more is asked than of the one that was
  walked. -/
  recalled : ∀ {path path' : Path} {r : Rule} {p : Nat}, Called c path r p → Called c path' r p →
    preferredIn path = preferredIn path' → ¬c.Held (preferredIn path).isSome r p →
    path.length < maxDepth →
    (∀ q, t.must path' r p q → t.must path r p q) ∧ ∀ d, t.due path' r p d → t.due path r p d
  /-- The body of a rule passes where the rule must end. -/
  body : ∀ {path : Path} {r : Rule} {p q : Nat}, Called c path r p → t.must path r p q →
    ∃ body, c.grammar.body? r = some body ∧ Passes c (t.must (⟨r, p⟩ :: path)) body p q
  /-- The body of a rule passes a note on that is due from the rule. -/
  passed : ∀ {path : Path} {r : Rule} {p : Nat} {d : t.Note}, Called c path r p →
    ¬c.Held (preferredIn path).isSome r p → t.due path r p d →
    ∃ body, c.grammar.body? r = some body ∧ t.Passed (⟨r, p⟩ :: path) body p d

/-! ## States and answers -/

/-- An answer that may be kept: it does all that is asked of any call that it may answer. -/
def Kept (s : State) (key : MemoKey) (ends : Positions) : Prop :=
  t.fine s.cuts → ∀ path, Called c path key.rule key.start → preferredIn path = key.preferred →
    (∀ q, t.must path key.rule key.start q → q ∈ ends) ∧
      ∀ d, t.due path key.rule key.start d → t.noted s.candidates d

/-- What holds of the states of a walk. -/
structure Safe (s : State) : Prop where
  good : Good c s
  memo : ∀ key ends, s.memo.find? key = some ends → t.Kept s key ends

/-- What is not lost from one state of a walk to a later one. -/
structure After (s s' : State) : Prop where
  fine : t.fine s'.cuts → t.fine s.cuts
  notes : ∀ d, t.noted s.candidates d → t.noted s'.candidates d

/-- A call has been answered: it ends where ways end, and does what is asked of it. -/
structure Answers (path : Path) (r : Rule) (p : Nat) (s : State) (after : Positions × State) :
    Prop where
  safe : t.Safe after.2
  later : t.After s after.2
  sound : ∀ q ∈ after.1, Crosses c (preferredIn path).isSome (.rule r) p q
  full : t.fine after.2.cuts → ∀ q, t.must path r p q → q ∈ after.1
  noted : t.fine after.2.cuts → ∀ d, t.due path r p d → t.noted after.2.candidates d

/-- The rules that an element calls are walked so that the task is fulfilled. -/
def Visits (path : Path) (visit : Rule → Nat → Step Positions) : Prop :=
  ∀ r p follow, Stands c path (.rule r) follow p → ∀ s, t.Safe s →
    t.Answers path r p s ((visit r p).run s)

/-- The event makes the note, or the note is due from it. -/
def Brings (path : Path) : Event → t.Note → Prop
  | .ended _, _ => False
  | .noted spot, d => t.Makes (chain path) spot d
  | .called r p, d => t.due path r p d

end

section

variable {c : Setting} {t : Task c}

theorem Kept.later {s s' : State} {key : MemoKey} {ends : Positions} (h : t.Kept s key ends)
    (hfine : t.fine s'.cuts → t.fine s.cuts)
    (hnotes : ∀ d, t.noted s.candidates d → t.noted s'.candidates d) : t.Kept s' key ends := by
  intro hfine' path hcalled hpreferred
  obtain ⟨hends, hdue⟩ := h (hfine hfine') path hcalled hpreferred
  exact ⟨hends, fun d hd => hnotes d (hdue d hd)⟩

theorem safe_initial (t : Task c) : t.Safe {} where
  good := good_initial c
  memo := by
    intro key ends h
    cases (Memo.find?_empty key).symm.trans h

theorem After.refl (s : State) : t.After s s := ⟨fun h => h, fun _ h => h⟩

theorem After.trans {s s' s'' : State} (h : t.After s s') (h' : t.After s' s'') : t.After s s'' :=
  ⟨fun hfine => h.fine (h'.fine hfine), fun d hd => h'.notes d (h.notes d hd)⟩

theorem after_offer (hsound : t.Sound) (s : State) (rules : List Rule) (spot : Spot) :
    t.After s { s with candidates := s.candidates.offer rules spot } :=
  ⟨fun h => h, fun _ hd => hsound.lasts rules spot hd⟩

theorem Safe.offer (hsound : t.Sound) {s : State} (hs : t.Safe s) {rules : List Rule} {spot : Spot}
    (hways : c.Ways rules spot) :
    t.Safe { s with candidates := s.candidates.offer rules spot } where
  good := hs.good.offer hways
  memo := fun key ends hfind =>
    (hs.memo key ends hfind).later (fun h => h) fun _ hd => hsound.lasts rules spot hd

theorem Safe.cut {s : State} (hs : t.Safe s) {note : Cuts → Cuts} (hcutting : Cutting c note)
    (hfine : t.fine (note s.cuts) → t.fine s.cuts) : t.Safe { s with cuts := note s.cuts } where
  good := hs.good.cut hcutting
  memo := fun key ends hfind => (hs.memo key ends hfind).later hfine fun _ hd => hd

/-! ## Elements -/

section

variable {path : Path} {visit : Rule → Nat → Step Positions} {e : Element} {follow : List Element}
  {p : Nat} {s : State}

/-- How the plan of an element goes: the memory stays safe, and where nothing that matters was cut
off, each act of the plan has brought its notes. -/
theorem Visits.course (hsound : t.Sound) (hvisits : t.Visits path visit)
    (h : Stands c path e follow p) :
    Course path visit (Part c (preferredIn path).isSome e follow p)
      (Fair c (preferredIn path).isSome fun _ _ _ => False)
      (Fair c (preferredIn path).isSome (t.must path)) t.Safe (fun s => t.fine s.cuts) t.After
      (fun event s => ∀ d, t.Brings path event d → t.noted s.candidates d) where
  refl := After.refl
  trans := After.trans
  fineBefore := After.fine
  lasts := fun hlater hdone d hd => hlater.notes d (hdone d hd)
  note := by
    intro spot s harr hs
    have hways := h.fromEntry harr
    rw [List.append_nil] at hways
    exact ⟨hs.offer hsound hways, after_offer hsound s (chain path) spot,
      fun d hd => hd s.candidates⟩
  call := by
    rintro r q s ⟨follow', hlead⟩ hs
    have hanswers := hvisits r q follow' (h.lead hlead) s hs
    exact ⟨hanswers.safe, hanswers.later, ⟨hanswers.sound, fun _ h => h.elim⟩, fun hfine =>
      ⟨⟨hanswers.sound, hanswers.full hfine⟩, hanswers.noted hfine⟩⟩

theorem walk_safe (hsound : t.Sound) (hvisits : t.Visits path visit)
    (h : Stands c path e follow p) (hs : t.Safe s) :
    t.Safe ((walk c path visit e p follow).run s).2 ∧
      t.After s ((walk c path visit e p follow).run s).2 := by
  rw [walk_eq_run]
  obtain ⟨hsafe, hlater, -⟩ := (hvisits.course hsound h).run_keeps (h.serves _).keeps hs
  exact ⟨hsafe, hlater⟩

/-- The walk ends where its layer of the grammar passes. -/
theorem mem_of_passes (hsound : t.Sound) (hvisits : t.Visits path visit)
    (h : Stands c path e follow p) (hs : t.Safe s)
    (hfine : t.fine ((walk c path visit e p follow).run s).2.cuts) {q : Nat}
    (hpasses : Passes c (t.must path) e p q) :
    q ∈ ((walk c path visit e p follow).run s).1 := by
  rw [walk_eq_run] at hfine ⊢
  exact (hvisits.course hsound h).mem_of_finds (h.serves _).keeps
    ((h.serves _).finds (.ended q) hpasses) hs hfine

/-- A note is made when the walk is over, where it is due from an act that the layer wants. -/
theorem noted_of_wanted (hsound : t.Sound) (hvisits : t.Visits path visit)
    (h : Stands c path e follow p) (hs : t.Safe s)
    (hfine : t.fine ((walk c path visit e p follow).run s).2.cuts) {event : Event} {d : t.Note}
    (hwanted : Wanted c (t.must path) e follow p event) (hact : event.isAct)
    (hd : t.Brings path event d) :
    t.noted ((walk c path visit e p follow).run s).2.candidates d := by
  rw [walk_eq_run] at hfine ⊢
  exact (hvisits.course hsound h).done_of_finds (h.serves _).keeps hact
    ((h.serves _).finds event hwanted) hs hfine d hd

end

/-! ## Rules -/

section

variable {path : Path} {r : Rule} {follow : List Element} {p : Nat} {s : State}

theorem answers_of_held (hsound : t.Sound) (h : Stands c path (.rule r) follow p)
    (hheld : c.Held (preferredIn path).isSome r p) (hs : t.Safe s) :
    t.Answers path r p s ((do offerAt path (.rule r); return ∅ : Step Positions).run s) := by
  obtain rfl := hheld.1
  have hways := h.fromEntry (.call _ r follow)
  rw [List.append_nil] at hways
  exact {
    safe := hs.offer hsound hways
    later := after_offer hsound s (chain path) (.rule r)
    sound := fun q hq => absurd hq (Positions.not_mem_empty q)
    full := fun _ q hq => absurd hheld (hsound.free hq)
    noted := fun _ d hd => hsound.held h.called hheld hd s.candidates }

theorem answers_of_find (h : Stands c path (.rule r) follow p) {ends : Positions} (hs : t.Safe s)
    (hfind : s.memo.find? ⟨r, p, preferredIn path⟩ = some ends) :
    t.Answers path r p s (ends, s) where
  safe := hs
  later := .refl s
  sound := (hs.good.memo _ _ hfind).sound
  full := fun hfine => (hs.memo _ _ hfind hfine path h.called rfl).1
  noted := fun hfine => (hs.memo _ _ hfind hfine path h.called rfl).2

theorem answers_of_cut {note : Cuts → Cuts} (hs : t.Safe s) (hcutting : Cutting c note)
    (hfine : t.fine (note s.cuts) → t.fine s.cuts)
    (hnothing : t.fine (note s.cuts) → (∀ q, ¬t.must path r p q) ∧ ∀ d, ¬t.due path r p d) :
    t.Answers path r p s ((cutOff note).run s) where
  safe := hs.cut hcutting hfine
  later := ⟨hfine, fun _ hd => hd⟩
  sound := fun q hq => absurd hq (Positions.not_mem_empty q)
  full := fun hcut q hq => absurd hq ((hnothing hcut).1 q)
  noted := fun hcut d hd => absurd hd ((hnothing hcut).2 d)

/-- A note that the body of a rule has to pass on is made when the body has been walked. -/
theorem noted_of_passed {visit : Rule → Nat → Step Positions} (hsound : t.Sound)
    (hvisits : t.Visits path visit) {body : Element} (h : Stands c path body [] p)
    (hs : t.Safe s) (hfine : t.fine ((walk c path visit body p []).run s).2.cuts) {d : t.Note}
    (hpassed : t.Passed path body p d) :
    t.noted ((walk c path visit body p []).run s).2.candidates d := by
  rcases hpassed with ⟨spot, hopens, hcomes, hmakes⟩ | ⟨r, q, hcomes, hd⟩
  · have hwanted : Wanted c (t.must path) body [] p (.noted spot) := ⟨hopens, hcomes⟩
    exact noted_of_wanted hsound hvisits h hs hfine hwanted rfl hmakes
  · have hwanted : Wanted c (t.must path) body [] p (.called r q) := hcomes
    exact noted_of_wanted hsound hvisits h hs hfine hwanted rfl hd

/-- What the walk of a body leaves may be kept in the memory: it does all that is asked of any call
of the rule that it may answer. -/
theorem kept_of_walk {visit : Rule → Nat → Step Positions} (hsound : t.Sound)
    (hvisits : t.Visits (⟨r, p⟩ :: path) visit) (h : Stands c path (.rule r) follow p)
    (hroom : path.length < maxDepth) (free : ¬c.Held (preferredIn path).isSome r p) {body : Element}
    (defined : c.grammar.body? r = some body) (hs : t.Safe s) :
    t.Kept ((walk c (⟨r, p⟩ :: path) visit body p []).run s).2 ⟨r, p, preferredIn path⟩
      ((walk c (⟨r, p⟩ :: path) visit body p []).run s).1 := by
  have hinside := h.enter free defined
  intro hfine path' hcalled hpreferred
  obtain ⟨hmust, hdue⟩ := hsound.recalled h.called hcalled hpreferred.symm free hroom
  constructor
  · intro q hq
    obtain ⟨body', defined', hpasses⟩ := hsound.body h.called (hmust q hq)
    obtain rfl := Option.some.inj (defined.symm.trans defined')
    exact mem_of_passes hsound hvisits hinside hs hfine hpasses
  · intro d hd
    obtain ⟨body', defined', hpassed⟩ := hsound.passed h.called free (hdue d hd)
    obtain rfl := Option.some.inj (defined.symm.trans defined')
    exact noted_of_passed hsound hvisits hinside hs hfine hpassed

/-- The call of a rule is answered by the walk of its body, which is kept. -/
theorem answers_of_body {visit : Rule → Nat → Step Positions} (hsound : t.Sound)
    (hvisits : t.Visits (⟨r, p⟩ :: path) visit) (hways : VisitsWays c (⟨r, p⟩ :: path) visit)
    (h : Stands c path (.rule r) follow p) (hroom : path.length < maxDepth)
    (free : ¬c.Held (preferredIn path).isSome r p) {body : Element}
    (defined : c.grammar.body? r = some body) (hs : t.Safe s) :
    t.Answers path r p s (StateT.run (do
      let ends ← walk c (⟨r, p⟩ :: path) visit body p []
      modify fun s => { s with memo := s.memo.insert ⟨r, p, preferredIn path⟩ ends }
      return ends) s) := by
  have hinside := h.enter free defined
  have hbody := walk_yields hways body hinside
  have hkeep : YieldsKey c ⟨r, p, preferredIn path⟩ _ := body_yields free defined hbody
  have houtcome := hkeep.keep s hs.good
  have hkept := kept_of_walk hsound hvisits h hroom free defined hs
  obtain ⟨hsafe, hlater⟩ := walk_safe hsound hvisits hinside hs
  refine {
    safe := ⟨houtcome.good, ?_⟩
    later := ⟨hlater.fine, hlater.notes⟩
    sound := houtcome.sound
    full := fun hfine => (hkept hfine path h.called rfl).1
    noted := fun hfine => (hkept hfine path h.called rfl).2 }
  intro other found hfind
  change (Memo.insert _ _ _).find? other = some found at hfind
  rw [Memo.find?_insert] at hfind
  split at hfind
  · rename_i heq
    subst heq
    cases hfind
    exact hkept
  · exact hsafe.memo other found hfind

/-- Every call is answered, whatever room there is for more open rules. -/
theorem walkRule_visits (hrec : ∀ r, ¬c.grammar.LeftRecursive c.version r) (hsound : t.Sound)
    (room : Nat) {path : Path} (hroom : path.length + room = maxDepth) :
    t.Visits path (walkRule c room path) := by
  induction room generalizing path with
  | zero =>
    intro r p follow h s hs
    by_cases hheld : c.Held (preferredIn path).isSome r p
    · rw [walkRule_of_held 0 hheld]
      exact answers_of_held hsound h hheld hs
    cases hfind : s.memo.find? ⟨r, p, preferredIn path⟩ with
    | some ends =>
      rw [run_walkRule_of_find 0 hheld hfind]
      exact answers_of_find h hs hfind
    | none =>
      rw [run_walkRule_zero_of_miss hheld hfind]
      exact answers_of_cut hs cutting_depth hsound.fine_of_depth
        (hsound.deep hroom hheld)
  | succ room ih =>
    intro r p follow h s hs
    by_cases hheld : c.Held (preferredIn path).isSome r p
    · rw [walkRule_of_held _ hheld]
      exact answers_of_held hsound h hheld hs
    cases hfind : s.memo.find? ⟨r, p, preferredIn path⟩ with
    | some ends =>
      rw [run_walkRule_of_find _ hheld hfind]
      exact answers_of_find h hs hfind
    | none =>
      have hclosed : (⟨r, p⟩ : Frame) ∉ path := fun hopen => hrec r (h.leftRecursive hopen)
      rw [run_walkRule_of_miss room hheld hfind, if_neg hclosed]
      cases hbody : c.grammar.body? r with
      | none =>
        have hundefined : ∀ {body}, c.grammar.body? r ≠ some body := by simp [hbody]
        have hmem := Grammar.mem_undefinedRules_iff.2 ⟨hbody, h.mem_usedRules⟩
        refine answers_of_cut hs (cutting_undefinedRule hmem) hsound.fine_of_undefinedRule fun _ =>
          ⟨fun q hq => ?_, fun d hd => ?_⟩
        · obtain ⟨body, defined, -⟩ := hsound.body h.called hq
          exact hundefined defined
        · obtain ⟨body, defined, -⟩ := hsound.passed h.called hheld hd
          exact hundefined defined
      | some body =>
        have hinner : (⟨r, p⟩ :: path : Path).length + room = maxDepth := by
          rw [List.length_cons]
          omega
        exact answers_of_body hsound (ih hinner) (walkRule_yields room _) h (by omega) hheld hbody
          hs

/-- The whole walk fulfils a task that is sound. -/
theorem run_fulfils (hrec : ∀ r, ¬c.grammar.LeftRecursive c.version r) (hsound : t.Sound)
    (hfine : t.fine (run c).2.cuts) {d : t.Note} (hd : t.due [] c.grammar.entry 0 d) :
    t.noted (run c).2.candidates d := by
  have hvisits : t.Visits [] (walkRule c maxDepth []) :=
    walkRule_visits hrec hsound maxDepth (Nat.zero_add _)
  exact (hvisits c.grammar.entry 0 [] (stands_entry c) {} (safe_initial t)).noted hfine d hd

end

end

end Task

end SqlCompletion.Walk
