import Mathlib.Data.List.Nodup
import SqlCompletion.Candidate.Walk
import SqlCompletion.Proofs.Derivation
set_option autoImplicit false

/-!
# What is noted at the caret

What is expected at the caret demands a note (`demand?`): of the outermost preferred rule that is
open or next, or else of the terminal, unless that is ignored. All the notes of a walk are made by
one operation, `Candidates.offer`; that the notes of the walk are offers is shown at the end of this
module (`offerToken_eq`, `offerHeld_eq`).

* An offer keeps what was noted (`Notes.offer`), notes what is demanded (`notes_offer`), and notes
  nothing else (`Backed.offer`).
* Where all that is demanded is noted and nothing else is, the candidates are exact
  (`Backed.exact`): the terminals that are expected outside of preferred rules, and the outermost
  preferred rules in whose front or inside something is expected (`Exact`).
* What stands under a terminal is settled by all its occurrences (`Backed.settled`): what must
  follow each of them, or nothing where two of them differ.
* Candidates that are exact for a part of what is expected are exact for all of it just where the
  part covers it (`Exact.iff_covers`, `Settled.iff_agree`).

Nothing is said here of grammars or walks. What is expected is any relation between chains of open
rules and spots, so that the same lemmas serve for the ways of a walk and for the partial
derivations of a grammar.

A chain of rules that leads to a preferred rule is not part of a demand. An offer keeps it with the
rule, but which of the chains a walk offers is another question.
-/

namespace SqlCompletion

/-! ## Notes by their keys -/

section

variable {α β : Type} [DecidableEq α]

theorem lookup_cons_ite (k a : α) (v : β) (entries : List (α × β)) :
    ((k, v) :: entries).lookup a = if a = k then some v else entries.lookup a := by
  by_cases ha : a = k
  · subst ha
    rw [List.lookup_cons_self, if_pos rfl]
  · rw [List.lookup_cons, beq_false_of_ne ha, if_neg ha]

theorem lookup_assocInsert (key a : α) (value : β) (entries : List (α × β)) :
    (assocInsert key value entries).lookup a =
      if a = key then some value else entries.lookup a := by
  induction entries with
  | nil => rw [assocInsert, lookup_cons_ite]
  | cons entry rest ih =>
    obtain ⟨k, v⟩ := entry
    unfold assocInsert
    split
    · rename_i hk
      subst hk
      rw [lookup_cons_ite, lookup_cons_ite]
      by_cases ha : a = k <;> simp [ha]
    · rename_i hk
      rw [lookup_cons_ite, lookup_cons_ite, ih]
      by_cases ha : a = k
      · subst ha
        simp [hk]
      · simp [ha]

/-- A key that is there keeps its place. -/
theorem mem_assocInsert {α β : Type} [DecidableEq α] {key : α} {value : β} {l : List (α × β)}
    {p : α × β} (h : p ∈ assocInsert key value l) : p = (key, value) ∨ p ∈ l := by
  induction l with
  | nil => exact .inl (List.mem_singleton.1 h)
  | cons q l ih =>
    rw [assocInsert] at h
    split at h
    · rename_i hkey
      rcases List.mem_cons.1 h with rfl | h
      · exact .inl (by rw [hkey])
      · exact .inr (List.mem_cons_of_mem q h)
    · rcases List.mem_cons.1 h with rfl | h
      · exact .inr List.mem_cons_self
      · exact (ih h).imp_right (List.mem_cons_of_mem q)

theorem keys_assocInsert {key : α} {value known : β} {entries : List (α × β)}
    (h : entries.lookup key = some known) :
    (assocInsert key value entries).map Prod.fst = entries.map Prod.fst := by
  induction entries with
  | nil => cases h
  | cons entry rest ih =>
    obtain ⟨k, v⟩ := entry
    unfold assocInsert
    split
    · rfl
    · rename_i hk
      have hrest : rest.lookup key = some known := by
        rwa [lookup_cons_ite, if_neg fun h => hk h.symm] at h
      rw [List.map_cons, List.map_cons, ih hrest]

theorem mem_of_lookup {a : α} {b : β} {entries : List (α × β)} (h : entries.lookup a = some b) :
    (a, b) ∈ entries := by
  obtain ⟨before, after, rfl, -⟩ := List.lookup_eq_some_iff.1 h
  exact List.mem_append_right _ List.mem_cons_self

/-- Where no key stands twice, the entries are what is found under the keys. -/
theorem lookup_of_mem {a : α} {b : β} {entries : List (α × β)}
    (hkeys : (entries.map Prod.fst).Nodup) (h : (a, b) ∈ entries) :
    entries.lookup a = some b := by
  induction entries with
  | nil => cases h
  | cons entry rest ih =>
    obtain ⟨k, v⟩ := entry
    obtain ⟨hfresh, hrest⟩ := List.nodup_cons.1 hkeys
    rcases List.mem_cons.1 h with heq | hmem
    · cases heq
      exact List.lookup_cons_self
    · have hne : a ≠ k := by
        rintro rfl
        exact hfresh (List.mem_map.2 ⟨(a, b), hmem, rfl⟩)
      rw [lookup_cons_ite, if_neg hne]
      exact ih hrest hmem

/-- A new key at the end does not stand there twice. -/
theorem nodup_keys_append {a : α} {entries : List (α × β)}
    (hkeys : (entries.map Prod.fst).Nodup) (h : entries.lookup a = none) (b : β) :
    ((entries ++ [(a, b)]).map Prod.fst).Nodup := by
  have hfresh : a ∉ entries.map Prod.fst := by
    intro ha
    obtain ⟨entry, hentry, rfl⟩ := List.mem_map.1 ha
    have htest := List.lookup_eq_none_iff.1 h entry hentry
    simp at htest
  simpa [List.concat_eq_append] using List.Nodup.concat hfresh hkeys

end

namespace Candidates

/-- What stands under a terminal when an occurrence of it is noted. -/
def mergeFollowing (following : List Terminal) : Option (List Terminal) → List Terminal
  | none => following
  | some known => if known = following then known else []

/-- What stands under a rule when a chain that leads to it is noted. -/
def mergeChain (chain : List Rule) : Option (List (List Rule)) → List (List Rule)
  | none => [chain]
  | some chains => if chains.contains chain then chains else chains ++ [chain]

variable (k : Candidates)

theorem lookup_addToken (t u : Terminal) (following : List Terminal) :
    (k.addToken t following).tokens.lookup u =
      if u = t then some (mergeFollowing following (k.tokens.lookup t))
      else k.tokens.lookup u := by
  unfold addToken
  cases hknown : k.tokens.lookup t with
  | none =>
    rw [List.lookup_append, lookup_cons_ite]
    by_cases hu : u = t
    · subst hu
      simp [hknown, mergeFollowing]
    · simp [hu]
  | some known =>
    simp only [mergeFollowing]
    split
    · by_cases hu : u = t
      · subst hu
        simp [hknown]
      · simp [hu]
    · exact lookup_assocInsert t u [] k.tokens

theorem lookup_addRule (r s : Rule) (chain : List Rule) :
    (k.addRule r chain).rules.lookup s =
      if s = r then some (mergeChain chain (k.rules.lookup r)) else k.rules.lookup s := by
  unfold addRule
  cases hknown : k.rules.lookup r with
  | none =>
    rw [List.lookup_append, lookup_cons_ite]
    by_cases hs : s = r
    · subst hs
      simp [hknown, mergeChain]
    · simp [hs]
  | some chains =>
    simp only [mergeChain, List.contains_iff_mem]
    split
    · by_cases hs : s = r
      · subst hs
        simp [hknown]
      · simp [hs]
    · exact lookup_assocInsert r s (chains ++ [chain]) k.rules

@[simp] theorem rules_addToken (t : Terminal) (following : List Terminal) :
    (k.addToken t following).rules = k.rules := by
  unfold addToken
  split
  · rfl
  · split <;> rfl

@[simp] theorem tokens_addRule (r : Rule) (chain : List Rule) :
    (k.addRule r chain).tokens = k.tokens := by
  unfold addRule
  split
  · rfl
  · split <;> rfl

/-- No terminal and no rule is noted twice. -/
structure Distinct (k : Candidates) : Prop where
  terminals : k.terminals.Nodup
  ruleNames : k.ruleNames.Nodup

variable {k}

theorem Distinct.addToken (h : k.Distinct) (t : Terminal) (following : List Terminal) :
    (k.addToken t following).Distinct := by
  refine ⟨?_, by simpa [Candidates.ruleNames] using h.ruleNames⟩
  have hkeys := h.terminals
  unfold Candidates.addToken Candidates.terminals at *
  split
  · rename_i hnone
    exact nodup_keys_append hkeys hnone _
  · rename_i known hknown
    split
    · exact hkeys
    · rwa [keys_assocInsert hknown]

theorem Distinct.addRule (h : k.Distinct) (r : Rule) (chain : List Rule) :
    (k.addRule r chain).Distinct := by
  refine ⟨by simpa [Candidates.terminals] using h.terminals, ?_⟩
  have hkeys := h.ruleNames
  unfold Candidates.addRule Candidates.ruleNames at *
  split
  · rename_i hnone
    exact nodup_keys_append hkeys hnone _
  · rename_i chains hknown
    split
    · exact hkeys
    · rwa [keys_assocInsert hknown]

end Candidates

/-! ## The rule that is reported -/

/-- The outermost preferred rule among some, with the rules around it. -/
def outermost? (rules : List Rule) : Option (Rule × List Rule) :=
  match rules.dropWhile (!·.isPreferred) with
  | [] => none
  | r :: _ => some (r, rules.takeWhile (!·.isPreferred))

@[simp] theorem outermost?_nil : outermost? [] = none := rfl

theorem outermost?_cons (s : Rule) (rules : List Rule) :
    outermost? (s :: rules) =
      if s.isPreferred then some (s, []) else (outermost? rules).map fun x => (x.1, s :: x.2) := by
  unfold outermost?
  cases hs : s.isPreferred with
  | true => simp [hs]
  | false =>
    simp only [List.dropWhile_cons, List.takeWhile_cons, hs]
    cases rules.dropWhile (!·.isPreferred) <;> rfl

theorem outermost?_append (rules more : List Rule) :
    outermost? (rules ++ more) =
      (outermost? rules).or ((outermost? more).map fun x => (x.1, rules ++ x.2)) := by
  induction rules with
  | nil => simp
  | cons s rules ih =>
    rw [List.cons_append, outermost?_cons, outermost?_cons, ih]
    cases hs : s.isPreferred with
    | true => simp
    | false => cases outermost? rules <;> cases outermost? more <;> simp

/-- Which rule it is does not depend on the rules around it. -/
theorem map_fst_outermost? (rules : List Rule) :
    (outermost? rules).map Prod.fst = rules.find? Rule.isPreferred := by
  induction rules with
  | nil => rfl
  | cons s rules ih =>
    rw [outermost?_cons, List.find?_cons]
    cases hs : s.isPreferred with
    | true => simp
    | false => simpa [Function.comp_def] using ih

theorem outermost?_split {rules around : List Rule} {r : Rule}
    (h : outermost? rules = some (r, around)) :
    r.isPreferred = true ∧ (∀ s ∈ around, s.isPreferred = false) ∧
      ∃ rest, rules = around ++ r :: rest := by
  induction rules generalizing around with
  | nil => cases h
  | cons s rules ih =>
    rw [outermost?_cons] at h
    cases hs : s.isPreferred with
    | true =>
      rw [hs] at h
      cases h
      exact ⟨hs, by simp, rules, rfl⟩
    | false =>
      simp only [hs, Bool.false_eq_true, if_false, Option.map_eq_some_iff, Prod.mk.injEq,
        Prod.exists] at h
      obtain ⟨r', around', hrest, rfl, rfl⟩ := h
      obtain ⟨hr, haround, rest, rfl⟩ := ih hrest
      refine ⟨hr, ?_, rest, rfl⟩
      intro x hx
      rcases List.mem_cons.1 hx with rfl | hx
      · exact hs
      · exact haround x hx

/-! ## What a way demands -/

/-- A note that a way demands. -/
inductive Demand where
  /-- The terminal, with what must follow this occurrence of it. -/
  | token (t : Terminal) (following : List Terminal)
  /-- The preferred rule. -/
  | rule (r : Rule)
  deriving DecidableEq, Repr

/-- What a way demands that opens the rules in `chain` and has `spot` next, where `preferred` is
the outermost preferred rule around it. -/
def demand? (preferred : Option Rule) (chain : List Rule) (spot : Spot) : Option Demand :=
  match preferred.or ((chain ++ spot.opens).find? Rule.isPreferred), spot with
  | some r, _ => some (.rule r)
  | none, .token t follow =>
    if t.isIgnored then none else some (.token t (followingTerminals follow))
  | none, _ => none

/-- Rules that are open around a way count as the outermost preferred one of them. -/
theorem demand?_append (preferred : Option Rule) (rules chain : List Rule) (spot : Spot) :
    demand? preferred (rules ++ chain) spot =
      demand? (preferred.or (rules.find? Rule.isPreferred)) chain spot := by
  unfold demand?
  rw [List.append_assoc, List.find?_append, Option.or_assoc]

theorem demand?_of_find {chain : List Rule} {spot : Spot} {r : Rule}
    (h : (chain ++ spot.opens).find? Rule.isPreferred = some r) :
    demand? none chain spot = some (.rule r) := by
  unfold demand?
  rw [Option.none_or, h]

namespace Candidates

/-- Makes the note that a way demands. -/
def offer (k : Candidates) (rules : List Rule) (spot : Spot) : Candidates :=
  match outermost? (rules ++ spot.opens), spot with
  | some (r, around), _ => k.addRule r around
  | none, .token t follow =>
    if t.isIgnored then k else k.addToken t (followingTerminals follow)
  | none, _ => k

/-- The note is made. Of a terminal, it stays made when another occurrence makes it forget what
must follow. -/
def Notes (k : Candidates) : Demand → Prop
  | .token t following =>
    ∃ known, k.tokens.lookup t = some known ∧ (known = following ∨ known = [])
  | .rule r => ∃ chains, k.rules.lookup r = some chains

variable {k : Candidates} {d : Demand}

theorem Notes.addToken (h : k.Notes d) (t : Terminal) (following : List Terminal) :
    (k.addToken t following).Notes d := by
  cases d with
  | token u wanted =>
    obtain ⟨known, hknown, hwanted⟩ := h
    rw [Notes, lookup_addToken]
    by_cases hu : u = t
    · subst hu
      refine ⟨_, if_pos rfl, ?_⟩
      rw [hknown, mergeFollowing]
      split
      · exact hwanted
      · exact .inr rfl
    · exact ⟨known, by rwa [if_neg hu], hwanted⟩
  | rule r => simpa [Notes] using h

theorem Notes.addRule (h : k.Notes d) (r : Rule) (chain : List Rule) :
    (k.addRule r chain).Notes d := by
  cases d with
  | token u wanted => simpa [Notes] using h
  | rule s =>
    obtain ⟨chains, hchains⟩ := h
    rw [Notes, lookup_addRule]
    split
    · exact ⟨_, rfl⟩
    · exact ⟨chains, hchains⟩

theorem notes_addToken (k : Candidates) (t : Terminal) (following : List Terminal) :
    (k.addToken t following).Notes (.token t following) := by
  refine ⟨_, by rw [lookup_addToken, if_pos rfl], ?_⟩
  cases k.tokens.lookup t with
  | none => exact .inl rfl
  | some known =>
    rw [mergeFollowing]
    split
    · rename_i hsame
      exact .inl hsame
    · exact .inr rfl

theorem notes_addRule (k : Candidates) (r : Rule) (chain : List Rule) :
    (k.addRule r chain).Notes (.rule r) :=
  ⟨_, by rw [lookup_addRule, if_pos rfl]⟩

/-- A note stays. -/
theorem Notes.offer (h : k.Notes d) (rules : List Rule) (spot : Spot) :
    (k.offer rules spot).Notes d := by
  unfold Candidates.offer
  split
  · exact h.addRule _ _
  · split
    · exact h
    · exact h.addToken _ _
  · exact h

/-- What the way demands is noted. -/
theorem notes_offer (k : Candidates) {rules : List Rule} {spot : Spot}
    (h : demand? none rules spot = some d) : (k.offer rules spot).Notes d := by
  unfold demand? at h
  rw [Option.none_or, ← map_fst_outermost?] at h
  unfold Candidates.offer
  cases hout : outermost? (rules ++ spot.opens) with
  | some found =>
    rw [hout] at h
    cases h
    exact notes_addRule k _ _
  | none =>
    rw [hout] at h
    cases spot with
    | token t follow =>
      dsimp only [Option.map_none] at h ⊢
      split at h
      · cases h
      · rename_i hkept
        cases h
        rw [if_neg hkept]
        exact notes_addToken k _ _
    | ident => cases h
    | rule r => cases h

end Candidates

/-! ## Notes that are backed -/

section

variable (expects : List Rule → Spot → Prop)

/-- A terminal is expected next, outside of all preferred rules, in a place where `following` must
follow it. -/
def Occurs (t : Terminal) (following : List Terminal) : Prop :=
  ∃ chain follow, expects chain (.token t follow) ∧ (∀ r ∈ chain, r.isPreferred = false) ∧
    followingTerminals follow = following

/-- A preferred rule is expected next or something inside it, through the rules around it, none of
which is preferred. -/
def Reported (r : Rule) (around : List Rule) : Prop :=
  r.isPreferred = true ∧ (∀ s ∈ around, s.isPreferred = false) ∧
    ∃ chain spot rest, expects chain spot ∧ chain ++ spot.opens = around ++ r :: rest

/-- The rule is the outermost preferred one of the rules that are open, with the next one, where
something is expected. -/
def Outermost (r : Rule) : Prop :=
  ∃ chain spot, expects chain spot ∧ (chain ++ spot.opens).find? Rule.isPreferred = some r

/-- What stands under a terminal is what must follow one of its occurrences, or it is nothing
because two of them differ. -/
def Agreed (t : Terminal) (known : List Terminal) : Prop :=
  ∃ following, Occurs expects t following ∧
    (known = following ∨ known = [] ∧ ∃ other, Occurs expects t other ∧ other ≠ following)

/-- Every note comes from something that is expected. -/
structure Backed (k : Candidates) : Prop where
  distinct : k.Distinct
  tokens : ∀ t known, k.tokens.lookup t = some known →
    t.isIgnored = false ∧ Agreed expects t known
  rules : ∀ r chains, k.rules.lookup r = some chains →
    chains ≠ [] ∧ ∀ around ∈ chains, Reported expects r around

/-- The candidates are the terminals that are expected outside of preferred rules, but for the
ignored ones, and the outermost preferred rules in whose front or inside something is expected. -/
structure Exact (k : Candidates) : Prop where
  terminals : ∀ t, t ∈ k.terminals ↔ t.isIgnored = false ∧ ∃ following, Occurs expects t following
  ruleNames : ∀ r, r ∈ k.ruleNames ↔ Outermost expects r

/-- What must follow all the occurrences of a terminal, or nothing where two of them differ. -/
def Settled (t : Terminal) (known : List Terminal) : Prop :=
  (Occurs expects t known ∧ ∀ following, Occurs expects t following → following = known) ∨
    known = [] ∧ ∃ first second, Occurs expects t first ∧ Occurs expects t second ∧ first ≠ second

/-- All that is demanded is noted. -/
def Answered (k : Candidates) : Prop :=
  ∀ chain spot d, expects chain spot → demand? none chain spot = some d → k.Notes d

/-- Whatever is expected, what is found has a candidate for it. -/
structure Covers (found : List Rule → Spot → Prop) : Prop where
  terminals : ∀ t, t.isIgnored = false → (∃ following, Occurs expects t following) →
    ∃ following, Occurs found t following
  ruleNames : ∀ r, Outermost expects r → Outermost found r

end

section

variable {expects : List Rule → Spot → Prop} {k : Candidates} {t : Terminal}
  {following known : List Terminal} {r : Rule}

theorem Agreed.merge (h : Agreed expects t known) (hnew : Occurs expects t following) :
    Agreed expects t (Candidates.mergeFollowing following (some known)) := by
  rw [Candidates.mergeFollowing]
  split
  · exact h
  · rename_i hne
    obtain ⟨first, hfirst, rfl | ⟨rfl, other, hother, hdiffer⟩⟩ := h
    · exact ⟨following, hnew, .inr ⟨rfl, known, hfirst, hne⟩⟩
    · exact ⟨first, hfirst, .inr ⟨rfl, other, hother, hdiffer⟩⟩

theorem Backed.addToken (h : Backed expects k) (hkept : t.isIgnored = false)
    (hnew : Occurs expects t following) : Backed expects (k.addToken t following) := by
  refine ⟨h.distinct.addToken t following, ?_, by simpa using h.rules⟩
  intro u known hu
  rw [Candidates.lookup_addToken] at hu
  split at hu
  · rename_i hut
    subst hut
    obtain rfl := Option.some.inj hu
    refine ⟨hkept, ?_⟩
    cases hbefore : k.tokens.lookup u with
    | none => exact ⟨following, hnew, .inl rfl⟩
    | some before => exact (h.tokens u before hbefore).2.merge hnew
  · exact h.tokens u known hu

theorem Backed.addRule {around : List Rule} (h : Backed expects k)
    (hnew : Reported expects r around) : Backed expects (k.addRule r around) := by
  refine ⟨h.distinct.addRule r around, by simpa using h.tokens, ?_⟩
  intro s chains hs
  rw [Candidates.lookup_addRule] at hs
  split at hs
  · rename_i hsr
    subst hsr
    obtain rfl := Option.some.inj hs
    cases hbefore : k.rules.lookup s with
    | none =>
      refine ⟨List.cons_ne_nil _ _, ?_⟩
      intro chain hchain
      obtain rfl := List.mem_singleton.1 hchain
      exact hnew
    | some before =>
      obtain ⟨hne, hall⟩ := h.rules s before hbefore
      rw [Candidates.mergeChain]
      split
      · exact ⟨hne, hall⟩
      · refine ⟨by simp, ?_⟩
        intro chain hchain
        rcases List.mem_append.1 hchain with hchain | hchain
        · exact hall chain hchain
        · obtain rfl := List.mem_singleton.1 hchain
          exact hnew
  · exact h.rules s chains hs

/-- What is expected backs the note that it demands. -/
theorem Backed.offer {rules : List Rule} {spot : Spot} (h : Backed expects k)
    (hexpects : expects rules spot) : Backed expects (k.offer rules spot) := by
  unfold Candidates.offer
  cases hout : outermost? (rules ++ spot.opens) with
  | some found =>
    obtain ⟨r, around⟩ := found
    obtain ⟨hr, haround, rest, hrules⟩ := outermost?_split hout
    exact h.addRule ⟨hr, haround, rules, spot, rest, hexpects, hrules⟩
  | none =>
    cases spot with
    | token t follow =>
      dsimp only
      split
      · exact h
      · rename_i hkept
        refine h.addToken (by simpa using hkept) ⟨rules, follow, hexpects, ?_, rfl⟩
        have hnone : rules.find? Rule.isPreferred = none := by
          rw [← map_fst_outermost?]
          simpa [Spot.opens] using hout
        simpa using hnone
    | ident => exact h
    | rule r => exact h

section

variable {expects' : List Rule → Spot → Prop}
  (himp : ∀ chain spot, expects chain spot → expects' chain spot)

include himp

theorem Occurs.mono (h : Occurs expects t following) : Occurs expects' t following := by
  obtain ⟨chain, follow, hexpects, hrest⟩ := h
  exact ⟨chain, follow, himp _ _ hexpects, hrest⟩

theorem Outermost.mono (h : Outermost expects r) : Outermost expects' r := by
  obtain ⟨chain, spot, hexpects, hfind⟩ := h
  exact ⟨chain, spot, himp _ _ hexpects, hfind⟩

theorem Reported.mono {around : List Rule} (h : Reported expects r around) :
    Reported expects' r around := by
  obtain ⟨hpreferred, hfree, chain, spot, rest, hexpects, hchain⟩ := h
  exact ⟨hpreferred, hfree, chain, spot, rest, himp _ _ hexpects, hchain⟩

/-- What backs the notes may be seen as more. -/
theorem Backed.mono (h : Backed expects k) : Backed expects' k where
  distinct := h.distinct
  tokens := by
    intro t known hknown
    obtain ⟨hkept, following, hoccurs, hcase⟩ := h.tokens t known hknown
    refine ⟨hkept, following, hoccurs.mono himp, hcase.imp_right ?_⟩
    rintro ⟨hempty, other, hother, hdiffer⟩
    exact ⟨hempty, other, hother.mono himp, hdiffer⟩
  rules := by
    intro r chains hchains
    obtain ⟨hne, hall⟩ := h.rules r chains hchains
    exact ⟨hne, fun around haround => (hall around haround).mono himp⟩

end

theorem backed_empty (expects : List Rule → Spot → Prop) : Backed expects {} := by
  refine ⟨⟨List.nodup_nil, List.nodup_nil⟩, ?_, ?_⟩
  · intro t known h
    cases h
  · intro r chains h
    cases h

/-! ## Notes that are backed and complete -/

theorem Occurs.demanded (h : Occurs expects t following) (hkept : t.isIgnored = false) :
    ∃ chain spot, expects chain spot ∧ demand? none chain spot = some (.token t following) := by
  obtain ⟨chain, follow, hexpects, hfree, rfl⟩ := h
  refine ⟨chain, .token t follow, hexpects, ?_⟩
  have hnone : chain.find? Rule.isPreferred = none := by simpa using hfree
  simp [demand?, Spot.opens, hnone, hkept]

theorem Answered.occurs (h : Answered expects k) (hoccurs : Occurs expects t following)
    (hkept : t.isIgnored = false) :
    ∃ known, k.tokens.lookup t = some known ∧ (known = following ∨ known = []) := by
  obtain ⟨chain, spot, hexpects, hdemand⟩ := hoccurs.demanded hkept
  exact h chain spot _ hexpects hdemand

/-- A terminal that is noted is expected outside of preferred rules. -/
theorem Backed.occurs (h : Backed expects k) (ht : t ∈ k.terminals) :
    t.isIgnored = false ∧ ∃ following, Occurs expects t following := by
  obtain ⟨⟨_, known⟩, hmem, rfl⟩ := List.mem_map.1 ht
  obtain ⟨hkept, following, hoccurs, -⟩ :=
    h.tokens _ known (lookup_of_mem h.distinct.terminals hmem)
  exact ⟨hkept, following, hoccurs⟩

/-- A rule that is noted is the outermost preferred one somewhere. -/
theorem Backed.outermost (h : Backed expects k) (hr : r ∈ k.ruleNames) : Outermost expects r := by
  obtain ⟨⟨_, chains⟩, hmem, rfl⟩ := List.mem_map.1 hr
  obtain ⟨hne, hall⟩ := h.rules _ chains (lookup_of_mem h.distinct.ruleNames hmem)
  obtain ⟨around, haround⟩ := List.exists_mem_of_ne_nil chains hne
  obtain ⟨hpreferred, hfree, chain, spot, rest, hexpects, hchain⟩ := hall around haround
  refine ⟨chain, spot, hexpects, List.find?_eq_some_iff_append.2 ⟨hpreferred, around, rest,
    hchain, fun s hs => ?_⟩⟩
  rw [hfree s hs]
  rfl

theorem Backed.exact (h : Backed expects k) (hanswered : Answered expects k) :
    Exact expects k where
  terminals := by
    intro t
    constructor
    · intro ht
      exact h.occurs ht
    · rintro ⟨hkept, following, hoccurs⟩
      obtain ⟨known, hknown, -⟩ := hanswered.occurs hoccurs hkept
      exact List.mem_map.2 ⟨(t, known), mem_of_lookup hknown, rfl⟩
  ruleNames := by
    intro r
    constructor
    · intro hr
      exact h.outermost hr
    · rintro ⟨chain, spot, hexpects, hfind⟩
      obtain ⟨chains, hchains⟩ := hanswered chain spot _ hexpects (demand?_of_find hfind)
      exact List.mem_map.2 ⟨(r, chains), mem_of_lookup hchains, rfl⟩

theorem Backed.settled (h : Backed expects k) (hanswered : Answered expects k)
    (hmem : (t, known) ∈ k.tokens) : Settled expects t known := by
  have hlookup := lookup_of_mem h.distinct.terminals hmem
  obtain ⟨hkept, first, hfirst, hcase⟩ := h.tokens t known hlookup
  have hknown : ∀ following, Occurs expects t following → known = following ∨ known = [] := by
    intro following hoccurs
    obtain ⟨found, hfound, hcase⟩ := hanswered.occurs hoccurs hkept
    obtain rfl := Option.some.inj (hlookup.symm.trans hfound)
    exact hcase
  rcases hcase with rfl | ⟨rfl, other, hother, hdiffer⟩
  · by_cases hsame : ∀ following, Occurs expects t following → following = known
    · exact .inl ⟨hfirst, hsame⟩
    · push Not at hsame
      obtain ⟨other, hother, hdiffer⟩ := hsame
      have hempty := (hknown other hother).resolve_left fun h => hdiffer h.symm
      exact .inr ⟨hempty, other, known, hother, hfirst, hdiffer⟩
  · exact .inr ⟨rfl, other, first, hother, hfirst, hdiffer⟩

/-! ## Candidates for less than what is expected -/

section

variable {found : List Rule → Spot → Prop}
  (hsub : ∀ chain spot, found chain spot → expects chain spot)

include hsub

/-- Candidates that are exact for what is found are exact for all that is expected just where the
one covers the other. -/
theorem Exact.iff_covers (h : Exact found k) : Exact expects k ↔ Covers expects found := by
  constructor
  · intro hexact
    constructor
    · intro t hkept hoccurs
      exact ((h.terminals t).1 ((hexact.terminals t).2 ⟨hkept, hoccurs⟩)).2
    · intro r houtermost
      exact (h.ruleNames r).1 ((hexact.ruleNames r).2 houtermost)
  · intro hcovers
    constructor
    · intro t
      rw [h.terminals t]
      refine and_congr_right fun hkept => ⟨?_, hcovers.terminals t hkept⟩
      rintro ⟨following, hoccurs⟩
      exact ⟨following, hoccurs.mono hsub⟩
    · intro r
      rw [h.ruleNames r]
      refine ⟨?_, hcovers.ruleNames r⟩
      rintro ⟨chain, spot, hfound, hfind⟩
      exact ⟨chain, spot, hsub chain spot hfound, hfind⟩

/-- What is settled by the occurrences that are found is settled by all of them just where it is
nothing or all of them agree to it. -/
theorem Settled.iff_agree (h : Settled found t known) :
    Settled expects t known ↔
      known = [] ∨ ∀ following, Occurs expects t following → following = known := by
  constructor
  · rintro (⟨-, hall⟩ | ⟨hempty, -⟩)
    · exact .inr hall
    · exact .inl hempty
  · intro hcase
    by_cases hall : ∀ following, Occurs expects t following → following = known
    · rcases h with ⟨hoccurs, -⟩ | ⟨-, first, second, hfirst, hsecond, hdiffer⟩
      · exact .inl ⟨hoccurs.mono hsub, hall⟩
      · have hsame := (hall first (hfirst.mono hsub)).trans (hall second (hsecond.mono hsub)).symm
        exact absurd hsame hdiffer
    · have hempty := hcase.resolve_right hall
      rcases h with ⟨hoccurs, -⟩ | ⟨-, first, second, hfirst, hsecond, hdiffer⟩
      · push Not at hall
        obtain ⟨other, hother, hne⟩ := hall
        exact .inr ⟨hempty, other, known, hother, hoccurs.mono hsub, hne⟩
      · exact .inr ⟨hempty, first, second, hfirst.mono hsub, hsecond.mono hsub, hdiffer⟩

end

end

namespace Walk

/-! ## The notes of a walk -/

/-- Makes the note that a way demands, as a part of a walk. -/
def offerAt (path : Path) (spot : Spot) : Step Unit :=
  modify fun s => { s with candidates := s.candidates.offer (chain path) spot }

theorem enclosing?_eq_outermost? (path : Path) : enclosing? path = outermost? (chain path) := rfl

theorem offerToken_eq (path : Path) (t : Terminal) (follow : List Element) :
    offerToken path t follow = offerAt path (.token t follow) := by
  funext s
  unfold offerToken offerEnclosing offerAt Candidates.offer
  rw [enclosing?_eq_outermost?]
  simp only [Spot.opens, List.append_nil]
  cases outermost? (chain path) with
  | some found => rfl
  | none =>
    dsimp only
    cases t.isIgnored <;> rfl

theorem offerEnclosing_eq (path : Path) :
    (do let _ ← offerEnclosing path : Step Unit) = offerAt path .ident := by
  funext s
  unfold offerEnclosing offerAt Candidates.offer
  rw [enclosing?_eq_outermost?]
  simp only [Spot.opens, List.append_nil]
  cases outermost? (chain path) with
  | some found => rfl
  | none => rfl

/-- At a name only the preferred rule around it is noted. -/
theorem offerEnclosing_return_eq (path : Path) :
    (do let _ ← offerEnclosing path; return ∅ : Step Positions) =
      (do offerAt path .ident; return ∅) := by
  rw [← offerEnclosing_eq]
  rfl

/-- A preferred rule, or one inside a preferred rule, is noted as a whole. -/
theorem offerHeld_eq (path : Path) (r : Rule)
    (hheld : (r.isPreferred || (enclosing? path).isSome) = true) :
    (do if !(← offerEnclosing path) then offerRule r (chain path) : Step Unit) =
      offerAt path (.rule r) := by
  funext s
  unfold offerEnclosing offerAt Candidates.offer
  rw [enclosing?_eq_outermost?] at hheld ⊢
  simp only [Spot.opens, outermost?_append]
  cases hout : outermost? (chain path) with
  | some found => rfl
  | none =>
    rw [hout] at hheld
    have hr : r.isPreferred = true := by simpa using hheld
    rw [outermost?_cons, if_pos hr]
    simp only [Option.none_or, Option.map_some, List.append_nil]
    rfl

theorem offerHeld_return_eq (path : Path) (r : Rule)
    (hheld : (r.isPreferred || (enclosing? path).isSome) = true) :
    (do
      if !(← offerEnclosing path) then offerRule r (chain path)
      return ∅ : Step Positions) = (do offerAt path (.rule r); return ∅) := by
  rw [← offerHeld_eq path r hheld, bind_assoc]
  refine bind_congr fun found => ?_
  cases found <;> rfl

end Walk

end SqlCompletion
