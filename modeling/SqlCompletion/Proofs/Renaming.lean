import Mathlib.Data.List.Forall2
import SqlCompletion.Proofs.LeftCorners
set_option autoImplicit false

/-!
# Any name will do

Where a grammar asks for names and never for the terminal `IDENTIFIER`, an identifier may be
exchanged for a name in back-ticks or for a keyword that is not reserved: what was derived is
derived again (`Derives.renamed`), and so is what was begun (`Reaches.renamed`). The same rules are
open, and the same is next.

A keyword may open further ways besides, so there are at least as many candidates behind it, and not
always the same (`Mysql.candidates_of_renamed`). That is said of the MySQL grammar at every version,
for any input and any place in it. The proof does not follow the two walks: what is collected is
exact for the partial derivations on both sides, and these are carried over.

So the walk behind the exchanged name must not run into the limit on open rules, and that is a
hypothesis. The walk behind the identifier may: what it has collected is backed by partial
derivations even then.

What must follow a terminal is not compared. A further way can make it less, as it is forced only
where all occurrences agree on it.
-/

namespace SqlCompletion

/-! ## Terminals of an element -/

namespace Element

mutual

/-- The terminals that the element asks for, in order, with repetitions. -/
def terminals : Element → List Terminal
  | token t => [t]
  | ident => []
  | rule _ => []
  | seq items => terminalsOf items
  | choice alternatives => terminalsOf alternatives
  | opt e => e.terminals
  | star e => e.terminals
  | plus e => e.terminals
  | since _ e => e.terminals
  | before _ e => e.terminals

/-- The terminals that some elements ask for. -/
def terminalsOf : List Element → List Terminal
  | [] => []
  | e :: es => e.terminals ++ terminalsOf es

end

theorem mem_terminalsOf {e : Element} {es : List Element} {t : Terminal} (he : e ∈ es)
    (ht : t ∈ e.terminals) : t ∈ terminalsOf es := by
  induction es with
  | nil => cases he
  | cons e' es ih =>
    rw [terminalsOf, List.mem_append]
    rcases List.mem_cons.1 he with rfl | he
    · exact .inl ht
    · exact .inr (ih he)

/-- Names are asked for as names, never as the terminal `IDENTIFIER`. -/
def TakesAnyName (e : Element) : Prop := .symbol .identifier ∉ e.terminals

section

variable {e : Element} {es : List Element}

theorem TakesAnyName.head (h : (seq (e :: es)).TakesAnyName) : e.TakesAnyName :=
  fun ht => h (List.mem_append_left _ ht)

theorem TakesAnyName.tail (h : (seq (e :: es)).TakesAnyName) : (seq es).TakesAnyName :=
  fun ht => h (List.mem_append_right _ ht)

theorem TakesAnyName.chosen (h : (choice es).TakesAnyName) (he : e ∈ es) : e.TakesAnyName :=
  fun ht => h (mem_terminalsOf he ht)

end

end Element

/-! ## Names for identifiers -/

/-- The second terminal may stand in the place of the first: it is the same, or any name in the
place of an identifier. -/
def Renames (t u : Terminal) : Prop := u = t ∨ t = .symbol .identifier ∧ u.isNameLike = true

/-- Some of the identifiers are exchanged for other names. -/
abbrev Renamed (w w' : List Terminal) : Prop := List.Forall₂ Renames w w'

theorem Renames.refl (t : Terminal) : Renames t t := .inl rfl

theorem Renames.isNameLike {t u : Terminal} (h : Renames t u) (ht : t.isNameLike = true) :
    u.isNameLike = true := by
  rcases h with rfl | ⟨-, hu⟩
  · exact ht
  · exact hu

theorem Renamed.refl (w : List Terminal) : Renamed w w :=
  List.forall₂_same.2 fun t _ => Renames.refl t

theorem Renamed.split {u w z : List Terminal} (h : Renamed (u ++ w) z) :
    ∃ u' w', z = u' ++ w' ∧ Renamed u u' ∧ Renamed w w' := by
  refine ⟨z.take u.length, z.drop u.length, (List.take_append_drop _ _).symm, ?_, ?_⟩
  · have htake := List.forall₂_take u.length h
    rwa [List.take_left] at htake
  · have hdrop := List.forall₂_drop u.length h
    rwa [List.drop_left] at hdrop

/-- One identifier is exchanged. -/
theorem renamed_set {w : List Terminal} {i : Nat} {t : Terminal}
    (hi : w[i]? = some (.symbol .identifier)) (ht : t.isNameLike = true) :
    Renamed w (w.set i t) := by
  induction w generalizing i with
  | nil => cases hi
  | cons x w ih =>
    cases i with
    | zero =>
      obtain rfl := Option.some.inj hi
      exact .cons (.inr ⟨rfl, ht⟩) (Renamed.refl w)
    | succ i => exact .cons (Renames.refl x) (ih hi)

namespace Grammar

variable {g : Grammar} {v : Version}

/-- No body asks for the terminal `IDENTIFIER`. -/
def TakesAnyNames (g : Grammar) : Prop := ∀ r body, g.body? r = some body → body.TakesAnyName

/-- What is derived is derived with other names too. -/
theorem Derives.renamed (hg : g.TakesAnyNames) {e : Element} {w w' : List Terminal}
    (h : Derives g v e w) (he : e.TakesAnyName) (hw : Renamed w w') : Derives g v e w' := by
  induction h generalizing w' with
  | token t =>
    cases hw with
    | cons ht hnil =>
      cases hnil
      rcases ht with rfl | ⟨rfl, -⟩
      · exact .token _
      · exact absurd List.mem_cons_self he
  | ident name =>
    cases hw with
    | cons ht hnil =>
      cases hnil
      exact .ident (ht.isNameLike name)
  | rule defined _ ih => exact .rule defined (ih (hg _ _ defined) hw)
  | seqNil =>
    cases hw
    exact .seqNil
  | seqCons _ _ ihHead ihTail =>
    obtain ⟨u', w', rfl, hu, hw⟩ := Renamed.split hw
    exact .seqCons (ihHead he.head hu) (ihTail he.tail hw)
  | choice chosen _ ih => exact .choice chosen (ih (he.chosen chosen) hw)
  | optNone e =>
    cases hw
    exact .optNone e
  | optSome _ ih => exact .optSome (ih he hw)
  | starNil e =>
    cases hw
    exact .starNil e
  | starCons _ _ ihHead ihTail =>
    obtain ⟨u', w', rfl, hu, hw⟩ := Renamed.split hw
    exact .starCons (ihHead he hu) (ihTail he hw)
  | plus _ _ ihHead ihTail =>
    obtain ⟨u', w', rfl, hu, hw⟩ := Renamed.split hw
    exact .plus (ihHead he hu) (ihTail he hw)
  | since gate _ ih => exact .since gate (ih he hw)
  | before gate _ ih => exact .before gate (ih he hw)

/-- What is begun is begun with other names too: the same rules are open and the same is next. -/
theorem Reaches.renamed (hg : g.TakesAnyNames) {e : Element} {follow : List Element}
    {w w' : List Terminal} {chain : List Rule} {spot : Spot}
    (h : Reaches g v e follow w chain spot) (he : e.TakesAnyName) (hw : Renamed w w') :
    Reaches g v e follow w' chain spot := by
  induction h generalizing w' with
  | token t follow =>
    cases hw
    exact .token t follow
  | ident follow =>
    cases hw
    exact .ident follow
  | call r follow =>
    cases hw
    exact .call r follow
  | enter defined _ ih => exact .enter defined (ih (hg _ _ defined) hw)
  | seqHead _ ih => exact .seqHead (ih he.head hw)
  | seqTail head _ ih =>
    obtain ⟨u', w', rfl, hu, hw⟩ := Renamed.split hw
    exact .seqTail (head.renamed hg he.head hu) (ih he.tail hw)
  | choice chosen _ ih => exact .choice chosen (ih (he.chosen chosen) hw)
  | opt _ ih => exact .opt (ih he hw)
  | star rounds _ ih =>
    obtain ⟨u', w', rfl, hu, hw⟩ := Renamed.split hw
    exact .star (rounds.renamed hg he hu) (ih he hw)
  | plus rounds _ ih =>
    obtain ⟨u', w', rfl, hu, hw⟩ := Renamed.split hw
    exact .plus (rounds.renamed hg he hu) (ih he hw)
  | since gate _ ih => exact .since gate (ih he hw)
  | before gate _ ih => exact .before gate (ih he hw)

theorem Expects.renamed (hg : g.TakesAnyNames) {w w' : List Terminal} {chain : List Rule}
    {spot : Spot} (h : g.Expects v w chain spot) (hw : Renamed w w') :
    g.Expects v w' chain spot :=
  Reaches.renamed hg h List.not_mem_nil hw

end Grammar

/-! ## Candidates behind another name -/

namespace Mysql

theorem takesAnyNames : grammar.TakesAnyNames := by
  intro r body hbody
  obtain rfl := Option.some.inj hbody
  have hall := Rule.forall_of_ofNat
    (p := fun r => !(Mysql.body r).terminals.contains (.symbol .identifier)) (by decide +kernel) r
  simpa [Element.TakesAnyName] using hall

theorem exact_of_depth {v : Version} {input : List Terminal}
    (hdepth : (Walk.run ⟨grammar, v, input.toArray⟩).2.cuts.depth = false) :
    Exact (grammar.Expects v input) (Walk.run ⟨grammar, v, input.toArray⟩).2.candidates := by
  have hways := Walk.run_answered (Walk.run_uncut (not_leftRecursive v) hdepth)
  have hanswered := Walk.answered_expects hways (not_skips v input)
  exact (Walk.run_backed_expects _).exact hanswered

/-- A name in back-ticks, or a keyword that is not reserved, leaves all the candidates that an
identifier in its place has, unless the walk behind it gets too deep. -/
theorem candidates_of_renamed (v : Version) (input : List Terminal) (i : Nat) (t : Terminal)
    (hi : input[i]? = some (.symbol .identifier)) (ht : t.isNameLike = true)
    (hdepth : (Walk.run ⟨grammar, v, (input.set i t).toArray⟩).2.cuts.depth = false) :
    (Walk.run ⟨grammar, v, input.toArray⟩).2.candidates.terminals ⊆
        (Walk.run ⟨grammar, v, (input.set i t).toArray⟩).2.candidates.terminals ∧
      (Walk.run ⟨grammar, v, input.toArray⟩).2.candidates.ruleNames ⊆
        (Walk.run ⟨grammar, v, (input.set i t).toArray⟩).2.candidates.ruleNames := by
  have hbacked : Backed (grammar.Expects v input) _ :=
    Walk.run_backed_expects ⟨grammar, v, input.toArray⟩
  have hexact := exact_of_depth hdepth
  have hrenamed : ∀ chain spot, grammar.Expects v input chain spot →
      grammar.Expects v (input.set i t) chain spot :=
    fun _ _ h => h.renamed takesAnyNames (renamed_set hi ht)
  constructor
  · intro x hx
    obtain ⟨hkept, following, hoccurs⟩ := hbacked.occurs hx
    exact (hexact.terminals x).2 ⟨hkept, following, hoccurs.mono hrenamed⟩
  · intro r hr
    exact (hexact.ruleNames r).2 ((hbacked.outermost hr).mono hrenamed)

/-- Behind `SELECT` and a name, `DATE` for the name leaves `FROM` and the others, and the rules
too. -/
theorem candidates_of_renamed_date :
    Terminal.isNameLike (.keyword .DATE) = true ∧
      (Walk.run ⟨grammar, .standard, #[.keyword .SELECT, .keyword .DATE]⟩).2.cuts.depth = false ∧
      .keyword .FROM ∈ (Walk.run ⟨grammar, .standard,
        #[.keyword .SELECT, .symbol .identifier]⟩).2.candidates.terminals ∧
      (Walk.run ⟨grammar, .standard,
          #[.keyword .SELECT, .symbol .identifier]⟩).2.candidates.terminals
        ⊆ (Walk.run ⟨grammar, .standard,
            #[.keyword .SELECT, .keyword .DATE]⟩).2.candidates.terminals ∧
      (Walk.run ⟨grammar, .standard,
          #[.keyword .SELECT, .symbol .identifier]⟩).2.candidates.ruleNames
        ⊆ (Walk.run ⟨grammar, .standard,
            #[.keyword .SELECT, .keyword .DATE]⟩).2.candidates.ruleNames := by
  have hdepth : (Walk.run ⟨grammar, .standard,
      #[.keyword .SELECT, .keyword .DATE]⟩).2.cuts.depth = false := by decide +kernel
  have hfrom : .keyword .FROM ∈ (Walk.run ⟨grammar, .standard,
      #[.keyword .SELECT, .symbol .identifier]⟩).2.candidates.terminals := by decide +kernel
  have hboth := candidates_of_renamed .standard [.keyword .SELECT, .symbol .identifier] 1
    (.keyword .DATE) rfl rfl hdepth
  exact ⟨rfl, hdepth, hfrom, hboth⟩

end Mysql

end SqlCompletion
