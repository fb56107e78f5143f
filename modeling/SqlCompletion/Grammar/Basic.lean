import SqlCompletion.Grammar.Element
set_option autoImplicit false

/-!
# Grammars

A grammar gives some of the rules a body and names the rule to start from. A grammar is closed
when every rule that it uses has a body.
-/

namespace SqlCompletion

/-- The rule to start from, and the bodies of the rules that are defined. -/
structure Grammar where
  entry : Rule
  body? : Rule → Option Element

namespace Grammar

/-- The grammar that defines no rule. -/
def empty (entry : Rule) : Grammar := ⟨entry, fun _ => none⟩

/-- Gives the rule a body, in place of the one that it may have had. -/
def define (g : Grammar) (r : Rule) (body : Element) : Grammar :=
  { g with body? := fun s => if s = r then some body else g.body? s }

/-- The grammar with these definitions made in order. -/
def ofDefinitions (entry : Rule) (definitions : List (Rule × Element)) : Grammar :=
  definitions.foldl (fun g d => g.define d.1 d.2) (empty entry)

/-- The rule has a body. -/
def defines (g : Grammar) (r : Rule) : Bool := (g.body? r).isSome

/-- The entry rule, and the rules that the bodies of the defined rules refer to. -/
def usedRules (g : Grammar) : List Rule :=
  g.entry :: Rule.all.flatMap fun r => (g.body? r).elim [] Element.rules

theorem entry_mem_usedRules (g : Grammar) : g.entry ∈ g.usedRules := List.mem_cons_self

theorem mem_usedRules_of_body? {g : Grammar} {r s : Rule} {body : Element}
    (hs : g.body? s = some body) (hr : r ∈ body.rules) : r ∈ g.usedRules := by
  refine List.mem_cons_of_mem _ (List.mem_flatMap.2 ⟨s, s.mem_all, ?_⟩)
  rw [hs]
  exact hr

/-- The rules that are used and not defined, in the order of their names. -/
def undefinedRules (g : Grammar) : List Rule :=
  let used := g.usedRules
  Rule.all.filter fun r => !g.defines r && used.contains r

theorem mem_undefinedRules_iff {g : Grammar} {r : Rule} :
    r ∈ g.undefinedRules ↔ g.body? r = none ∧ r ∈ g.usedRules := by
  simp [undefinedRules, defines, r.mem_all]

end Grammar

end SqlCompletion
