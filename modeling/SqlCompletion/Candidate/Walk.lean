import SqlCompletion.Candidate.Basic
import SqlCompletion.Candidate.Memo
import SqlCompletion.Grammar.Basic
set_option autoImplicit false

/-!
# Walking a grammar up to the caret

The walk follows every way in which the grammar can match the terminals in front of the caret.
Wherever a way arrives at the caret, what comes next on it is a candidate. Inside a preferred
rule that is the rule itself, with the chain of rules that were open when it was entered; outside
of them it is the terminal.

An element answers with the positions at which it can end. Three things cut a way off: too many
open rules, a rule that is entered again at the same position, and a rule without a body. The
walk notes which of them it has met.
-/

namespace SqlCompletion.Walk

/-- What does not change during a walk. -/
structure Setting where
  grammar : Grammar
  version : Version
  /-- The terminals in front of the caret. -/
  input : Array Terminal

/-- The position of the caret: behind the last terminal of the input. -/
def Setting.caret (s : Setting) : Nat := s.input.size

/-- A rule that is open, and where it was entered. -/
structure Frame where
  rule : Rule
  start : Nat
  deriving DecidableEq, Repr, Inhabited

/-- The open rules, innermost first. -/
abbrev Path := List Frame

/-- The names of the open rules, outermost first. -/
def chain (path : Path) : List Rule := (path.map Frame.rule).reverse

/-- The outermost open rule that is preferred, with the chain of rules around it. -/
def enclosing? (path : Path) : Option (Rule × List Rule) :=
  match (chain path).dropWhile (!·.isPreferred) with
  | [] => none
  | r :: _ => some (r, (chain path).takeWhile (!·.isPreferred))

/-- The most rules that may be open at once. -/
def maxDepth : Nat := 200

/-- What has cut ways off. -/
structure Cuts where
  /-- More rules than allowed would have been open. -/
  depth : Bool := false
  /-- A rule was entered again at the position where it is open. -/
  leftRecursion : Bool := false
  /-- A rule has no body. -/
  undefinedRule : Bool := false
  deriving DecidableEq, Repr, Inhabited

/-- What a walk gathers. -/
structure State where
  memo : Memo := .empty
  cuts : Cuts := {}
  candidates : Candidates := {}

/-- A part of a walk. -/
abbrev Step := StateM State

/-! ## Notes -/

/-- Notes a rule at the caret. -/
def offerRule (r : Rule) (rules : List Rule) : Step Unit :=
  modify fun s => { s with candidates := s.candidates.addRule r rules }

/-- Notes the outermost preferred rule that is open; the answer says whether there is one. -/
def offerEnclosing (path : Path) : Step Bool :=
  match enclosing? path with
  | some (r, around) => do
    offerRule r around
    return true
  | none => return false

/-- Notes a terminal at the caret, or the preferred rule around it. -/
def offerToken (path : Path) (t : Terminal) (follow : List Element) : Step Unit := do
  if !(← offerEnclosing path) && !t.isIgnored then
    modify fun s => { s with candidates := s.candidates.addToken t (followingTerminals follow) }

/-- Notes that a way was cut off; it ends nowhere. -/
def cutOff (note : Cuts → Cuts) : Step Positions := do
  modify fun s => { s with cuts := note s.cuts }
  return ∅

/-! ## Ways through an element -/

/-- The ends of all the ways that go on from some positions. -/
def fromEach (f : Nat → Step Positions) (starts : Positions) : Step Positions :=
  starts.toList.foldlM (fun ends p => return ends.union (← f p)) ∅

/-- The ends of all the ways that repeat a part. `reached` holds the ends so far, and `fresh`
those of them that have not been gone on from. -/
def repeated (f : Nat → Step Positions) : (fuel : Nat) → (reached fresh : Positions) →
    Step Positions
  | 0, reached, _ => return reached
  | fuel + 1, reached, fresh =>
    if fresh.isEmpty then return reached
    else do
      let next := (← fromEach f fresh).diff reached
      repeated f fuel (reached.union next) next

/-- Every repetition adds a position, and there are `caret + 1` of them. -/
def Setting.fuel (s : Setting) : Nat := s.caret + 2

section Elements

variable (c : Setting) (path : Path) (visit : Rule → Nat → Step Positions)

mutual

/-- The positions at which an element can end when it starts at `start`. The rules that it calls
are walked by `visit`; `follow` is what comes after it in its sequence. -/
def walk : Element → (start : Nat) → (follow : List Element) → Step Positions
  | .token t, start, follow => do
    if start = c.caret then
      offerToken path t follow
      return ∅
    else return if c.input[start]? = some t then .singleton (start + 1) else ∅
  | .ident, start, _ => do
    if start = c.caret then
      let _ ← offerEnclosing path
      return ∅
    else return if (c.input[start]?).any Terminal.isNameLike then .singleton (start + 1) else ∅
  | .rule r, start, _ => visit r start
  | .seq items, start, _ => walkSeq items (.singleton start)
  | .choice alternatives, start, follow =>
    walkChoice alternatives start
      (if (Element.choice alternatives).tokenSet?.isSome then follow else []) ∅
  | .opt e, start, _ => return (← walk e start []).insert start
  | .star e, start, _ =>
    repeated (fun p => walk e p []) c.fuel (.singleton start) (.singleton start)
  | .plus e, start, _ => do
    let first ← walk e start []
    repeated (fun p => walk e p []) c.fuel first first
  | .since v e, start, follow => if v ≤ c.version then walk e start follow else return ∅
  | .before v e, start, follow => if c.version < v then walk e start follow else return ∅

/-- The positions at which a sequence can end when it starts at some positions. -/
def walkSeq : List Element → (starts : Positions) → Step Positions
  | [], starts => return starts
  | e :: rest, starts =>
    if starts.isEmpty then return ∅
    else do walkSeq rest (← fromEach (fun p => walk e p rest) starts)

/-- The positions at which one of the alternatives can end, and those in `ends`. -/
def walkChoice : List Element → (start : Nat) → (follow : List Element) → (ends : Positions) →
    Step Positions
  | [], _, _, ends => return ends
  | e :: rest, start, follow, ends => do
    walkChoice rest start follow (ends.union (← walk e start follow))

end

end Elements

/-! ## Ways through a rule -/

/-- The positions at which a rule can end when it starts at `start`, with `room` for more open
rules. At the caret, a preferred rule, or one inside a preferred rule, is a candidate. -/
def walkRule (c : Setting) : (room : Nat) → Path → Rule → (start : Nat) → Step Positions
  | room, path, r, start => do
    if start = c.caret && (r.isPreferred || (enclosing? path).isSome) then
      if !(← offerEnclosing path) then offerRule r (chain path)
      return ∅
    else
      let key : MemoKey := ⟨r, start, (enclosing? path).map Prod.fst⟩
      match (← get).memo.find? key with
      | some ends => return ends
      | none =>
        match room with
        | 0 => cutOff fun cuts => { cuts with depth := true }
        | room + 1 =>
          if (⟨r, start⟩ : Frame) ∈ path then
            cutOff fun cuts => { cuts with leftRecursion := true }
          else
            match c.grammar.body? r with
            | none => cutOff fun cuts => { cuts with undefinedRule := true }
            | some body => do
              let inside := ⟨r, start⟩ :: path
              let ends ← walk c inside (walkRule c room inside) body start []
              modify fun s => { s with memo := s.memo.insert key ends }
              return ends

/-- The whole walk, from the entry rule at the start of the input. -/
def run (c : Setting) : Positions × State :=
  (walkRule c maxDepth [] c.grammar.entry 0).run {}

end SqlCompletion.Walk
