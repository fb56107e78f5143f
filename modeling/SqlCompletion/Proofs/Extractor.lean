import SqlCompletion.Proofs.TableCopies
import SqlCompletion.Proofs.TableOrigins
import SqlCompletion.Proofs.TableRecognition
import SqlCompletion.Proofs.Timed
set_option autoImplicit false

/-!
# Reading a clause in place

The readers of a clause are given the tokens that are left, and the number of them bounds how long
they go on. Here a clause is read in place (`extract`): by an index that is moved over its tokens
and a count of the groups that are open, which is raised in front of the inside of a group and
lowered behind it. A list goes on until a reference takes nothing, and a reader asks for tokens
behind the last one as well. Such a reading has an answer only if it ends within its time, which
every loop and every part inside another takes (`Method`). More time does not change an answer
(`extract_extends`).

The main result is `extract_orderly`. Whatever the tokens are, the reading ends, and with the tables
of the clause (`FromClause.tables`). Of all the places that it was at (`Extractor.trail`) none lies
in front of an earlier one, no more groups are open at any of them than may be, and none is open in
the end.

`Takes` says of a part of the reading that it ends with the tables of its reader and in front of the
tokens that the reader leaves; there is a lemma of that form for each reader, the last one for the
whole clause (`takes_extract`). `Onward` is what every move keeps. The time that is enough grows as
the number of tokens does: each token that is taken gives time for the four parts that may be inside
one another there. `Nested` ties the groups that may still be opened to the readers that there are
for their insides.

The time is not the least one. The clause is given as its tokens; where it ends in a text is not
told here.
-/

namespace SqlCompletion.FromClause

/-! ## Reading in place -/

/-- Where a clause is read: the index of the next token, and how many groups are open. -/
structure Place where
  index : Nat := 0
  depth : Nat := 0

/-- What a reading in place works on, with the places that it was at before. -/
structure Extractor where
  place : Place := {}
  trail : List Place := []
  references : List TableReference := []

/-- A part of a reading in place. There is no answer if its time is over. -/
abbrev Method := Timed Extractor

namespace Method

/-- Goes on from another place. -/
def goTo (f : Place → Place) : Method Unit :=
  modify fun m => { m with place := f m.place, trail := m.trail ++ [m.place] }

/-- Moves the index over some tokens. -/
def advance (n : Nat) : Method Unit := goTo fun p => { p with index := p.index + n }

/-- Goes into a group. -/
def enter : Method Unit := goTo fun p => { p with depth := p.depth + 1 }

/-- Goes out of a group. -/
def leave : Method Unit := goTo fun p => { p with depth := p.depth - 1 }

/-- Keeps a table that was read. -/
def add (table : TableReference) : Method Unit :=
  modify fun m => { m with references := m.references ++ [table] }

end Method

open Method (advance enter leave add)
open Timed (giveUp Extends extends_giveUp)

section

variable (tokens : List Token)

/-! ### Passing over tokens -/

/-- The token that far behind the next one. -/
def tokenAt (offset : Nat) : Method (Option Token) := do
  return tokens[(← get).place.index + offset]?

/-- The kind of that token; behind the last token the text has ended. -/
def kindAt (offset : Nat) : Method Terminal := do
  return ((← tokenAt tokens offset).map Token.kind).getD .eof

/-- Moves over the next token, if it is of that kind. -/
def accept (kind : Terminal) : Method Bool := do
  if (← kindAt tokens 0) = kind then do
    advance 1
    return true
  else return false

/-- Moves behind the token that closes the outermost of `depth` groups. -/
def skipToClose (opening closing : Symbol) : (time depth : Nat) → Method Unit
  | 0, _ => giveUp
  | _ + 1, 0 => return ()
  | time + 1, outer + 1 => do
    let kind ← kindAt tokens 0
    if kind = .eof then return ()
    else if kind = .symbol opening then do
      advance 1
      skipToClose opening closing time (outer + 2)
    else if kind = .symbol closing then do
      advance 1
      skipToClose opening closing time outer
    else do
      advance 1
      skipToClose opening closing time (outer + 1)

/-- Moves over a group in parentheses. -/
def skipParenthesized (time : Nat) : Method Unit := do
  if ← accept tokens (.symbol .openPar) then skipToClose tokens .openPar .closePar time 1
  else return ()

/-- Moves to the end of a join condition. -/
def skipCondition : (time depth : Nat) → Method Unit
  | 0, _ => giveUp
  | time + 1, depth => do
    let kind ← kindAt tokens 0
    if kind = .eof then return ()
    else if kind = .symbol .openPar then do
      advance 1
      skipCondition time (depth + 1)
    else if kind = .symbol .closePar then
      if depth = 0 then return ()
      else do
        advance 1
        skipCondition time (depth - 1)
    else if depth = 0 ∧
        (kind = .symbol .comma ∨ isJoinWord kind = true ∨ isClauseEnd kind = true) then
      return ()
    else do
      advance 1
      skipCondition time depth

/-- Moves over a join condition. -/
def skipJoinCondition (time : Nat) : Method Unit := do
  if ← accept tokens (.keyword .ON) then skipCondition tokens time 0
  else if ← accept tokens (.keyword .USING) then skipParenthesized tokens time
  else return ()

/-- Moves over the words that introduce a join. -/
def skipJoinWords : (time : Nat) → Method Bool
  | 0 => giveUp
  | time + 1 => do
    let kind ← kindAt tokens 0
    if kind = .keyword .JOIN ∨ kind = .keyword .STRAIGHT_JOIN ∨ kind = .eof then do
      advance 1
      return true
    else if isJoinWord kind then do
      advance 1
      skipJoinWords time
    else return false

/-- Moves over the mark of an outer join in braces. -/
def skipOuterJoinMark : Method Unit := do
  if (← tokenAt tokens 0).any isOuterJoinMark then advance 1 else return ()

/-- Moves over what an index hint is for. -/
def skipHintScope : Method Unit := do
  if ← accept tokens (.keyword .FOR) then
    if ← accept tokens (.keyword .JOIN) then return ()
    else do
      advance 1
      let _ ← accept tokens (.keyword .BY)
      return ()
  else return ()

/-- Moves over a comma that another index hint follows. -/
def skipHintComma : Method Unit := do
  if (← kindAt tokens 0) = .symbol .comma ∧ isHintWord (← kindAt tokens 1) = true then advance 1
  else return ()

/-- Moves over index hints. -/
def skipHints : (time : Nat) → Method Unit
  | 0 => giveUp
  | time + 1 => do
    if isHintWord (← kindAt tokens 0) && isIndexWord (← kindAt tokens 1) then do
      advance 2
      skipHintScope tokens
      skipParenthesized tokens time
      skipHintComma tokens
      skipHints time
    else return ()

/-- Moves over the partitions of a table. -/
def skipPartitions (time : Nat) : Method Unit := do
  if ← accept tokens (.keyword .PARTITION) then skipParenthesized tokens time else return ()

/-- Looks behind the opening parentheses whether a list of tables starts there. -/
def opensTables : (time offset : Nat) → Method Bool
  | 0, _ => giveUp
  | time + 1, offset => do
    let kind ← kindAt tokens offset
    if kind = .symbol .openPar then opensTables time (offset + 1)
    else return !isQueryWord kind

/-! ### Tables -/

/-- A token of that kind may be an alias; no word that a clause goes on or ends with is one. -/
def mayBeAlias (explicit : Bool) : Terminal → Bool
  | .symbol .singleQuotedText | .symbol .doubleQuotedText => explicit
  | kind => kind.isNameLike && !isClauseEnd kind && !isJoinWord kind

/-- Reads an alias. -/
def takeAlias : Method (Option NameAt) := do
  let explicit ← accept tokens (.keyword .AS)
  match ← tokenAt tokens 0 with
  | none => return none
  | some t =>
    if mayBeAlias explicit t.kind then do
      advance 1
      return some (aliasOf t)
    else return none

/-- Reads what follows the name of a table, and keeps the table. -/
def takeTable (time : Nat) (table : TableReference) : Method Unit := do
  skipPartitions tokens time
  let alias? ← takeAlias tokens
  skipHints tokens time
  add { table with alias? := alias? }

/-- Reads a table. -/
def takeName (time : Nat) : Method Unit := do
  match ← tokenAt tokens 0 with
  | none => return ()
  | some first => do
    advance 1
    if (← kindAt tokens 0) = .symbol .dot ∧ (← kindAt tokens 1).isNameLike = true then
      match ← tokenAt tokens 1 with
      | none => return ()
      | some table => do
        advance 2
        takeTable tokens time (.ofTable (nameOf table) (some (nameOf first)))
    else takeTable tokens time (.ofTable (nameOf first) none)

mutual

/-- Reads a list of tables. -/
def takeList : (time : Nat) → Method Unit
  | 0 => giveUp
  | time + 1 => do
    let before := (← get).place.index
    takeReference time
    takeMore time before

/-- Goes on with a list behind a comma, and behind a token that does not fit. The list is over where
nothing was taken since the index was `before`. -/
def takeMore : (time before : Nat) → Method Unit
  | 0, _ => giveUp
  | time + 1, before => do
    if ← accept tokens (.symbol .comma) then takeList time
    else if (← get).place.index = before ∨ isClauseEnd (← kindAt tokens 0) = true then return ()
    else do
      advance 1
      takeList time

/-- Reads a table with its joins, or a group in braces. -/
def takeReference : (time : Nat) → Method Unit
  | 0 => giveUp
  | time + 1 => do
    if (← kindAt tokens 0) = .symbol .openCurly then do
      advance 1
      if (← get).place.depth < maxNesting then do
        skipOuterJoinMark tokens
        enter
        takeReference time
        leave
        skipToClose tokens .openCurly .closeCurly time 1
      else skipToClose tokens .openCurly .closeCurly time 1
    else do
      takeFactor time
      takeJoins time

/-- Reads a single table, a derived table or a list in parentheses. -/
def takeFactor : (time : Nat) → Method Unit
  | 0 => giveUp
  | time + 1 => do
    let kind ← kindAt tokens 0
    if kind = .symbol .openPar then
      if ← opensTables tokens (time + 1) 0 then
        if maxNesting ≤ (← get).place.depth then skipParenthesized tokens time
        else do
          advance 1
          enter
          takeList time
          leave
          let _ ← accept tokens (.symbol .closePar)
          return ()
      else do
        skipParenthesized tokens time
        let _ ← takeAlias tokens
        return ()
    else if kind = .keyword .LATERAL then do
      advance 1
      skipParenthesized tokens time
      let _ ← takeAlias tokens
      return ()
    else if kind = .keyword .DUAL then advance 1
    else if kind.isNameLike then takeName tokens time
    else return ()

/-- Reads joins as long as they go on. -/
def takeJoins : (time : Nat) → Method Unit
  | 0 => giveUp
  | time + 1 => do
    if ← takeJoin time then takeJoins time else return ()

/-- Reads a join, if there is one. -/
def takeJoin : (time : Nat) → Method Bool
  | 0 => giveUp
  | time + 1 => do
    if isJoinWord (← kindAt tokens 0) then
      if ← skipJoinWords tokens (time + 1) then do
        takeFactor time
        skipJoinCondition tokens time
        return true
      else return false
    else return false

end

/-- Reads a clause. -/
def extract (time : Nat) : Method Unit := do
  let _ ← accept tokens (.keyword .FROM)
  takeList tokens time

end

/-! ## More time -/

section

variable (tokens : List Token)

theorem skipToClose_extends (opening closing : Symbol) : (time depth : Nat) →
    Extends (skipToClose tokens opening closing time depth)
      (skipToClose tokens opening closing (time + 1) depth)
  | 0, _ => extends_giveUp _
  | _ + 1, 0 => .refl _
  | time + 1, outer + 1 => by
    rw [skipToClose, skipToClose]
    refine .behind fun kind => .ite (.refl _) (.ite ?_ (.ite ?_ ?_))
    · exact .behind fun _ => skipToClose_extends opening closing time (outer + 2)
    · exact .behind fun _ => skipToClose_extends opening closing time outer
    · exact .behind fun _ => skipToClose_extends opening closing time (outer + 1)

theorem skipParenthesized_extends (time : Nat) :
    Extends (skipParenthesized tokens time) (skipParenthesized tokens (time + 1)) :=
  .behind fun _ => .ite (skipToClose_extends tokens _ _ time 1) (.refl _)

theorem skipCondition_extends : (time depth : Nat) →
    Extends (skipCondition tokens time depth) (skipCondition tokens (time + 1) depth)
  | 0, _ => extends_giveUp _
  | time + 1, depth => by
    rw [skipCondition, skipCondition]
    refine .behind fun kind => .ite (.refl _) (.ite ?_ (.ite (.ite (.refl _) ?_) ?_))
    · exact .behind fun _ => skipCondition_extends time (depth + 1)
    · exact .behind fun _ => skipCondition_extends time (depth - 1)
    · exact .ite (.refl _) (.behind fun _ => skipCondition_extends time depth)

theorem skipJoinCondition_extends (time : Nat) :
    Extends (skipJoinCondition tokens time) (skipJoinCondition tokens (time + 1)) :=
  .behind fun _ => .ite (skipCondition_extends tokens time 0)
    (.behind fun _ => .ite (skipParenthesized_extends tokens time) (.refl _))

theorem skipJoinWords_extends : (time : Nat) →
    Extends (skipJoinWords tokens time) (skipJoinWords tokens (time + 1))
  | 0 => extends_giveUp _
  | time + 1 => by
    rw [skipJoinWords, skipJoinWords]
    exact .behind fun kind => .ite (.refl _)
      (.ite (.behind fun _ => skipJoinWords_extends time) (.refl _))

theorem skipHints_extends : (time : Nat) →
    Extends (skipHints tokens time) (skipHints tokens (time + 1))
  | 0 => extends_giveUp _
  | time + 1 => by
    rw [skipHints, skipHints]
    refine .behind fun kind => .behind fun next => .ite (.behind fun _ => .behind fun _ => ?_)
      (.refl _)
    refine .bind (skipParenthesized_extends tokens time) fun _ => ?_
    exact .behind fun _ => skipHints_extends time

theorem opensTables_extends : (time offset : Nat) →
    Extends (opensTables tokens time offset) (opensTables tokens (time + 1) offset)
  | 0, _ => extends_giveUp _
  | time + 1, offset => by
    rw [opensTables, opensTables]
    exact .behind fun kind => .ite (opensTables_extends time (offset + 1)) (.refl _)

theorem takeTable_extends (time : Nat) (table : TableReference) :
    Extends (takeTable tokens time table) (takeTable tokens (time + 1) table) := by
  have hpartitions : Extends (skipPartitions tokens time) (skipPartitions tokens (time + 1)) :=
    .behind fun _ => .ite (skipParenthesized_extends tokens time) (.refl _)
  refine .bind hpartitions fun _ => .behind fun alias? => ?_
  exact .bind (skipHints_extends tokens time) fun _ => .refl _

theorem takeName_extends (time : Nat) :
    Extends (takeName tokens time) (takeName tokens (time + 1)) := by
  refine .behind fun token? => ?_
  cases token? with
  | none => exact .refl _
  | some first =>
    refine .behind fun _ => .behind fun kind => .behind fun next => .ite ?_ ?_
    · refine .behind fun table? => ?_
      cases table? with
      | none => exact .refl _
      | some table => exact .behind fun _ => takeTable_extends tokens time _
    · exact takeTable_extends tokens time _

mutual

theorem takeList_extends : (time : Nat) →
    Extends (takeList tokens time) (takeList tokens (time + 1))
  | 0 => extends_giveUp _
  | time + 1 => by
    rw [takeList, takeList]
    refine .behind fun m => .bind (takeReference_extends time) fun _ => ?_
    exact takeMore_extends time m.place.index

theorem takeMore_extends : (time before : Nat) →
    Extends (takeMore tokens time before) (takeMore tokens (time + 1) before)
  | 0, _ => extends_giveUp _
  | time + 1, before => by
    rw [takeMore, takeMore]
    refine .behind fun comma => .ite (takeList_extends time) (.behind fun m => ?_)
    exact .behind fun kind => .ite (.refl _) (.behind fun _ => takeList_extends time)

theorem takeReference_extends : (time : Nat) →
    Extends (takeReference tokens time) (takeReference tokens (time + 1))
  | 0 => extends_giveUp _
  | time + 1 => by
    have hclose := skipToClose_extends tokens .openCurly .closeCurly time 1
    rw [takeReference, takeReference]
    refine .behind fun kind => .ite (.behind fun _ => .behind fun m => .ite ?_ hclose) ?_
    · refine .behind fun _ => .behind fun _ => .bind (takeReference_extends time) fun _ => ?_
      exact .behind fun _ => hclose
    · exact .bind (takeFactor_extends time) fun _ => takeJoins_extends time

theorem takeFactor_extends : (time : Nat) →
    Extends (takeFactor tokens time) (takeFactor tokens (time + 1))
  | 0 => extends_giveUp _
  | time + 1 => by
    have hgroup := skipParenthesized_extends tokens time
    rw [takeFactor, takeFactor]
    refine .behind fun kind => .ite ?_ (.ite ?_ (.ite (.refl _) (.ite ?_ (.refl _))))
    · refine .bind (opensTables_extends tokens (time + 1) 0) fun opens => .ite ?_ ?_
      · refine .behind fun m => .ite hgroup (.behind fun _ => .behind fun _ => ?_)
        exact .bind (takeList_extends time) fun _ => .refl _
      · exact .bind hgroup fun _ => .refl _
    · exact .behind fun _ => .bind hgroup fun _ => .refl _
    · exact takeName_extends tokens time

theorem takeJoins_extends : (time : Nat) →
    Extends (takeJoins tokens time) (takeJoins tokens (time + 1))
  | 0 => extends_giveUp _
  | time + 1 => by
    rw [takeJoins, takeJoins]
    exact .bind (takeJoin_extends time) fun more => .ite (takeJoins_extends time) (.refl _)

theorem takeJoin_extends : (time : Nat) →
    Extends (takeJoin tokens time) (takeJoin tokens (time + 1))
  | 0 => extends_giveUp _
  | time + 1 => by
    rw [takeJoin, takeJoin]
    refine .behind fun kind => .ite ?_ (.refl _)
    refine .bind (skipJoinWords_extends tokens (time + 1)) fun flag => .ite ?_ (.refl _)
    refine .bind (takeFactor_extends time) fun _ => ?_
    exact .bind (skipJoinCondition_extends tokens time) fun _ => .refl _

end

theorem extract_extends (time : Nat) :
    Extends (extract tokens time) (extract tokens (time + 1)) :=
  .behind fun _ => takeList_extends tokens time

end

/-! ## Onward -/

/-- The places up to now. -/
def Extractor.places (m : Extractor) : List Place := m.trail ++ [m.place]

/-- The index has never moved back, and no more groups have been open than may be. -/
structure Extractor.Orderly (m : Extractor) : Prop where
  ordered : m.places.Pairwise fun p q => p.index ≤ q.index
  shallow : ∀ p ∈ m.places, p.depth ≤ maxNesting

/-- From one state to a later one, at which as many groups are open. -/
structure Onward (m m' : Extractor) : Prop where
  index : m.place.index ≤ m'.place.index
  depth : m'.place.depth = m.place.depth
  orderly : m.Orderly → m'.Orderly

section

variable {m m' m'' : Extractor} {p : Place}

theorem Onward.refl (m : Extractor) : Onward m m := ⟨Nat.le_refl _, rfl, id⟩

theorem Onward.trans (h : Onward m m') (h' : Onward m' m'') : Onward m m'' :=
  ⟨Nat.le_trans h.index h'.index, h'.depth.trans h.depth, fun hm => h'.orderly (h.orderly hm)⟩

/-- Going on to a place that is not further back, with no more groups open than may be. -/
theorem Extractor.Orderly.goTo (h : m.Orderly) (p : Place) (hindex : m.place.index ≤ p.index)
    (hdepth : p.depth ≤ maxNesting) (references : List TableReference) :
    (⟨p, m.trail ++ [m.place], references⟩ : Extractor).Orderly where
  ordered := by
    refine List.pairwise_append.2 ⟨h.ordered, List.pairwise_singleton _ p, fun q hq u hu => ?_⟩
    obtain rfl := List.mem_singleton.1 hu
    rcases List.mem_append.1 hq with htrail | hlast
    · refine Nat.le_trans ?_ hindex
      exact (List.pairwise_append.1 h.ordered).2.2 q htrail _ (List.mem_singleton_self _)
    · rwa [List.mem_singleton.1 hlast]
  shallow := by
    intro q hq
    rcases List.mem_append.1 hq with hq | hlast
    · exact h.shallow q hq
    · rwa [List.mem_singleton.1 hlast]

theorem Extractor.Orderly.depth_le (h : m.Orderly) : m.place.depth ≤ maxNesting :=
  h.shallow m.place (List.mem_append_right _ (List.mem_singleton_self _))

end

/-! ## Following the readers -/

section

variable {tokens : List Token}

/-- The tokens that are left. -/
def Extractor.left (tokens : List Token) (m : Extractor) : List Token := tokens.drop m.place.index

/-- From this state, the method ends with this answer. It finds these tables, and these tokens are
left behind it. -/
def Takes (tokens : List Token) (m : Extractor) {α : Type} (x : Method α) (a : α)
    (found : List TableReference) (rest : List Token) : Prop :=
  ∃ m', x.run m = some (a, m') ∧ Onward m m' ∧ m'.left tokens = rest ∧
    m'.references = m.references ++ found

variable {m : Extractor} {α β : Type} {x : Method α} {f : α → Method β} {a : α} {b : β}
  {left rest rest' : List Token} {found more : List TableReference}

theorem Takes.pure (hleft : m.left tokens = left) (a : α) :
    Takes tokens m (Pure.pure a) a [] left :=
  ⟨m, rfl, .refl m, hleft, (List.append_nil _).symm⟩

theorem Takes.bind_run (hx : Takes tokens m x a found rest)
    (hf : ∀ m', x.run m = some (a, m') → m'.left tokens = rest →
      m'.place.depth = m.place.depth → Takes tokens m' (f a) b more rest') :
    Takes tokens m (x >>= f) b (found ++ more) rest' := by
  obtain ⟨m', hrun, honward, hleft, hfound⟩ := hx
  obtain ⟨m'', hrun', honward', hleft', hmore⟩ := hf m' hrun hleft honward.depth
  refine ⟨m'', ?_, honward.trans honward', hleft', ?_⟩
  · rw [StateT.run_bind, hrun]
    exact hrun'
  · rw [hmore, hfound, List.append_assoc]

theorem Takes.bind (hx : Takes tokens m x a found rest)
    (hf : ∀ m', m'.left tokens = rest → m'.place.depth = m.place.depth →
      Takes tokens m' (f a) b more rest') :
    Takes tokens m (x >>= f) b (found ++ more) rest' :=
  hx.bind_run fun m' _ => hf m'

/-- What is behind a method that finds nothing. -/
theorem Takes.behind (hx : Takes tokens m x a [] rest)
    (hf : ∀ m', m'.left tokens = rest → m'.place.depth = m.place.depth →
      Takes tokens m' (f a) b more rest') : Takes tokens m (x >>= f) b more rest' :=
  hx.bind hf

/-- A method behind which nothing is found. -/
theorem Takes.before_run (hx : Takes tokens m x a found rest)
    (hf : ∀ m', x.run m = some (a, m') → m'.left tokens = rest →
      m'.place.depth = m.place.depth → Takes tokens m' (f a) b [] rest') :
    Takes tokens m (x >>= f) b found rest' :=
  List.append_nil found ▸ hx.bind_run hf

/-- Looking at what is there. -/
theorem Takes.of_look (hx : x.run m = some (a, m)) (hf : Takes tokens m (f a) b found rest) :
    Takes tokens m (x >>= f) b found rest := by
  obtain ⟨m', hrun, hrest⟩ := hf
  refine ⟨m', ?_, hrest⟩
  rw [StateT.run_bind, hx]
  exact hrun

theorem run_tokenAt (hleft : m.left tokens = left) (offset : Nat) :
    (tokenAt tokens offset).run m = some (left[offset]?, m) := by
  rw [← hleft, Extractor.left, List.getElem?_drop]
  rfl

theorem run_kindAt (hleft : m.left tokens = left) (offset : Nat) :
    (kindAt tokens offset).run m = some (headKind (left.drop offset), m) := by
  have hhead : headKind (left.drop offset) =
      (left[offset]?.map Token.kind).getD (.eof) := by
    rw [← List.head?_drop]
    cases left.drop offset <;> rfl
  rw [kindAt, StateT.run_bind, run_tokenAt hleft, hhead]
  rfl

theorem run_kindAt_bind {f : Terminal → Method β} (hleft : m.left tokens = left) :
    (kindAt tokens 0 >>= f).run m = (f (headKind left)).run m := by
  rw [StateT.run_bind, run_kindAt hleft]
  rfl

theorem Takes.of_kind {t : Token} {behind : List Token} {f : Terminal → Method β}
    (hleft : m.left tokens = t :: behind) (h : Takes tokens m (f t.kind) b found rest) :
    Takes tokens m (kindAt tokens 0 >>= f) b found rest :=
  .of_look (run_kindAt hleft 0) h

theorem Takes.of_end {f : Terminal → Method β} (hleft : m.left tokens = [])
    (h : Takes tokens m (f .eof) b found rest) :
    Takes tokens m (kindAt tokens 0 >>= f) b found rest :=
  .of_look (run_kindAt hleft 0) h

theorem takes_advance (hleft : m.left tokens = left) (n : Nat) :
    Takes tokens m (advance n) () [] (left.drop n) := by
  refine ⟨_, rfl, ⟨Nat.le_add_right _ n, rfl, fun hm => ?_⟩, ?_, (List.append_nil _).symm⟩
  · exact hm.goTo ⟨m.place.index + n, m.place.depth⟩ (Nat.le_add_right _ n) hm.depth_le _
  · rw [← hleft, Extractor.left, Extractor.left, List.drop_drop]

theorem takes_add (hleft : m.left tokens = left) (table : TableReference) :
    Takes tokens m (add table) () [table] left :=
  ⟨_, rfl, ⟨Nat.le_refl _, rfl, fun hm => ⟨hm.ordered, hm.shallow⟩⟩, hleft, rfl⟩

/-- The inside of a group is read with one more group open. -/
theorem Takes.enclosed {x : Method Unit} {y : Method β} (hdepth : m.place.depth < maxNesting)
    (hleft : m.left tokens = left)
    (hx : ∀ m', m'.left tokens = left → m'.place.depth = m.place.depth + 1 →
      Takes tokens m' x () found rest)
    (hy : ∀ m', m'.left tokens = rest → m'.place.depth = m.place.depth →
      Takes tokens m' y b [] rest') :
    Takes tokens m (do enter; x; leave; y) b found rest' := by
  obtain ⟨inner, hrun, honward, hrest, hfound⟩ :=
    hx ⟨⟨m.place.index, m.place.depth + 1⟩, m.trail ++ [m.place], m.references⟩ hleft rfl
  have hback : inner.place.depth - 1 = m.place.depth := by
    rw [honward.depth]
    rfl
  obtain ⟨m', hrun', honward', hleft', hmore⟩ :=
    hy ⟨⟨inner.place.index, inner.place.depth - 1⟩, inner.trail ++ [inner.place], inner.references⟩
      hrest hback
  refine ⟨m', ?_, ⟨Nat.le_trans honward.index honward'.index, honward'.depth.trans hback, ?_⟩,
    hleft', ?_⟩
  · show (x >>= fun _ => leave >>= fun _ => y).run
      ⟨⟨m.place.index, m.place.depth + 1⟩, m.trail ++ [m.place], m.references⟩ = _
    rw [StateT.run_bind, hrun]
    exact hrun'
  · intro hm
    have hinner := honward.orderly
      (hm.goTo ⟨m.place.index, m.place.depth + 1⟩ (Nat.le_refl _) hdepth _)
    refine honward'.orderly (hinner.goTo ⟨inner.place.index, inner.place.depth - 1⟩ (Nat.le_refl _)
      (Nat.le_trans (Nat.sub_le _ 1) hinner.depth_le) _)
  · rw [hmore, hfound, List.append_nil]

/-! ## Passing over tokens -/

theorem run_accept_of_not (hleft : m.left tokens = left) {kind : Terminal}
    (h : headKind left ≠ kind) : (accept tokens kind).run m = some (false, m) := by
  rw [accept, run_kindAt_bind hleft, if_neg h]
  rfl

theorem takes_accept (hleft : m.left tokens = left) {kind : Terminal} (hkind : kind ≠ .eof) :
    Takes tokens m (accept tokens kind) (decide (headKind left = kind)) []
      (passOver kind left) := by
  by_cases h : headKind left = kind
  · cases left with
    | nil => exact absurd h.symm hkind
    | cons t behind =>
      have ht : t.kind = kind := h
      refine .of_kind hleft ?_
      rw [decide_eq_true h, if_pos ht, passOver, if_pos ht]
      exact (takes_advance hleft 1).behind fun m' hleft' _ => .pure hleft' true
  · have hpass : passOver kind left = left := by
      cases left with
      | nil => rfl
      | cons t behind => exact if_neg h
    rw [decide_eq_false h, hpass]
    exact ⟨m, run_accept_of_not hleft h, .refl m, hleft, (List.append_nil _).symm⟩

/-- The ways on behind a token that may be there. -/
theorem Takes.of_accept {kind : Terminal} {x y : Method β} (hleft : m.left tokens = left)
    (hkind : kind ≠ .eof)
    (hx : ∀ t behind, left = t :: behind → t.kind = kind → ∀ m', m'.left tokens = behind →
      m'.place.depth = m.place.depth → Takes tokens m' x b found rest)
    (hy : headKind left ≠ kind → Takes tokens m y b found rest) :
    Takes tokens m (do if ← accept tokens kind then x else y) b found rest := by
  by_cases h : headKind left = kind
  · have haccept := takes_accept hleft hkind
    rw [decide_eq_true h] at haccept
    refine haccept.behind fun m' hleft' hdepth => ?_
    cases left with
    | nil => exact absurd h.symm hkind
    | cons t behind => exact hx t behind rfl h m' (hleft'.trans (if_pos h)) hdepth
  · exact .of_look (run_accept_of_not hleft h) (hy h)

theorem takes_skipToClose (opening closing : Symbol) (hleft : m.left tokens = left) {time : Nat}
    (htime : left.length < time) (depth : Nat) :
    Takes tokens m (skipToClose tokens opening closing time (depth + 1)) () []
      (passGroup opening closing depth left) := by
  induction time generalizing m left depth with
  | zero => exact absurd htime (Nat.not_lt_zero _)
  | succ time ih =>
    rw [skipToClose]
    unfold passGroup
    cases left with
    | nil => exact .of_end hleft (.pure hleft ())
    | cons t rest =>
      have htime : rest.length < time := Nat.lt_of_succ_lt_succ htime
      refine .of_kind hleft ?_
      dsimp only
      split
      · exact .pure hleft ()
      · split
        · exact (takes_advance hleft 1).behind fun m' hleft' _ => ih hleft' htime (depth + 1)
        · split
          · refine (takes_advance hleft 1).behind fun m' hleft' _ => ?_
            cases depth with
            | zero =>
              obtain ⟨time, rfl⟩ := Nat.exists_eq_add_of_le' (Nat.zero_lt_of_lt htime)
              rw [skipToClose]
              exact .pure hleft' ()
            | succ outer => exact ih hleft' htime outer
          · exact (takes_advance hleft 1).behind fun m' hleft' _ => ih hleft' htime depth

theorem takes_skipParenthesized (hleft : m.left tokens = left) {time : Nat}
    (htime : left.length < time) :
    Takes tokens m (skipParenthesized tokens time) () [] (passParenthesized left) := by
  refine .of_accept hleft (by decide) (fun t behind hcons ht m' hleft' _ => ?_) fun hnot => ?_
  · subst hcons
    rw [passParenthesized, if_pos ht]
    exact takes_skipToClose _ _ hleft' (Nat.lt_of_succ_lt htime) 0
  · have hpass : passParenthesized left = left := by
      cases left with
      | nil => rfl
      | cons t behind => exact if_neg hnot
    rw [hpass]
    exact .pure hleft ()

theorem takes_skipCondition (hleft : m.left tokens = left) {time : Nat}
    (htime : left.length < time) (depth : Nat) :
    Takes tokens m (skipCondition tokens time depth) () [] (passCondition depth left) := by
  induction time generalizing m left depth with
  | zero => exact absurd htime (Nat.not_lt_zero _)
  | succ time ih =>
    rw [skipCondition]
    unfold passCondition
    cases left with
    | nil => exact .of_end hleft (.pure hleft ())
    | cons t rest =>
      have htime : rest.length < time := Nat.lt_of_succ_lt_succ htime
      refine .of_kind hleft ?_
      dsimp only
      split
      · exact .pure hleft ()
      · split
        · exact (takes_advance hleft 1).behind fun m' hleft' _ => ih hleft' htime (depth + 1)
        · split
          · cases depth with
            | zero => exact .pure hleft ()
            | succ outer =>
              exact (takes_advance hleft 1).behind fun m' hleft' _ => ih hleft' htime outer
          · split
            · exact .pure hleft ()
            · exact (takes_advance hleft 1).behind fun m' hleft' _ => ih hleft' htime depth

theorem takes_skipJoinCondition (hleft : m.left tokens = left) {time : Nat}
    (htime : left.length < time) :
    Takes tokens m (skipJoinCondition tokens time) () [] (passJoinCondition left) := by
  refine .of_accept hleft (by decide) (fun t behind hcons ht m' hleft' _ => ?_)
    fun hon => .of_accept hleft (by decide) (fun t behind hcons ht m' hleft' _ => ?_)
      fun husing => ?_
  · subst hcons
    rw [passJoinCondition, if_pos ht]
    exact takes_skipCondition hleft' (Nat.lt_of_succ_lt htime) 0
  · subst hcons
    rw [passJoinCondition, if_neg (show t.kind ≠ _ from hon), if_pos ht]
    exact takes_skipParenthesized hleft' (Nat.lt_of_succ_lt htime)
  · rw [passJoinCondition_of_not hon husing]
    exact .pure hleft ()

theorem takes_skipOuterJoinMark (hleft : m.left tokens = left) :
    Takes tokens m (skipOuterJoinMark tokens) () [] (passOuterJoinMark left) := by
  refine .of_look (run_tokenAt hleft 0) ?_
  cases left with
  | nil => exact .pure hleft ()
  | cons t behind =>
    rw [passOuterJoinMark]
    show Takes tokens m (if isOuterJoinMark t = true then _ else _) () [] _
    split
    · exact takes_advance hleft 1
    · exact .pure hleft ()

theorem takes_skipJoinWords (hleft : m.left tokens = left) {time : Nat}
    (htime : left.length < time) :
    Takes tokens m (skipJoinWords tokens time) (passJoinWords left).1 []
      (passJoinWords left).2 := by
  induction time generalizing m left with
  | zero => exact absurd htime (Nat.not_lt_zero _)
  | succ time ih =>
    rw [skipJoinWords]
    cases left with
    | nil =>
      refine .of_end hleft ?_
      rw [if_pos (.inr (.inr rfl))]
      exact (takes_advance hleft 1).behind fun m' hleft' _ => .pure hleft' true
    | cons t rest =>
      rw [passJoinWords]
      refine .of_kind hleft ?_
      split
      · exact (takes_advance hleft 1).behind fun m' hleft' _ => .pure hleft' true
      · split
        · exact (takes_advance hleft 1).behind fun m' hleft' _ =>
            ih hleft' (Nat.lt_of_succ_lt_succ htime)
        · exact .pure hleft false

/-! ## Single tables -/

/-- No word that a clause goes on or ends with could be a name. -/
theorem mayBeAlias_eq (explicit : Bool) (kind : Terminal) :
    mayBeAlias explicit kind = isAlias explicit kind := by
  unfold mayBeAlias isAlias
  split
  · rfl
  · rfl
  · cases hend : isClauseEnd kind with
    | true => simp [isNameLike_of_endsFactor (endsFactor_of_isClauseEnd hend)]
    | false =>
      cases hjoin : isJoinWord kind with
      | true => simp [isNameLike_of_endsFactor (endsFactor_of_isJoinWord hjoin)]
      | false => simp

theorem takes_takeAlias (hleft : m.left tokens = left) :
    Takes tokens m (takeAlias tokens) (readAlias left).1 [] (readAlias left).2 := by
  refine (takes_accept hleft (by decide)).behind fun m' hleft' _ => ?_
  refine .of_look (run_tokenAt hleft' 0) ?_
  unfold readAlias
  dsimp only
  rw [show (headKind left == Terminal.keyword .AS) = decide (headKind left = .keyword .AS) from rfl]
  cases hbehind : passOver (.keyword .AS) left with
  | nil => exact .pure (hleft'.trans hbehind) none
  | cons t rest =>
    rw [hbehind] at hleft'
    dsimp only
    rw [← mayBeAlias_eq]
    show Takes tokens m' (if mayBeAlias _ t.kind = true then _ else _) _ _ _
    split
    · exact (takes_advance hleft' 1).behind fun m'' hleft'' _ => .pure hleft'' _
    · exact .pure hleft' none

theorem takes_skipHintScope (hleft : m.left tokens = left) :
    Takes tokens m (skipHintScope tokens) () [] (passHintScope left) := by
  refine .of_accept hleft (by decide) (fun t behind hcons ht m' hleft' _ => ?_)
    fun hnot => ?_
  · subst hcons
    unfold passHintScope
    dsimp only
    rw [if_pos ht]
    refine .of_accept hleft' (by decide) (fun u tail hcons hu m'' hleft'' _ => ?_)
      fun hjoin => ?_
    · subst hcons
      exact .pure (hleft''.trans (if_pos hu).symm) ()
    · refine (takes_advance hleft' 1).behind fun m₂ hleft₂ _ => ?_
      refine (takes_accept hleft₂ (by decide)).behind fun m₃ hleft₃ _ => ?_
      cases behind with
      | nil => exact .pure hleft₃ ()
      | cons u tail => exact .pure (hleft₃.trans (if_neg hjoin).symm) ()
  · have hpass : passHintScope left = left := by
      cases left with
      | nil => rfl
      | cons t behind => exact if_neg hnot
    rw [hpass]
    exact .pure hleft ()

theorem takes_skipHintComma (hleft : m.left tokens = left) :
    Takes tokens m (skipHintComma tokens) () [] (passHintComma left) := by
  refine .of_look (run_kindAt hleft 0) (.of_look (run_kindAt hleft 1) ?_)
  match left with
  | [] => exact .pure hleft ()
  | [t] =>
    rw [if_neg fun h => nomatch h.2]
    exact .pure hleft ()
  | t :: u :: rest =>
    rw [passHintComma]
    show Takes tokens m (if t.kind = _ ∧ isHintWord u.kind = true then _ else _) () [] _
    split
    · exact takes_advance hleft 1
    · exact .pure hleft ()

theorem takes_skipHints (fuel : Nat) (hleft : m.left tokens = left) (hfuel : left.length ≤ fuel)
    {time : Nat} (htime : left.length < time) :
    Takes tokens m (skipHints tokens time) () [] (passHints fuel left) := by
  obtain ⟨time, rfl⟩ := Nat.exists_eq_add_of_le' (Nat.zero_lt_of_lt htime)
  induction fuel generalizing m left time with
  | zero =>
    obtain rfl := List.length_eq_zero_iff.1 (Nat.le_zero.1 hfuel)
    rw [skipHints]
    exact .of_look (run_kindAt hleft 0) (.of_look (run_kindAt hleft 1) (.pure hleft ()))
  | succ fuel ih =>
    rw [skipHints]
    refine .of_look (run_kindAt hleft 0) (.of_look (run_kindAt hleft 1) ?_)
    match left with
    | [] => exact .pure hleft ()
    | [t] =>
      show Takes tokens m (if (isHintWord t.kind && false) = true then _ else _) () [] _
      rw [Bool.and_false]
      exact .pure hleft ()
    | t :: u :: rest =>
      rw [List.length_cons, List.length_cons] at hfuel htime
      rw [passHints]
      show Takes tokens m
        (if (isHintWord t.kind && isIndexWord u.kind) = true then _ else _) () [] _
      split
      · have hscope := (passHintScope_suffix rest).length_le
        have hless := ((passHintComma_suffix _).trans
          (passParenthesized_suffix (passHintScope rest))).length_le
        obtain ⟨time, rfl⟩ := Nat.exists_eq_add_of_le' (show 0 < time by omega)
        refine (takes_advance hleft 2).behind fun m₁ hleft₁ _ => ?_
        refine (takes_skipHintScope hleft₁).behind fun m₂ hleft₂ _ => ?_
        refine (takes_skipParenthesized hleft₂ ?_).behind fun m₃ hleft₃ _ => ?_
        · show (passHintScope rest).length < time + 1
          omega
        · exact (takes_skipHintComma hleft₃).behind fun m₄ hleft₄ _ =>
            ih hleft₄ (Nat.le_trans hless (by omega)) time (Nat.lt_of_le_of_lt hless (by omega))
      · exact .pure hleft ()

theorem takes_skipPartitions (hleft : m.left tokens = left) {time : Nat}
    (htime : left.length < time) :
    Takes tokens m (skipPartitions tokens time) () []
      (if headKind left = .keyword .PARTITION then passParenthesized (left.drop 1) else left) := by
  refine .of_accept hleft (by decide) (fun t behind hcons ht m' hleft' _ => ?_) fun hnot => ?_
  · subst hcons
    rw [if_pos (show headKind (t :: behind) = _ from ht)]
    exact takes_skipParenthesized hleft' (Nat.lt_of_succ_lt htime)
  · rw [if_neg hnot]
    exact .pure hleft ()

theorem takes_takeTable {bound time : Nat} (table : TableReference)
    (hleft : m.left tokens = left) (hbound : left.length ≤ bound) (htime : left.length < time) :
    Takes tokens m (takeTable tokens time table) () (finishTable bound table left).tables
      (finishTable bound table left).rest := by
  have hless := ((readAlias_suffix _).trans (passPartitions_suffix left)).length_le
  refine (takes_skipPartitions hleft htime).behind fun m₁ hleft₁ _ => ?_
  refine (takes_takeAlias hleft₁).behind fun m₂ hleft₂ _ => ?_
  refine (takes_skipHints bound hleft₂ (by omega) (by omega)).behind fun m₃ hleft₃ _ => ?_
  exact takes_add hleft₃ _

theorem takes_takeName {bound time : Nat} {t : Token} {rest : List Token}
    (hleft : m.left tokens = t :: rest) (hbound : rest.length ≤ bound)
    (htime : rest.length < time) :
    Takes tokens m (takeName tokens time) () (readTable bound t rest).tables
      (readTable bound t rest).rest := by
  refine .of_look (run_tokenAt hleft 0) ?_
  refine (takes_advance hleft 1).behind fun m₁ hleft₁ _ => ?_
  rw [List.drop_one, List.tail_cons] at hleft₁
  refine .of_look (run_kindAt hleft₁ 0) (.of_look (run_kindAt hleft₁ 1) ?_)
  match rest with
  | [] => exact takes_takeTable _ hleft₁ hbound htime
  | [u] =>
    rw [if_neg fun h => nomatch h.2]
    exact takes_takeTable _ hleft₁ hbound htime
  | point :: table :: rest =>
    rw [readTable]
    show Takes tokens m₁ (if point.kind = .symbol .dot ∧ table.kind.isNameLike = true then _ else _)
      () _ _
    split
    · rw [List.length_cons, List.length_cons] at hbound htime
      refine .of_look (run_tokenAt hleft₁ 1) ?_
      refine (takes_advance hleft₁ 2).behind fun m₂ hleft₂ _ => ?_
      have hleft₂ : m₂.left tokens = rest := hleft₂
      exact takes_takeTable _ hleft₂ (by omega) (by omega)
    · exact takes_takeTable _ hleft₁ hbound htime

/-- Looking behind the opening parentheses. -/
theorem run_opensTables (hleft : m.left tokens = left) {time : Nat} (offset : Nat)
    (htime : (left.drop offset).length < time) :
    (opensTables tokens time offset).run m = some (!startsQuery (left.drop offset), m) := by
  induction time generalizing offset with
  | zero => exact absurd htime (Nat.not_lt_zero _)
  | succ time ih =>
    rw [opensTables, StateT.run_bind, run_kindAt hleft]
    cases hbehind : left.drop offset with
    | nil => rfl
    | cons t behind =>
      have hnext : left.drop (offset + 1) = behind := by
        rw [← List.drop_drop, hbehind, List.drop_one, List.tail_cons]
      show (if t.kind = .symbol .openPar then opensTables tokens time (offset + 1)
        else return !isQueryWord t.kind : Method Bool).run m = _
      split
      · rename_i hopen
        rw [startsQuery_cons_open hopen, ← hnext]
        refine ih (offset + 1) ?_
        rw [hnext]
        rw [hbehind] at htime
        exact Nat.lt_of_succ_lt_succ htime
      · rename_i hword
        rw [startsQuery_cons_word hword]
        rfl

end

/-! ## Progress -/

section

variable {bound : Nat} {inner? : Option Inner} {t : Token}

/-- A factor takes the token that it starts with. -/
theorem factor_suffix (hsound : ∀ inner ∈ inner?, inner.Sound)
    (ht : startsFactor t.kind = true) (rest : List Token) :
    (factor bound inner? (t :: rest)).rest <:+ rest := by
  unfold factor
  dsimp only
  split
  · rename_i hopen
    have hpass : passParenthesized (t :: rest) <:+ rest := by
      rw [passParenthesized, if_pos hopen]
      exact passGroup_suffix _ _ 0 rest
    split
    · exact (readAlias_suffix _).trans hpass
    · cases inner? with
      | none => exact hpass
      | some inner => exact (passOver_suffix _ _).trans ((hsound inner rfl).list rest).rest
  · split
    · exact (readAlias_suffix _).trans (passParenthesized_suffix rest)
    · split
      · exact List.suffix_rfl
      · split
        · exact readTable_suffix bound t rest
        · simp_all [startsFactor]

/-- Joins take the word that they start with. -/
theorem joins_suffix (hsound : ∀ inner ∈ inner?, inner.Sound) (ht : isJoinWord t.kind = true)
    (fuel : Nat) (rest : List Token) :
    (joins bound inner? (fuel + 1) (t :: rest)).rest <:+ rest := by
  have hwords : (passJoinWords (t :: rest)).2 <:+ rest := by
    rw [passJoinWords, if_pos ht]
    split
    · exact List.suffix_rfl
    · exact passJoinWords_suffix rest
  have hword : isJoinWord (headKind (t :: rest)) = true := ht
  cases hpass : passJoinWords (t :: rest) with
  | mk flag behind =>
    rw [hpass] at hwords
    cases flag with
    | false =>
      rw [joins, if_pos hword, hpass]
      exact hwords
    | true =>
      have hmore := (reads_passedOn bound).joins (fun inner h => (hsound inner h).list) fuel
        (passJoinCondition (factor bound inner? behind).rest)
      rw [joins_succ hword hpass]
      exact ((hmore.rest.trans (passJoinCondition_suffix _)).trans
        (factor_reads bound hsound behind).rest).trans hwords

theorem startsReference_iff {kind : Terminal} : startsReference kind = true ↔
    kind = .symbol .openCurly ∨ startsFactor kind = true ∨ isJoinWord kind = true := by
  simp [startsReference, startsFactor, or_assoc]

/-- A reference takes the token that it starts with. -/
theorem reference_suffix (hsound : ∀ inner ∈ inner?, inner.Sound) (hbound : 0 < bound)
    (ht : startsReference t.kind = true) (rest : List Token) :
    (reference bound inner? (t :: rest)).rest <:+ rest := by
  obtain ⟨fuel, rfl⟩ := Nat.exists_eq_add_of_le' hbound
  unfold reference
  split
  · exact ((reads_passedOn (fuel + 1)).braces (fun inner h => (hsound inner h).reference) rest).rest
  · rename_i hbrace
    rcases (startsReference_iff.1 ht).resolve_left hbrace with hfactor | hword
    · have hmore := (reads_passedOn (fuel + 1)).joins (fun inner h => (hsound inner h).list)
        (fuel + 1) (factor (fuel + 1) inner? (t :: rest)).rest
      exact hmore.rest.trans (factor_suffix hsound hfactor rest)
    · have hfirst : factor (fuel + 1) inner? (t :: rest) = ⟨[], t :: rest⟩ :=
        factor_of_isJoinWord hword
      rw [hfirst]
      exact joins_suffix hsound hword fuel rest

theorem startsFactor_eq_false {kind : Terminal} (h : startsFactor kind = false) :
    kind ≠ .symbol .openPar ∧ kind ≠ .keyword .LATERAL ∧ kind ≠ .keyword .DUAL ∧
      ¬kind.isNameLike = true := by
  simpa [startsFactor, and_assoc] using h

theorem startsReference_eq_false {kind : Terminal} (h : startsReference kind = false) :
    kind ≠ .symbol .openCurly ∧ startsFactor kind = false ∧ isJoinWord kind = false := by
  have hnot := mt startsReference_iff.2 (Bool.eq_false_iff.1 h)
  simpa using hnot

end

/-! ## Groups, joins and lists

A token that is taken gives time for four parts inside one another: a list, a reference in it, the
joins of the reference, and one of them. -/

section

variable {tokens : List Token} {m : Extractor} {left : List Token} {bound time : Nat}
  {inner? : Option Inner}

/-- With so many groups open, the inside of a group is read as by the readers for it, and it is
passed over only if no more groups may be open. -/
structure Nested (tokens : List Token) (bound depth : Nat) (inner? : Option Inner) : Prop where
  room : depth < maxNesting ↔ inner?.isSome = true
  sound : ∀ inner ∈ inner?, inner.Sound
  list : ∀ inner ∈ inner?, ∀ (m : Extractor) (left : List Token) (time : Nat),
    m.left tokens = left → m.place.depth = depth + 1 → left.length < bound →
      4 * left.length + 3 < time →
        Takes tokens m (takeList tokens time) () (inner.list left).tables (inner.list left).rest
  reference : ∀ inner ∈ inner?, ∀ (m : Extractor) (left : List Token) (time : Nat),
    m.left tokens = left → m.place.depth = depth + 1 → left.length < bound →
      4 * left.length + 2 < time →
        Takes tokens m (takeReference tokens time) () (inner.reference left).tables
          (inner.reference left).rest

/-- A derived table names no table. -/
theorem takes_derived (hleft : m.left tokens = left) (htime : left.length < time) :
    Takes tokens m
      (do
        skipParenthesized tokens time
        let _ ← takeAlias tokens
        return ())
      () [] (readAlias (passParenthesized left)).2 := by
  refine (takes_skipParenthesized hleft htime).behind fun m₁ hleft₁ _ => ?_
  exact (takes_takeAlias hleft₁).behind fun m₂ hleft₂ _ => .pure hleft₂ ()

/-- A list in parentheses is read with one more group open. -/
theorem takes_enclosed {inner : Inner} (h : Nested tokens bound m.place.depth (some inner))
    {t : Token} {rest : List Token} (hleft : m.left tokens = t :: rest)
    (hbound : rest.length < bound) (htime : 4 * rest.length + 3 < time) :
    Takes tokens m
      (do
        advance 1
        enter
        takeList tokens time
        leave
        let _ ← accept tokens (.symbol .closePar)
        return ())
      () (inner.list rest).tables (passOver (.symbol .closePar) (inner.list rest).rest) := by
  refine (takes_advance hleft 1).behind fun m₁ hleft₁ hdepth₁ => ?_
  have hlist : ∀ m₂ : Extractor, m₂.left tokens = rest → m₂.place.depth = m₁.place.depth + 1 →
      Takes tokens m₂ (takeList tokens time) () (inner.list rest).tables (inner.list rest).rest :=
    fun m₂ hleft₂ hdepth₂ =>
      h.list inner rfl m₂ rest time hleft₂ (by rw [hdepth₂, hdepth₁]) hbound htime
  have hroom : m.place.depth < maxNesting := h.room.2 rfl
  refine .enclosed (hdepth₁ ▸ hroom) hleft₁ hlist fun m₂ hleft₂ _ => ?_
  exact (takes_accept hleft₂ (by decide)).behind fun m₃ hleft₃ _ => .pure hleft₃ ()

theorem takes_takeFactor (h : Nested tokens bound m.place.depth inner?)
    (hleft : m.left tokens = left) (hbound : left.length < bound)
    (htime : 4 * left.length < time) :
    Takes tokens m (takeFactor tokens time) () (factor bound inner? left).tables
      (factor bound inner? left).rest := by
  obtain ⟨time, rfl⟩ := Nat.exists_eq_add_of_le' (Nat.zero_lt_of_lt htime)
  rw [takeFactor]
  cases left with
  | nil => exact .of_end hleft (.pure hleft ())
  | cons t rest =>
    rw [List.length_cons] at hbound htime
    have hshort : (t :: rest).length < time := by
      rw [List.length_cons]
      omega
    refine .of_kind hleft ?_
    unfold factor
    dsimp only
    split
    · refine .of_look (run_opensTables hleft 0 (Nat.lt_succ_of_lt hshort)) ?_
      rw [List.drop_zero]
      cases startsQuery (t :: rest) with
      | true => exact takes_derived hleft hshort
      | false =>
        refine .of_look (a := m) rfl ?_
        show Takes tokens m (if maxNesting ≤ m.place.depth then _ else _) () _ _
        cases inner? with
        | none =>
          rw [if_pos (show maxNesting ≤ m.place.depth by simpa using h.room)]
          exact takes_skipParenthesized hleft hshort
        | some inner =>
          rw [if_neg (Nat.not_le.2 (h.room.2 rfl))]
          exact takes_enclosed h hleft (by omega) (by omega)
    · split
      · refine (takes_advance hleft 1).behind fun m₁ hleft₁ _ => ?_
        exact takes_derived hleft₁ (Nat.lt_of_succ_lt hshort)
      · split
        · exact takes_advance hleft 1
        · split
          · exact takes_takeName hleft (by omega) (by omega)
          · exact .pure hleft ()

/-- A join, if one is there. -/
theorem takes_takeJoin (h : Nested tokens bound m.place.depth inner?)
    (hleft : m.left tokens = left) (hbound : left.length < bound)
    (htime : 4 * left.length < time) (hword : isJoinWord (headKind left) = true) {flag : Bool}
    {rest : List Token} (hpass : passJoinWords left = (flag, rest)) :
    Takes tokens m (takeJoin tokens time) flag
      (if flag then (factor bound inner? rest).tables else [])
      (if flag then passJoinCondition (factor bound inner? rest).rest else rest) := by
  have hshort := length_passJoinWords hword
  obtain ⟨time, rfl⟩ := Nat.exists_eq_add_of_le' (Nat.zero_lt_of_lt htime)
  have henough : left.length < time + 1 := by omega
  have hwords := takes_skipJoinWords hleft henough
  rw [hpass] at hshort hwords
  dsimp only at hshort
  rw [takeJoin]
  refine .of_look (run_kindAt hleft 0) ?_
  rw [List.drop_zero, if_pos hword]
  refine hwords.behind fun m₁ hleft₁ hdepth₁ => ?_
  cases flag with
  | false => exact .pure hleft₁ false
  | true =>
    have hless := (factor_reads bound h.sound rest).rest.length_le
    have hfactor : Takes tokens m₁ (takeFactor tokens time) () (factor bound inner? rest).tables
        (factor bound inner? rest).rest :=
      takes_takeFactor (hdepth₁ ▸ h) hleft₁ (by omega) (by omega)
    refine hfactor.before_run fun m₂ _ hleft₂ _ => ?_
    exact (takes_skipJoinCondition hleft₂ (by omega)).behind fun m₃ hleft₃ _ => .pure hleft₃ true

theorem run_takeJoin_of_not (hleft : m.left tokens = left) (htime : 0 < time)
    (hword : isJoinWord (headKind left) = false) :
    (takeJoin tokens time).run m = some (false, m) := by
  obtain ⟨time, rfl⟩ := Nat.exists_eq_add_of_le' htime
  rw [takeJoin, run_kindAt_bind hleft, if_neg (Bool.eq_false_iff.1 hword)]
  rfl

theorem takes_takeJoins (h : Nested tokens bound m.place.depth inner?) (fuel : Nat)
    (hleft : m.left tokens = left) (hbound : left.length < bound) (hfuel : left.length < fuel)
    (htime : 4 * left.length + 1 < time) :
    Takes tokens m (takeJoins tokens time) () (joins bound inner? fuel left).tables
      (joins bound inner? fuel left).rest := by
  induction fuel generalizing m left time with
  | zero => exact absurd hfuel (Nat.not_lt_zero _)
  | succ fuel ih =>
    obtain ⟨time, rfl⟩ := Nat.exists_eq_add_of_le' (Nat.zero_lt_of_lt htime)
    rw [takeJoins]
    cases hword : isJoinWord (headKind left) with
    | false =>
      rw [joins_of_not hword]
      exact .of_look (run_takeJoin_of_not hleft (by omega) hword) (.pure hleft ())
    | true =>
      have hshort := length_passJoinWords hword
      cases hpass : passJoinWords left with
      | mk flag rest =>
        rw [hpass] at hshort
        dsimp only at hshort
        have hjoin := takes_takeJoin h hleft hbound (Nat.lt_of_succ_lt_succ htime) hword hpass
        cases flag with
        | false =>
          rw [joins, if_pos hword, hpass]
          exact hjoin.behind fun m₁ hleft₁ _ => .pure hleft₁ ()
        | true =>
          rw [joins_succ hword hpass]
          have hless := ((passJoinCondition_suffix _).trans
            (factor_reads bound h.sound rest).rest).length_le
          refine hjoin.bind fun m₁ hleft₁ hdepth₁ => ?_
          exact ih (hdepth₁ ▸ h) hleft₁ (by omega) (by omega) (by omega)

/-- Where no reference starts, the index stays where it is. -/
theorem run_takeReference (hleft : m.left tokens = left) (htime : 2 < time)
    (h : startsReference (headKind left) = false) :
    (takeReference tokens time).run m = some ((), m) := by
  obtain ⟨hbrace, hstarts, hword⟩ := startsReference_eq_false h
  obtain ⟨hopen, hlateral, hdual, hname⟩ := startsFactor_eq_false hstarts
  obtain ⟨time, rfl⟩ := Nat.exists_eq_add_of_le' htime
  have hfactor : (takeFactor tokens (time + 2)).run m = some ((), m) := by
    rw [takeFactor, run_kindAt_bind hleft, if_neg hopen, if_neg hlateral, if_neg hdual,
      if_neg hname]
    rfl
  rw [takeReference, run_kindAt_bind hleft, if_neg hbrace, StateT.run_bind, hfactor]
  show (takeJoins tokens (time + 2)).run m = _
  rw [takeJoins, StateT.run_bind, run_takeJoin_of_not hleft (Nat.succ_pos time) hword]
  rfl

/-- A group in braces is read with one more group open, or passed over if no more may be. -/
theorem takes_braces (h : Nested tokens bound m.place.depth inner?) (hleft : m.left tokens = left)
    (hbound : left.length < bound) (htime : 4 * left.length + 2 < time) :
    Takes tokens m
      (do
        if (← get).place.depth < maxNesting then do
          skipOuterJoinMark tokens
          enter
          takeReference tokens time
          leave
          skipToClose tokens .openCurly .closeCurly time 1
        else skipToClose tokens .openCurly .closeCurly time 1)
      () (braces inner? left).tables (braces inner? left).rest := by
  refine .of_look (a := m) rfl ?_
  show Takes tokens m (if m.place.depth < maxNesting then _ else _) () _ _
  cases inner? with
  | none =>
    rw [if_neg (show ¬m.place.depth < maxNesting by simpa using h.room)]
    exact takes_skipToClose _ _ hleft (by omega) 0
  | some inner =>
    have hroom : m.place.depth < maxNesting := h.room.2 rfl
    have hmark := (passOuterJoinMark_suffix left).length_le
    have hless := ((h.sound inner rfl).reference (passOuterJoinMark left)).rest.length_le
    rw [if_pos hroom]
    refine (takes_skipOuterJoinMark hleft).behind fun m₁ hleft₁ hdepth₁ => ?_
    have hreference : ∀ m₂ : Extractor, m₂.left tokens = passOuterJoinMark left →
        m₂.place.depth = m₁.place.depth + 1 →
          Takes tokens m₂ (takeReference tokens time) ()
            (inner.reference (passOuterJoinMark left)).tables
            (inner.reference (passOuterJoinMark left)).rest := fun m₂ hleft₂ hdepth₂ =>
      h.reference inner rfl m₂ _ time hleft₂ (by rw [hdepth₂, hdepth₁]) (by omega) (by omega)
    exact .enclosed (hdepth₁ ▸ hroom) hleft₁ hreference fun m₂ hleft₂ _ =>
      takes_skipToClose _ _ hleft₂ (by omega) 0

theorem takes_takeReference (h : Nested tokens bound m.place.depth inner?)
    (hleft : m.left tokens = left) (hbound : left.length < bound)
    (htime : 4 * left.length + 2 < time) :
    Takes tokens m (takeReference tokens time) () (reference bound inner? left).tables
      (reference bound inner? left).rest := by
  obtain ⟨time, rfl⟩ := Nat.exists_eq_add_of_le' (Nat.zero_lt_of_lt htime)
  rw [takeReference]
  refine .of_look (run_kindAt hleft 0) ?_
  rw [List.drop_zero]
  unfold reference
  split
  · rename_i hbrace
    have hsome : 0 < left.length := List.length_pos_iff.2 fun hnil => by
      rw [hnil] at hbrace
      cases hbrace
    have hrest : (left.drop 1).length = left.length - 1 := List.length_drop
    refine (takes_advance hleft 1).behind fun m₁ hleft₁ hdepth₁ => ?_
    exact takes_braces (hdepth₁ ▸ h) hleft₁ (by omega) (by omega)
  · have hless := (factor_reads bound h.sound left).rest.length_le
    refine (takes_takeFactor h hleft hbound (by omega)).bind fun m₁ hleft₁ hdepth₁ => ?_
    exact takes_takeJoins (hdepth₁ ▸ h) bound hleft₁ (by omega) (by omega) (by omega)

/-- The index shows whether a reference was read. -/
theorem index_takeReference (h : Nested tokens bound m.place.depth inner?)
    (hleft : m.left tokens = left) (hbound : left.length < bound)
    (htime : 4 * left.length + 2 < time) {m₁ : Extractor}
    (hrun : (takeReference tokens time).run m = some ((), m₁)) :
    m₁.place.index = m.place.index ↔ startsReference (headKind left) = false := by
  refine ⟨fun hindex => ?_, fun hstarts => ?_⟩
  · by_contra hstarts
    obtain ⟨m₂, hrun₂, -, hleft₂, -⟩ := takes_takeReference h hleft hbound htime
    cases hrun.symm.trans hrun₂
    have hsame : (reference bound inner? left).rest = left := by
      rw [← hleft₂, Extractor.left, hindex]
      exact hleft
    cases left with
    | nil => exact hstarts rfl
    | cons t rest =>
      have hless := (reference_suffix h.sound (Nat.zero_lt_of_lt hbound)
        ((Bool.not_eq_false _).mp hstarts) rest).length_le
      rw [hsame, List.length_cons] at hless
      omega
  · cases hrun.symm.trans (run_takeReference hleft (by omega) hstarts)
    rfl

section

variable {before : Nat} {starts : Bool} (hindex : m.place.index = before ↔ starts = false)
include hindex

/-- A list goes on behind a comma, and behind a token that does not fit. -/
theorem takes_takeMore {more : Reading} (hleft : m.left tokens = left)
    (hgoOn : headKind left = .symbol .comma ∨ starts = true ∧ isClauseEnd (headKind left) = false)
    (hmore : ∀ m₁ : Extractor, m₁.left tokens = left.drop 1 → m₁.place.depth = m.place.depth →
      Takes tokens m₁ (takeList tokens time) () more.tables more.rest) :
    Takes tokens m (takeMore tokens (time + 1) before) () more.tables more.rest := by
  rw [takeMore]
  refine .of_accept hleft (by decide) (fun t behind hcons ht m₁ hleft₁ hdepth₁ => ?_)
    fun hcomma => ?_
  · subst hcons
    exact hmore m₁ hleft₁ hdepth₁
  · obtain ⟨hstarts, hend⟩ := hgoOn.resolve_left hcomma
    refine .of_look (a := m) rfl (.of_look (run_kindAt hleft 0) ?_)
    have hnot : ¬(m.place.index = before ∨ isClauseEnd (headKind left) = true) := by
      rw [hindex, hstarts, hend]
      simp
    rw [List.drop_zero, if_neg hnot]
    exact (takes_advance hleft 1).behind hmore

theorem takes_takeMore_of_over (hleft : m.left tokens = left)
    (hover : ¬(headKind left = .symbol .comma ∨
      starts = true ∧ isClauseEnd (headKind left) = false)) :
    Takes tokens m (takeMore tokens (time + 1) before) () [] left := by
  rw [not_or] at hover
  rw [takeMore]
  refine .of_look (run_accept_of_not hleft hover.1) ?_
  refine .of_look (a := m) rfl (.of_look (run_kindAt hleft 0) ?_)
  have hover : m.place.index = before ∨ isClauseEnd (headKind left) = true := by
    rw [hindex]
    cases starts <;> simp_all
  rw [List.drop_zero]
  show Takes tokens m (if m.place.index = before ∨ _ then _ else _) () [] left
  rw [if_pos hover]
  exact .pure hleft ()

end

theorem takes_takeList (h : Nested tokens bound m.place.depth inner?) (fuel : Nat)
    (hleft : m.left tokens = left) (hbound : left.length < bound) (hfuel : left.length < fuel)
    (htime : 4 * left.length + 3 < time) :
    Takes tokens m (takeList tokens time) () (list bound inner? fuel left).tables
      (list bound inner? fuel left).rest := by
  induction fuel generalizing m left time with
  | zero => exact absurd hfuel (Nat.not_lt_zero _)
  | succ fuel ih =>
    obtain ⟨time, rfl⟩ := Nat.exists_eq_add_of_le' (show 2 ≤ time by omega)
    have htime : 4 * left.length + 2 < time + 1 := Nat.lt_of_succ_lt_succ htime
    have hreference := takes_takeReference h hleft hbound htime
    have hless := (reference_reads bound h.sound left).rest.length_le
    rw [takeList, list]
    dsimp only
    refine .of_look (a := m) rfl ?_
    split
    · rename_i hgoOn
      refine hreference.bind_run fun m₁ hrun hleft₁ hdepth₁ => ?_
      refine takes_takeMore (index_takeReference h hleft hbound htime hrun) hleft₁ hgoOn
        fun m₂ hleft₂ hdepth₂ => ?_
      have hsome := List.length_pos_iff.2 (ne_nil_of_goOn hgoOn)
      have hdrop := List.length_drop (i := 1) (l := (reference bound inner? left).rest)
      exact ih ((hdepth₂.trans hdepth₁).symm ▸ h) hleft₂ (by omega) (by omega) (by omega)
    · rename_i hover
      refine hreference.before_run fun m₁ hrun hleft₁ hdepth₁ => ?_
      exact takes_takeMore_of_over (index_takeReference h hleft hbound htime hrun) hleft₁ hover

/-- As many groups may be opened as there are readers for. -/
theorem nested (tokens : List Token) (bound room : Nat) {depth : Nat}
    (hdepth : depth + room = maxNesting) : Nested tokens bound depth (inside? bound room) := by
  induction room generalizing depth with
  | zero =>
    exact {
      room := iff_of_false (by omega) Bool.false_ne_true
      sound := inside?_reads bound 0
      list := fun _ hinner => nomatch hinner
      reference := fun _ hinner => nomatch hinner }
  | succ room ih =>
    have hinside : Nested tokens bound (depth + 1) (inside? bound room) := ih (by omega)
    refine ⟨iff_of_true (by omega) rfl, inside?_reads bound (room + 1), ?_, ?_⟩
    · intro inner hinner m left time hleft hm hbound htime
      obtain rfl := Option.some.inj hinner
      exact takes_takeList (hm ▸ hinside) bound hleft hbound hbound htime
    · intro inner hinner m left time hleft hm hbound htime
      obtain rfl := Option.some.inj hinner
      exact takes_takeReference (hm ▸ hinside) hleft hbound htime

end

/-! ## The whole clause -/

/-- With time enough for its tokens, a clause is read as the readers do. -/
theorem takes_extract (tokens : List Token) {time : Nat} (htime : 4 * tokens.length + 3 < time) :
    ∃ rest, Takes tokens {} (extract tokens time) () (tables tokens) rest := by
  have hstart : ({} : Extractor).left tokens = tokens := rfl
  have hless := (passOver_suffix (.keyword .FROM) tokens).length_le
  have hlist : ∀ m : Extractor, m.left tokens = passOver (.keyword .FROM) tokens →
      m.place.depth = 0 → Takes tokens m (takeList tokens time) () (tables tokens) _ :=
    fun m hleft hdepth => by
      have hnested := nested tokens ((passOver (.keyword .FROM) tokens).length + 1) maxNesting
        (hdepth.symm ▸ Nat.zero_add maxNesting)
      exact takes_takeList hnested _ hleft (Nat.lt_succ_self _) (Nat.lt_succ_self _) (by omega)
  exact ⟨_, (takes_accept hstart (by decide)).behind fun m hleft hdepth => hlist m hleft hdepth⟩

/-- Whatever the tokens are, reading the clause in place ends: within some time and every longer one
it comes to the same state, which holds the tables of the clause. On the way there the index never
moves back and no more groups are open than may be, and none is open in the end. The tables are read
from tokens of the clause, one behind another. -/
theorem extract_orderly (tokens : List Token) : ∃ (enough : Nat) (m : Extractor),
    (∀ time ≥ enough, (extract tokens time).run {} = some ((), m)) ∧
      m.references = tables tokens ∧ m.place.depth = 0 ∧
      m.places.Pairwise (fun p q => p.index ≤ q.index) ∧
      (∀ p ∈ m.places, p.depth ≤ maxNesting) ∧
      ∃ origins : List Origin, m.references = origins.map Origin.reference ∧
        (origins.flatMap Origin.tokens).Sublist tokens ∧ ∀ o ∈ origins, o.WellFormed := by
  obtain ⟨rest, m, hrun, honward, -, hfound⟩ :=
    takes_extract tokens (Nat.lt_succ_self (4 * tokens.length + 3))
  have hstart : ({} : Extractor).Orderly := by
    refine ⟨List.pairwise_singleton _ _, fun p hp => ?_⟩
    rw [List.mem_singleton.1 hp]
    exact Nat.zero_le _
  have horderly := honward.orderly hstart
  obtain ⟨origins, htables, horder, hwell⟩ := exists_origins_of_tables tokens
  have hreferences : m.references = tables tokens := hfound
  exact ⟨_, m, fun time htime => Timed.run_of_le (extract_extends tokens) hrun htime, hreferences,
    honward.depth, horderly.ordered, horderly.shallow, origins, hreferences.trans htables, horder,
    hwell⟩

end SqlCompletion.FromClause
