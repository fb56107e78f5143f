import SqlCompletion.Scanner.Script
import SqlCompletion.Proofs.Withholding
set_option autoImplicit false

/-!
# The moves of a scanner

A scanner that starts on a stream stays on it, whatever script it runs: its index is that of a
token, and so are the places that it keeps (`Session.run_on`, `Session.runAll_on`). Wherever a
scanner stands on the stream of a text, its moves keep some laws (`Scanner.Lawful`, shown by
`Scanner.lawful_of_lt`).

* The jump to a character finds the one token that holds it, and comes to the end just where there
  is no such character.
* From a visible token, a step and the step back lead to the same place.
* What lies behind is what the step back comes to.
* Some terminals are skipped just where the tokens from the current one on are of these kinds and
  another one follows, and then the scanner stands on that one (`Scanner.skipAll_eq_some_iff`).

The main result joins the two: at every scanner that any script comes to, inside of its scopes too,
the laws hold (`Scanner.script_lawful`). A script is any list of steps, and a scope takes the
scanner back behind its steps to where it was in front of them.

The laws need of a stream only that its tokens tile a text, and the neighbours of a token are told
by the visible tokens in front of an index and behind it (`firstAfter?_iff_lastBefore?`). A place
that is kept before the script starts must be one of the same stream. From a hidden token a step and
the step back need not lead to the same place, and no law says so.
-/

namespace SqlCompletion

namespace TokenStream

/-! ## Neighbours -/

theorem lastBefore?_eq_getLast? (s : TokenStream) (index : Nat) :
    s.lastBefore? index = (s.shownBefore index).getLast? := by
  rw [← head?_visibleBefore, visibleBefore, List.head?_reverse, shownBefore]

section

variable {s : TokenStream} {t : Token} {k : Nat}

theorem mem_visible_of_firstAfter? (h : s.firstAfter? k = some t) : t ∈ s.visible := by
  obtain ⟨hmem, hvisible⟩ := List.mem_of_find?_eq_some h, List.find?_some h
  exact List.mem_filter.2 ⟨List.mem_of_mem_drop hmem, hvisible⟩

theorem mem_visible_of_lastBefore? (h : s.lastBefore? k = some t) : t ∈ s.visible := by
  obtain ⟨hmem, hvisible⟩ := List.mem_of_find?_eq_some h, List.find?_some h
  exact List.mem_filter.2 ⟨List.mem_of_mem_take (List.mem_reverse.1 hmem), hvisible⟩

theorem mem_of_firstAfter? (h : s.firstAfter? k = some t) : t ∈ s.tokens :=
  List.mem_of_mem_filter (mem_visible_of_firstAfter? h)

theorem mem_of_lastBefore? (h : s.lastBefore? k = some t) : t ∈ s.tokens :=
  List.mem_of_mem_filter (mem_visible_of_lastBefore? h)

end

namespace Indexed

variable {s : TokenStream} {t u : Token} {k : Nat} {rest : List Token}

theorem index_lt (h : s.Indexed) (ht : t ∈ s.tokens) : t.index < s.size :=
  (List.getElem?_eq_some_iff.1 (h.getElem?_index ht)).1

/-- Behind the first one of the visible tokens behind an index lie the others. -/
theorem visibleAfter_of_cons (h : s.Indexed) (hk : s.visibleAfter k = t :: rest) :
    s.visibleAfter t.index = rest := by
  have hsplit : s.visible = s.shownBefore (k + 1) ++ t :: rest := by
    rw [visible_eq_append s (k + 1)]
    exact congrArg _ hk
  exact (h.shown_of_split hsplit).2

/-- The next visible token behind one is the other, just if the nearest one in front of the other is
the first. -/
theorem firstAfter?_iff_lastBefore? (h : s.Indexed) (ht : t ∈ s.visible) (hu : u ∈ s.visible) :
    s.firstAfter? t.index = some u ↔ s.lastBefore? u.index = some t := by
  rw [← head?_visibleAfter, lastBefore?_eq_getLast?]
  constructor
  · intro hnext
    obtain ⟨before, behind, hsplit⟩ := List.append_of_mem ht
    rw [(h.shown_of_split hsplit).2] at hnext
    obtain ⟨rest, rfl⟩ := List.head?_eq_some_iff.1 hnext
    have hfront : s.visible = (before ++ [t]) ++ u :: rest := by rw [hsplit, List.append_cons]
    rw [(h.shown_of_split hfront).1, List.getLast?_concat]
  · intro hlast
    obtain ⟨before, behind, hsplit⟩ := List.append_of_mem hu
    rw [(h.shown_of_split hsplit).1] at hlast
    obtain ⟨front, rfl⟩ := List.getLast?_eq_some_iff.1 hlast
    have hback : s.visible = front ++ t :: (u :: behind) := by rw [hsplit, ← List.append_cons]
    rw [(h.shown_of_split hback).2, List.head?_cons]

end Indexed

end TokenStream

namespace Scanner

variable {stream : TokenStream} {s after : Scanner} {t u : Token} {index offset : Nat}

/-! ## The laws -/

/-- The current token and the visible ones behind it. -/
def trail (s : Scanner) : List Token := s.token?.toList ++ s.stream.visibleAfter s.index

/-- The tokens of the trail are of these kinds up to the token `landing`. -/
def Precede (s : Scanner) (kinds : List Terminal) (landing : Token) : Prop :=
  ∃ taken rest, s.trail = taken ++ landing :: rest ∧ taken.map Token.kind = kinds

/-- What the moves of a scanner keep to at a place on its stream. -/
structure Lawful (s : Scanner) : Prop where
  index_lt : s.index < s.stream.size
  /-- The jump to a character lands on the one token that holds it. -/
  advance_token : ∀ offset < s.stream.charLength, ∃ t, (s.advance offset).token? = some t ∧
    ∀ u ∈ s.stream.tokens, u.span.contains offset = true ↔ u = t
  /-- It lands on the end just where there is no such character. -/
  advance_eof : ∀ offset, (s.advance offset).token?.map Token.kind = some .eof ↔
    s.stream.charLength ≤ offset
  /-- From a visible token, a step that succeeds is undone by the step back. -/
  next_previous : ∀ t, s.token? = some t → t.isHidden = false → s.next.1 = true →
    s.next.2.previous = (true, s)
  previous_next : ∀ t, s.token? = some t → t.isHidden = false → s.previous.1 = true →
    s.previous.2.next = (true, s)
  lookBack : s.lookBack = if s.previous.1 then s.previous.2.kind else .invalid
  /-- Terminals are skipped up to a visible token behind them, or the scanner does not move. -/
  skip : ∀ kinds ≠ [],
    (∃ landing, s.Precede kinds landing ∧ landing.isHidden = false ∧
      s.skip kinds = (true, s.moveTo landing.index) ∧
      (s.moveTo landing.index).token? = some landing) ∨
    ((∀ landing, ¬s.Precede kinds landing) ∧ s.skip kinds = (false, s))

@[simp] theorem stream_moveTo (s : Scanner) (index : Nat) : (s.moveTo index).stream = s.stream :=
  rfl

@[simp] theorem index_moveTo (s : Scanner) (index : Nat) : (s.moveTo index).index = index := rfl

@[simp] theorem moveTo_index (s : Scanner) : s.moveTo s.index = s := rfl

@[simp] theorem moveTo_moveTo (s : Scanner) (i j : Nat) : (s.moveTo i).moveTo j = s.moveTo j := rfl

/-! ## Steps -/

theorem mem_visible_of_token? (ht : s.token? = some t) (hvisible : t.isHidden = false) :
    t ∈ s.stream.visible :=
  List.mem_filter.2 ⟨List.mem_of_getElem? ht, by rw [hvisible]; rfl⟩

theorem next_of_firstAfter? (hnext : s.stream.firstAfter? s.index = some t) :
    s.next = (true, s.moveTo t.index) := by
  unfold next
  rw [hnext]

theorem next_of_none (hnone : s.stream.firstAfter? s.index = none) :
    s.next = (false, s.moveTo (max s.index s.stream.lastIndex)) := by
  unfold next
  rw [hnone]

theorem previous_of_lastBefore? (hlast : s.stream.lastBefore? s.index = some t) :
    s.previous = (true, s.moveTo t.index) := by
  unfold previous
  rw [hlast]

theorem previous_of_none (hnone : s.stream.lastBefore? s.index = none) :
    s.previous = (false, s.moveTo 0) := by
  unfold previous
  rw [hnone]

section

variable (h : s.stream.Indexed)
include h

theorem token?_moveTo (ht : t ∈ s.stream.tokens) : (s.moveTo t.index).token? = some t :=
  h.getElem?_index ht

theorem moveTo_of_token? (ht : s.token? = some t) : s.moveTo t.index = s := by
  rw [h s.index t ht, moveTo_index]

/-- A visible current token is the nearest one in front of the next. -/
theorem next_previous_eq (ht : s.token? = some t) (hvisible : t.isHidden = false)
    (hnext : s.next.1 = true) : s.next.2.previous = (true, s) := by
  cases hu : s.stream.firstAfter? s.index with
  | none =>
    rw [next_of_none hu] at hnext
    cases hnext
  | some u =>
    have hmem := mem_visible_of_token? ht hvisible
    have hback : s.stream.lastBefore? u.index = some t := by
      rw [← h.firstAfter?_iff_lastBefore? hmem (TokenStream.mem_visible_of_firstAfter? hu),
        h s.index t ht, hu]
    rw [next_of_firstAfter? hu, previous_of_lastBefore? hback, moveTo_moveTo,
      moveTo_of_token? h ht]

/-- A visible current token is the nearest one behind the previous. -/
theorem previous_next_eq (ht : s.token? = some t) (hvisible : t.isHidden = false)
    (hprevious : s.previous.1 = true) : s.previous.2.next = (true, s) := by
  cases hu : s.stream.lastBefore? s.index with
  | none =>
    rw [previous_of_none hu] at hprevious
    cases hprevious
  | some u =>
    have hmem := mem_visible_of_token? ht hvisible
    have hforth : s.stream.firstAfter? u.index = some t := by
      rw [h.firstAfter?_iff_lastBefore? (TokenStream.mem_visible_of_lastBefore? hu) hmem,
        h s.index t ht, hu]
    rw [previous_of_lastBefore? hu, next_of_firstAfter? hforth, moveTo_moveTo,
      moveTo_of_token? h ht]

theorem lookBack_eq : s.lookBack = if s.previous.1 then s.previous.2.kind else .invalid := by
  unfold lookBack TokenStream.lookBack
  cases hu : s.stream.lastBefore? s.index with
  | none => rw [previous_of_none hu, Option.elim_none, if_neg Bool.false_ne_true]
  | some u =>
    have hmem := TokenStream.mem_of_lastBefore? hu
    rw [previous_of_lastBefore? hu, if_pos rfl, kind, token?_moveTo h hmem]
    rfl

end

/-! ## Jumps to a character -/

section

variable (h : s.stream.IsLaid)
include h

theorem advance_lands (hlt : offset < s.stream.charLength) :
    ∃ t, (s.advance offset).token? = some t ∧
      ∀ u ∈ s.stream.tokens, u.span.contains offset = true ↔ u = t := by
  obtain ⟨t, ht, hcontains⟩ := h.exists_contains hlt
  refine ⟨t, ?_, fun u hu => ⟨fun hheld => h.tiles.eq_of_contains hu ht hheld hcontains, ?_⟩⟩
  · rw [advance, h.tiles.indexAt_of_contains ht hcontains, token?_moveTo h.tiles.index ht]
  · rintro rfl
    exact hcontains

theorem advance_lands_on_eof_iff :
    (s.advance offset).token?.map Token.kind = some .eof ↔ s.stream.charLength ≤ offset := by
  rcases Nat.lt_or_ge offset s.stream.charLength with hlt | hge
  · obtain ⟨t, ht, hcontains⟩ := h.exists_contains hlt
    rw [advance, h.tiles.indexAt_of_contains ht hcontains, token?_moveTo h.tiles.index ht,
      Option.map_some, Option.some.injEq]
    exact iff_of_false (h.tiles.kind_ne_eof ht hcontains) (Nat.not_le.2 hlt)
  · rw [advance, h.tiles.indexAt_of_le hge, token?, stream_moveTo, index_moveTo,
      h.tiles.get?_lastIndex]
    exact iff_of_true rfl hge

end

/-! ## Terminals in a row -/

section

variable (h : s.stream.Indexed) {kind : Terminal} {kinds : List Terminal} {landing : Token}

theorem trail_of_token? (ht : s.token? = some t) :
    s.trail = t :: s.stream.visibleAfter s.index := by
  rw [trail, ht, Option.toList_some, List.singleton_append]

include h in
/-- With the next token, the trail goes on from there. -/
theorem trail_of_next (ht : s.token? = some t) (hu : s.stream.firstAfter? s.index = some u) :
    s.trail = t :: (s.moveTo u.index).trail := by
  have hmem := TokenStream.mem_of_firstAfter? hu
  rw [← TokenStream.head?_visibleAfter] at hu
  obtain ⟨rest, hrest⟩ := List.head?_eq_some_iff.1 hu
  rw [trail_of_token? ht, trail_of_token? (token?_moveTo h hmem), hrest, index_moveTo,
    stream_moveTo, h.visibleAfter_of_cons hrest]

theorem Precede.kind_eq (hp : s.Precede (kind :: kinds) landing) (ht : s.token? = some t) :
    t.kind = kind := by
  obtain ⟨taken, rest, htrail, hkinds⟩ := hp
  obtain ⟨first, others, rfl, hfirst, -⟩ := List.map_eq_cons_iff.1 hkinds
  rw [trail_of_token? ht, List.cons_append] at htrail
  rw [(List.cons.inj htrail).1, hfirst]

theorem precede_cons_iff (htrail : s.trail = t :: after.trail) :
    s.Precede (kind :: kinds) landing ↔ t.kind = kind ∧ after.Precede kinds landing := by
  unfold Precede
  rw [htrail]
  constructor
  · rintro ⟨taken, rest, hcons, hkinds⟩
    obtain ⟨first, others, rfl, hfirst, hothers⟩ := List.map_eq_cons_iff.1 hkinds
    obtain ⟨rfl, hrest⟩ := List.cons.inj hcons
    exact ⟨hfirst, others, rest, hrest, hothers⟩
  · rintro ⟨rfl, taken, rest, hrest, rfl⟩
    exact ⟨t :: taken, rest, by rw [hrest, List.cons_append], rfl⟩

theorem not_precede_of_last (ht : s.token? = some t) (hnone : s.stream.firstAfter? s.index = none) :
    ¬s.Precede (kind :: kinds) landing := by
  rintro ⟨taken, rest, htrail, hkinds⟩
  obtain ⟨first, others, rfl, -⟩ := List.map_eq_cons_iff.1 hkinds
  rw [← TokenStream.head?_visibleAfter, List.head?_eq_none_iff] at hnone
  rw [trail_of_token? ht, hnone] at htrail
  simp at htrail

/-- Behind at least one terminal the scanner lands on a visible token. -/
theorem Precede.landing_mem (hp : s.Precede (kind :: kinds) landing) (ht : s.token? = some t) :
    landing ∈ s.stream.visible := by
  obtain ⟨taken, rest, htrail, hkinds⟩ := hp
  obtain ⟨first, others, rfl, -⟩ := List.map_eq_cons_iff.1 hkinds
  rw [trail_of_token? ht, List.cons_append] at htrail
  have hmem : landing ∈ s.stream.visibleAfter s.index := by
    rw [(List.cons.inj htrail).2]
    exact List.mem_append_right _ List.mem_cons_self
  obtain ⟨hdrop, hvisible⟩ := List.mem_filter.1 hmem
  exact List.mem_filter.2 ⟨List.mem_of_mem_drop hdrop, hvisible⟩

theorem token?_of_lt (hlt : s.index < s.stream.size) : ∃ t, s.token? = some t :=
  ⟨_, List.getElem?_eq_getElem hlt⟩

include h in
/-- Terminals are skipped just where the tokens from the current one on are of these kinds and
another token follows: the scanner lands on that one. -/
theorem skipAll_eq_some_iff (hlt : s.index < s.stream.size) :
    s.skipAll kinds = some after ↔
      ∃ landing, s.Precede kinds landing ∧ after = s.moveTo landing.index := by
  obtain ⟨t, ht⟩ := token?_of_lt hlt
  induction kinds generalizing s t with
  | nil =>
    rw [skipAll, Option.some.injEq]
    constructor
    · rintro rfl
      exact ⟨t, ⟨[], _, trail_of_token? ht, rfl⟩, (moveTo_of_token? h ht).symm⟩
    · rintro ⟨landing, ⟨taken, rest, htrail, hkinds⟩, rfl⟩
      obtain rfl := List.map_eq_nil_iff.1 hkinds
      rw [trail_of_token? ht, List.nil_append] at htrail
      rw [← (List.cons.inj htrail).1, moveTo_of_token? h ht]
  | cons kind kinds ih =>
    have hkind : s.isAt kind = true ↔ t.kind = kind := by
      rw [isAt, beq_iff_eq, Scanner.kind, ht, Option.elim_some]
    rw [skipAll]
    by_cases hat : t.kind = kind
    · rw [if_pos (hkind.2 hat)]
      cases hu : s.stream.firstAfter? s.index with
      | none =>
        rw [next_of_none hu]
        refine iff_of_false (by simp) ?_
        rintro ⟨landing, hp, -⟩
        exact not_precede_of_last ht hu hp
      | some u =>
        have hmem := TokenStream.mem_of_firstAfter? hu
        rw [next_of_firstAfter? hu]
        dsimp only
        rw [ih (s := s.moveTo u.index) h (h.index_lt hmem) u (token?_moveTo h hmem)]
        simp only [precede_cons_iff (trail_of_next h ht hu), hat, true_and, moveTo_moveTo]
    · rw [if_neg fun h => hat (hkind.1 h)]
      refine iff_of_false (by simp) ?_
      rintro ⟨landing, hp, -⟩
      exact hat (hp.kind_eq ht)

include h in
theorem skip_cases (hlt : s.index < s.stream.size) (hne : kinds ≠ []) :
    (∃ landing, s.Precede kinds landing ∧ landing.isHidden = false ∧
      s.skip kinds = (true, s.moveTo landing.index) ∧
      (s.moveTo landing.index).token? = some landing) ∨
    ((∀ landing, ¬s.Precede kinds landing) ∧ s.skip kinds = (false, s)) := by
  obtain ⟨t, ht⟩ := token?_of_lt hlt
  obtain ⟨kind, others, rfl⟩ := List.exists_cons_of_ne_nil hne
  unfold skip
  cases hskip : s.skipAll (kind :: others) with
  | some after =>
    obtain ⟨landing, hp, rfl⟩ := (skipAll_eq_some_iff h hlt).1 hskip
    obtain ⟨hmem, hvisible⟩ := List.mem_filter.1 (hp.landing_mem ht)
    exact .inl ⟨landing, hp, by simpa using hvisible, rfl, token?_moveTo h hmem⟩
  | none =>
    refine .inr ⟨fun landing hp => ?_, rfl⟩
    rw [(skipAll_eq_some_iff h hlt).2 ⟨landing, hp, rfl⟩] at hskip
    cases hskip

end

/-- The laws hold at every place on the stream of a text. -/
theorem lawful_of_lt (h : s.stream.IsLaid) (hlt : s.index < s.stream.size) : s.Lawful where
  index_lt := hlt
  advance_token := fun _ hoffset => advance_lands h hoffset
  advance_eof := fun _ => advance_lands_on_eof_iff h
  next_previous := fun _ => next_previous_eq h.tiles.index
  previous_next := fun _ => previous_next_eq h.tiles.index
  lookBack := lookBack_eq h.tiles.index
  skip := fun _ => skip_cases h.tiles.index hlt

/-! ## Moves stay on the stream -/

/-- The scanner stands on a token of the stream. -/
structure On (stream : TokenStream) (s : Scanner) : Prop where
  stream_eq : s.stream = stream
  index_lt : s.index < stream.size

namespace On

variable (hs : s.On stream)
include hs

theorem moveTo (hlt : index < stream.size) : (s.moveTo index).On stream := ⟨hs.stream_eq, hlt⟩

theorem moveTo_of_mem (h : stream.Indexed) (ht : t ∈ stream.tokens) :
    (s.moveTo t.index).On stream :=
  hs.moveTo (h.index_lt ht)

theorem next (h : stream.Tiles) : s.next.2.On stream := by
  obtain ⟨rfl, hlt⟩ := hs
  cases ht : s.stream.firstAfter? s.index with
  | some t =>
    rw [next_of_firstAfter? ht]
    exact moveTo_of_mem ⟨rfl, hlt⟩ h.index
      (TokenStream.mem_of_firstAfter? ht)
  | none =>
    rw [next_of_none ht]
    exact moveTo ⟨rfl, hlt⟩ (Nat.max_lt.2 ⟨hlt, h.lastIndex_lt⟩)

theorem previous (h : stream.Tiles) : s.previous.2.On stream := by
  obtain ⟨rfl, hlt⟩ := hs
  cases ht : s.stream.lastBefore? s.index with
  | some t =>
    rw [previous_of_lastBefore? ht]
    exact moveTo_of_mem ⟨rfl, hlt⟩ h.index
      (TokenStream.mem_of_lastBefore? ht)
  | none =>
    rw [previous_of_none ht]
    exact moveTo ⟨rfl, hlt⟩ h.size_pos

theorem seek (h : stream.Tiles) (index : Nat) : (s.seek index).On stream := by
  obtain ⟨rfl, hlt⟩ := hs
  exact moveTo ⟨rfl, hlt⟩ (Nat.lt_of_le_of_lt (Nat.min_le_right ..) h.lastIndex_lt)

theorem advance (h : stream.IsLaid) (offset : Nat) : (s.advance offset).On stream := by
  obtain ⟨rfl, hlt⟩ := hs
  rcases Nat.lt_or_ge offset s.stream.charLength with hoffset | hoffset
  · obtain ⟨t, ht, hcontains⟩ := h.exists_contains hoffset
    rw [Scanner.advance, h.tiles.indexAt_of_contains ht hcontains]
    exact moveTo_of_mem ⟨rfl, hlt⟩ h.tiles.index ht
  · rw [Scanner.advance, h.tiles.indexAt_of_le hoffset]
    exact moveTo ⟨rfl, hlt⟩ h.tiles.lastIndex_lt

theorem skip (h : stream.Tiles) (kinds : List Terminal) : (s.skip kinds).2.On stream := by
  obtain ⟨rfl, hlt⟩ := hs
  by_cases hempty : kinds = []
  · subst hempty
    exact ⟨rfl, hlt⟩
  · rcases skip_cases h.index hlt hempty with ⟨landing, -, -, hskip, hlanding⟩ | ⟨-, hskip⟩
    · rw [hskip]
      exact moveTo_of_mem ⟨rfl, hlt⟩ h.index (List.mem_of_getElem? hlanding)
    · rw [hskip]
      exact ⟨rfl, hlt⟩

end On

/-! ## Scripts -/

mutual

/-- The scanners that are noted with a step: those of the steps in its scope, and the one behind
it. -/
def Note.scanners : Note → List Scanner
  | .plain _ after => [after]
  | .scope notes after => scannersOf notes ++ [after]

/-- The scanners that are noted with some steps. -/
def scannersOf : List Note → List Scanner
  | [] => []
  | note :: notes => note.scanners ++ scannersOf notes

end

/-- The scanner of a session stands on the stream, and so do the places that are kept. -/
structure Session.On (stream : TokenStream) (s : Session) : Prop where
  scanner : s.scanner.On stream
  saved : ∀ place ∈ s.saved, place.2 < stream.size

/-- The session is on the stream behind a step, and all that was noted with the step too. -/
structure Session.StaysOn (stream : TokenStream) (notes : List Scanner) (after : Session) :
    Prop where
  after : after.On stream
  notes : ∀ x ∈ notes, x.On stream

namespace Session

section

variable {s : Session} {scanner : Scanner}

theorem On.note (hs : s.On stream) (answer : Answer) :
    StaysOn stream (s.note answer).1.scanners (s.note answer).2 := by
  refine ⟨hs, fun x hx => ?_⟩
  rw [Session.note, Note.scanners, List.mem_singleton] at hx
  rw [hx]
  exact hs.scanner

theorem On.moved (hs : s.On stream) (hscanner : scanner.On stream) :
    (s.moved scanner).On stream :=
  ⟨hscanner, hs.saved⟩

/-- A place that is looked up is a kept one, or the place where the scanner stands. -/
theorem On.lookup_lt (hs : s.On stream) (name : String) :
    (s.saved.lookup name).getD s.scanner.index < stream.size := by
  cases hfound : s.saved.lookup name with
  | none => exact hs.scanner.index_lt
  | some index =>
    obtain ⟨front, back, hsplit, -⟩ := List.lookup_eq_some_iff.1 hfound
    exact hs.saved (name, index) (hsplit ▸ List.mem_append_right _ List.mem_cons_self)

end

mutual

theorem run_on (h : stream.IsLaid) {s : Session} (hs : s.On stream) (step : Step) :
    StaysOn stream (s.run step).1.scanners (s.run step).2 := by
  match step with
  | .next =>
    rw [run]
    exact (hs.moved (hs.scanner.next h.tiles)).note _
  | .previous =>
    rw [run]
    exact (hs.moved (hs.scanner.previous h.tiles)).note _
  | .seek index =>
    rw [run]
    exact (hs.moved (hs.scanner.seek h.tiles index)).note _
  | .advance offset =>
    rw [run]
    exact (hs.moved (hs.scanner.advance h offset)).note _
  | .save name =>
    rw [run]
    have hkept : Session.On stream { s with saved := (name, s.scanner.index) :: s.saved } := by
      refine ⟨hs.scanner, fun place hplace => ?_⟩
      rcases List.mem_cons.1 hplace with rfl | hbefore
      · exact hs.scanner.index_lt
      · exact hs.saved place hbefore
    exact hkept.note _
  | .restore name =>
    rw [run]
    exact (hs.moved (hs.scanner.moveTo (hs.lookup_lt name))).note _
  | .isAt kind =>
    rw [run]
    exact hs.note _
  | .lookBack =>
    rw [run]
    exact hs.note _
  | .skip kinds =>
    rw [run]
    exact (hs.moved (hs.scanner.skip h.tiles kinds)).note _
  | .restText =>
    rw [run]
    exact hs.note _
  | .clauseText =>
    rw [run]
    exact hs.note _
  | .scoped steps =>
    -- The places that the scope kept stay, only the scanner goes back.
    rw [run]
    have hscope := runAll_on h hs steps
    have hback := hscope.after.scanner.moveTo hs.scanner.index_lt
    refine ⟨hscope.after.moved hback, fun x hx => ?_⟩
    rw [Note.scanners] at hx
    rcases List.mem_append.1 hx with hin | hlast
    · exact hscope.notes x hin
    · rw [List.mem_singleton.1 hlast]
      exact hback

theorem runAll_on (h : stream.IsLaid) {s : Session} (hs : s.On stream) (steps : List Step) :
    StaysOn stream (scannersOf (s.runAll steps).1) (s.runAll steps).2 := by
  cases steps with
  | nil =>
    rw [runAll]
    exact ⟨hs, fun x hx => nomatch hx⟩
  | cons step steps =>
    rw [runAll]
    have hstep := run_on h hs step
    have hsteps := runAll_on h hstep.after steps
    refine ⟨hsteps.after, fun x hx => ?_⟩
    rw [scannersOf] at hx
    rcases List.mem_append.1 hx with hfirst | hlater
    · exact hstep.notes x hfirst
    · exact hsteps.notes x hlater

end

end Session

/-- Every step of a script on a text, also one in a scope, leaves the scanner on the stream of the
text, and its moves keep the laws from there. The places that are known at the start were kept on
the same stream. -/
theorem script_lawful (d : Dialect) (source : String) (saved : List (String × Nat))
    (steps : List Step)
    (hsaved : ∀ place ∈ saved, place.2 < (TokenStream.ofText d source).size) :
    ∀ s ∈ start (TokenStream.ofText d source) ::
        scannersOf (Session.runAll ⟨start (TokenStream.ofText d source), saved⟩ steps).1,
      s.stream = TokenStream.ofText d source ∧ s.Lawful := by
  have h := TokenStream.isLaid_ofText d source
  have hstart : (start (TokenStream.ofText d source)).On (TokenStream.ofText d source) :=
    ⟨rfl, h.tiles.size_pos⟩
  have hrun := Session.runAll_on h (s := ⟨start (TokenStream.ofText d source), saved⟩)
    ⟨hstart, hsaved⟩ steps
  have lawful {s : Scanner} (hs : s.On (TokenStream.ofText d source)) :
      s.stream = TokenStream.ofText d source ∧ s.Lawful := by
    obtain ⟨hstream, hlt⟩ := hs
    rw [← hstream] at h hlt
    exact ⟨hstream, lawful_of_lt h hlt⟩
  intro s hs
  rcases List.mem_cons.1 hs with rfl | hnoted
  · exact lawful hstart
  · exact lawful (hrun.notes s hnoted)

/-- Steps from `SELECT` to the comma, with a detour to the end. -/
def detour : List Step :=
  [.next, .save "column", .scoped [.seek 99, .restore "comma", .skip [.symbol .comma]], .previous,
    .advance 9, .restore "column", .skip [.symbol .identifier]]

/-- The comma is a place that was kept before. -/
theorem script_lawful_detour :
    (∀ place ∈ [("comma", 3)], place.2 < (TokenStream.ofText {} "SELECT a, b").size) ∧
      (scannersOf (Session.runAll ⟨start (.ofText {} "SELECT a, b"), [("comma", 3)]⟩
        detour).1).map Scanner.index = [2, 2, 6, 3, 5, 2, 0, 4, 2, 3] ∧
      ∀ s ∈ start (.ofText {} "SELECT a, b") :: scannersOf (Session.runAll
          ⟨start (.ofText {} "SELECT a, b"), [("comma", 3)]⟩ detour).1,
        s.stream = .ofText {} "SELECT a, b" ∧ s.Lawful := by
  have hsaved : ∀ place ∈ [("comma", 3)],
      place.2 < (TokenStream.ofText {} "SELECT a, b").size := by decide +kernel
  exact ⟨hsaved, by decide +kernel, script_lawful {} "SELECT a, b" _ detour hsaved⟩

end Scanner

end SqlCompletion
