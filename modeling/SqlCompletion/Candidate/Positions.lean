set_option autoImplicit false

/-!
# Sets of positions

The positions of an input at which something can end. A walk moves forward, so that what is new
lies behind what is known: a set is a list with the latest position first, and joining a few late
positions to many early ones looks at the late ones only.

Each operation is pinned down by its members: `mem_union`, `mem_insert`, `mem_diff`. Two sets with
the same members are equal (`ext_mem`).
-/

namespace SqlCompletion

/-- A list of positions that goes down at every step. -/
def Descending (ps : List Nat) : Prop := ps.Pairwise (· > ·)

namespace Descending

@[simp] theorem nil : Descending [] := List.Pairwise.nil

theorem cons_iff {p : Nat} {ps : List Nat} :
    Descending (p :: ps) ↔ (∀ q ∈ ps, q < p) ∧ Descending ps := List.pairwise_cons

@[simp] theorem singleton (p : Nat) : Descending [p] := by simp [cons_iff]

/-- The join of `p :: ps` with a second list, where `below` joins `ps` with a list. -/
def mergeFrom (p : Nat) (below : List Nat → List Nat) : List Nat → List Nat
  | [] => p :: below []
  | q :: qs =>
    if p < q then q :: mergeFrom p below qs
    else p :: below (if p = q then qs else q :: qs)

/-- The join of two descending lists. -/
def merge : List Nat → List Nat → List Nat
  | [], qs => qs
  | p :: ps, [] => p :: ps
  | p :: ps, q :: qs => mergeFrom p (merge ps) (q :: qs)

/-- The members of the first list that the second one, also descending, does not hold. -/
def minus : List Nat → List Nat → List Nat
  | [], _ => []
  | p :: ps, qs =>
    match qs.dropWhile (p < ·) with
    | [] => p :: ps
    | q :: rest => if p = q then minus ps rest else p :: minus ps (q :: rest)

theorem mem_mergeFrom {p : Nat} {ps : List Nat} {below : List Nat → List Nat}
    (hbelow : ∀ qs x, x ∈ below qs ↔ x ∈ ps ∨ x ∈ qs) (qs : List Nat) (x : Nat) :
    x ∈ mergeFrom p below qs ↔ x ∈ p :: ps ∨ x ∈ qs := by
  induction qs with
  | nil => simp [mergeFrom, hbelow]
  | cons q qs ih =>
    unfold mergeFrom
    split
    · rw [List.mem_cons, ih, List.mem_cons (a := x) (b := q)]
      constructor
      · rintro (h | h | h) <;> simp [h]
      · rintro (h | h | h) <;> simp [h]
    · rw [List.mem_cons, hbelow, List.mem_cons (a := x) (b := p), or_assoc]
      split
      · rename_i h
        subst h
        simp only [List.mem_cons]
        constructor
        · rintro (h | h | h) <;> simp [h]
        · rintro (h | h | h | h) <;> simp [h]
      · rfl

theorem mem_merge (ps qs : List Nat) (x : Nat) : x ∈ merge ps qs ↔ x ∈ ps ∨ x ∈ qs := by
  induction ps generalizing qs x with
  | nil => simp [merge]
  | cons p ps ih =>
    cases qs with
    | nil => simp [merge]
    | cons q qs => exact mem_mergeFrom ih (q :: qs) x

theorem mergeFrom_descending {p : Nat} {ps : List Nat} {below : List Nat → List Nat}
    (hbelow : ∀ qs x, x ∈ below qs ↔ x ∈ ps ∨ x ∈ qs)
    (hdown : ∀ qs, Descending qs → Descending (below qs)) (hps : Descending (p :: ps))
    (qs : List Nat) (hqs : Descending qs) : Descending (mergeFrom p below qs) := by
  induction qs with
  | nil =>
    rw [mergeFrom, cons_iff]
    exact ⟨fun x hx => (cons_iff.1 hps).1 x (by simpa [hbelow] using hx), hdown [] nil⟩
  | cons q qs ih =>
    obtain ⟨hq, hqs⟩ := cons_iff.1 hqs
    unfold mergeFrom
    split
    · rename_i hlt
      rw [cons_iff]
      refine ⟨fun x hx => ?_, ih hqs⟩
      rcases (mem_mergeFrom hbelow qs x).1 hx with h | h
      · rcases List.mem_cons.1 h with h | h
        · omega
        · have := (cons_iff.1 hps).1 x h
          omega
      · exact hq x h
    · rename_i hle
      rw [cons_iff]
      refine ⟨fun x hx => ?_, hdown _ ?_⟩
      · rcases (hbelow _ x).1 hx with h | h
        · exact (cons_iff.1 hps).1 x h
        · split at h
          · have := hq x h
            omega
          · rcases List.mem_cons.1 h with h | h
            · omega
            · have := hq x h
              omega
      · split
        · exact hqs
        · exact cons_iff.2 ⟨hq, hqs⟩

theorem merge_descending {ps qs : List Nat} (hps : Descending ps) (hqs : Descending qs) :
    Descending (merge ps qs) := by
  induction ps generalizing qs with
  | nil => simpa [merge] using hqs
  | cons p ps ih =>
    cases qs with
    | nil => simpa [merge] using hps
    | cons q qs =>
      exact mergeFrom_descending (mem_merge ps) (fun _ h => ih (cons_iff.1 hps).2 h) hps _ hqs

/-- Of a descending list, what is left after the members above `p` holds all the others. -/
theorem mem_dropWhile {qs : List Nat} (hqs : Descending qs) (p x : Nat) :
    x ∈ qs.dropWhile (p < ·) ↔ x ∈ qs ∧ x ≤ p := by
  induction qs with
  | nil => simp
  | cons q qs ih =>
    obtain ⟨hq, hqs⟩ := cons_iff.1 hqs
    rw [List.dropWhile_cons]
    split
    · rename_i h
      have h : p < q := by simpa using h
      rw [ih hqs, List.mem_cons]
      constructor
      · rintro ⟨hx, hle⟩
        exact ⟨.inr hx, hle⟩
      · rintro ⟨rfl | hx, hle⟩
        · omega
        · exact ⟨hx, hle⟩
    · rename_i h
      have h : ¬p < q := by simpa using h
      refine ⟨fun hx => ⟨hx, ?_⟩, And.left⟩
      rcases List.mem_cons.1 hx with rfl | hx
      · omega
      · have := hq x hx
        omega

theorem dropWhile_descending {qs : List Nat} (hqs : Descending qs) (p : Nat) :
    Descending (qs.dropWhile (p < ·)) :=
  List.Pairwise.sublist (List.dropWhile_sublist _) hqs

theorem mem_minus {ps qs : List Nat} (hps : Descending ps) (hqs : Descending qs) (x : Nat) :
    x ∈ minus ps qs ↔ x ∈ ps ∧ x ∉ qs := by
  induction ps generalizing qs with
  | nil => simp [minus]
  | cons p ps ih =>
    obtain ⟨hp, hps⟩ := cons_iff.1 hps
    have hrest : ∀ y ∈ p :: ps, (y ∈ qs ↔ y ∈ qs.dropWhile (p < ·)) := by
      intro y hy
      rw [mem_dropWhile hqs]
      have : y ≤ p := by
        rcases List.mem_cons.1 hy with rfl | hy
        · omega
        · exact Nat.le_of_lt (hp y hy)
      simp [this]
    have hdown := dropWhile_descending hqs p
    have hkeep : x ∈ p :: ps ∧ x ∉ qs ↔ x ∈ p :: ps ∧ x ∉ qs.dropWhile (p < ·) :=
      and_congr_right fun hx => by rw [hrest x hx]
    have hle : ∀ y ∈ qs.dropWhile (p < ·), y ≤ p := fun y hy => ((mem_dropWhile hqs p y).1 hy).2
    rw [hkeep, minus]
    generalize qs.dropWhile (p < ·) = rest at hdown hle
    cases rest with
    | nil => simp
    | cons q rest =>
      obtain ⟨hq, hrest⟩ := cons_iff.1 hdown
      dsimp only
      split
      · rename_i h
        subst h
        rw [ih hps hrest]
        constructor
        · rintro ⟨hx, hnot⟩
          refine ⟨List.mem_cons_of_mem _ hx, fun h => ?_⟩
          rcases List.mem_cons.1 h with rfl | h
          · exact Nat.lt_irrefl _ (hp _ hx)
          · exact hnot h
        · rintro ⟨hx, hnot⟩
          rw [List.mem_cons, not_or] at hnot
          exact ⟨(List.mem_cons.1 hx).resolve_left hnot.1, hnot.2⟩
      · rename_i h
        have hlt : q < p := by
          have := hle q List.mem_cons_self
          omega
        rw [List.mem_cons, ih hps hdown, List.mem_cons (a := x) (b := p)]
        constructor
        · rintro (rfl | ⟨hx, hnot⟩)
          · refine ⟨.inl rfl, fun hmem => ?_⟩
            rcases List.mem_cons.1 hmem with hmem | hmem
            · exact h hmem
            · have := hq _ hmem
              omega
          · exact ⟨.inr hx, hnot⟩
        · rintro ⟨rfl | hx, hnot⟩
          · exact .inl rfl
          · exact .inr ⟨hx, hnot⟩

theorem minus_sublist (ps qs : List Nat) : (minus ps qs).Sublist ps := by
  induction ps generalizing qs with
  | nil => exact List.Sublist.refl _
  | cons p ps ih =>
    rw [minus]
    split
    · exact List.Sublist.refl _
    · split
      · exact (ih _).cons _
      · exact (ih _).cons_cons _

/-- A descending list is given by its members. -/
theorem eq_of_mem_iff {ps qs : List Nat} (hps : Descending ps) (hqs : Descending qs)
    (h : ∀ x, x ∈ ps ↔ x ∈ qs) : ps = qs := by
  induction ps generalizing qs with
  | nil =>
    cases qs with
    | nil => rfl
    | cons q qs => exact absurd ((h q).2 List.mem_cons_self) List.not_mem_nil
  | cons p ps ih =>
    cases qs with
    | nil => exact absurd ((h p).1 List.mem_cons_self) List.not_mem_nil
    | cons q qs =>
      obtain ⟨hp, hps'⟩ := cons_iff.1 hps
      obtain ⟨hq, hqs'⟩ := cons_iff.1 hqs
      have hpq : p = q := by
        rcases List.mem_cons.1 ((h p).1 List.mem_cons_self) with h' | h'
        · exact h'
        · rcases List.mem_cons.1 ((h q).2 List.mem_cons_self) with h'' | h''
          · exact h''.symm
          · have := hq p h'
            have := hp q h''
            omega
      subst hpq
      have hmem : ∀ x, x ∈ ps ↔ x ∈ qs := by
        intro x
        have hx := h x
        rw [List.mem_cons, List.mem_cons] at hx
        constructor
        · intro hmem
          have := hp x hmem
          exact (hx.1 (.inr hmem)).resolve_left (by omega)
        · intro hmem
          have := hq x hmem
          exact (hx.2 (.inr hmem)).resolve_left (by omega)
      rw [ih hps' hqs' hmem]

end Descending

/-- A set of positions. -/
structure Positions where
  /-- The members, the latest one first. -/
  latestFirst : List Nat
  descending : Descending latestFirst

namespace Positions

instance : Membership Nat Positions := ⟨fun ps p => p ∈ ps.latestFirst⟩

theorem mem_def {p : Nat} {ps : Positions} : p ∈ ps ↔ p ∈ ps.latestFirst := Iff.rfl

/-- Two sets with the same members are equal. -/
theorem ext_mem {ps qs : Positions} (h : ∀ x, x ∈ ps ↔ x ∈ qs) : ps = qs := by
  cases ps with
  | mk l hl =>
    cases qs with
    | mk m hm =>
      have : l = m := Descending.eq_of_mem_iff hl hm h
      subst this
      rfl

instance : DecidableEq Positions := fun ps qs =>
  decidable_of_iff (ps.latestFirst = qs.latestFirst) <| by
    constructor
    · intro h
      exact ext_mem fun x => by rw [mem_def, mem_def, h]
    · rintro rfl
      rfl

/-- No position. -/
def empty : Positions := ⟨[], .nil⟩

instance : EmptyCollection Positions := ⟨empty⟩

instance : Inhabited Positions := ⟨∅⟩

/-- One position. -/
def singleton (p : Nat) : Positions := ⟨[p], .singleton p⟩

/-- There is no position in the set. -/
def isEmpty (ps : Positions) : Bool := ps.latestFirst.isEmpty

/-- The members, the earliest one first. -/
def toList (ps : Positions) : List Nat := ps.latestFirst.reverse

/-- The positions of either set. -/
def union (ps qs : Positions) : Positions :=
  ⟨Descending.merge ps.latestFirst qs.latestFirst,
    Descending.merge_descending ps.descending qs.descending⟩

/-- The set with one more position. -/
def insert (p : Nat) (ps : Positions) : Positions := ps.union (singleton p)

/-- The positions of the first set that are not in the second. -/
def diff (ps qs : Positions) : Positions :=
  ⟨Descending.minus ps.latestFirst qs.latestFirst,
    List.Pairwise.sublist (Descending.minus_sublist _ _) ps.descending⟩

@[simp] theorem not_mem_empty (q : Nat) : q ∉ (∅ : Positions) := List.not_mem_nil

@[simp] theorem mem_singleton {q p : Nat} : q ∈ singleton p ↔ q = p := List.mem_singleton

@[simp] theorem mem_toList {q : Nat} {ps : Positions} : q ∈ ps.toList ↔ q ∈ ps :=
  List.mem_reverse

@[simp] theorem mem_union {q : Nat} {ps qs : Positions} : q ∈ ps.union qs ↔ q ∈ ps ∨ q ∈ qs :=
  Descending.mem_merge _ _ q

@[simp] theorem mem_insert {p q : Nat} {ps : Positions} : q ∈ insert p ps ↔ q = p ∨ q ∈ ps := by
  simp [insert, or_comm]

@[simp] theorem mem_diff {q : Nat} {ps qs : Positions} : q ∈ ps.diff qs ↔ q ∈ ps ∧ q ∉ qs :=
  Descending.mem_minus ps.descending qs.descending q

theorem isEmpty_iff {ps : Positions} : ps.isEmpty = true ↔ ps = ∅ := by
  constructor
  · intro h
    have h : ps.latestFirst = [] := List.isEmpty_iff.1 h
    exact ext_mem fun x => by simp [mem_def, h, show (∅ : Positions).latestFirst = [] from rfl]
  · rintro rfl
    rfl

end Positions

end SqlCompletion
