set_option autoImplicit false

/-!
# Methods within a time

A method works on a state and is given a time. It has no answer if the time is not enough, and so
has whatever it is a part of. An answer that there is stays what it is within more time: the method
that has more time extends the one that has less (`Extends`), since this is so of the parts and is
kept where they are put together.
-/

namespace SqlCompletion

/-- A method that works on a state. It may have no answer. -/
abbrev Timed (σ : Type) := StateT σ Option

namespace Timed

section

variable {σ α β : Type}

/-- The time is over. -/
def giveUp : Timed σ α := fun _ => none

/-- Wherever the one method has an answer, the other one has the same and leaves the same state. -/
def Extends (x y : Timed σ α) : Prop :=
  ∀ (s : σ) (result : α × σ), x.run s = some result → y.run s = some result

theorem extends_giveUp (x : Timed σ α) : Extends giveUp x := fun _ _ h => nomatch h

theorem Extends.refl (x : Timed σ α) : Extends x x := fun _ _ h => h

theorem Extends.bind {x y : Timed σ α} {f g : α → Timed σ β} (hx : Extends x y)
    (hf : ∀ a, Extends (f a) (g a)) : Extends (x >>= f) (y >>= g) := by
  intro s result h
  rw [StateT.run_bind] at h
  obtain ⟨⟨a, s'⟩, hrun, hrest⟩ := Option.bind_eq_some_iff.1 h
  rw [StateT.run_bind, hx s _ hrun]
  exact hf a s' result hrest

/-- What comes behind a part that takes no time. -/
theorem Extends.behind {x : Timed σ α} {f g : α → Timed σ β} (hf : ∀ a, Extends (f a) (g a)) :
    Extends (x >>= f) (x >>= g) :=
  .bind (.refl x) hf

theorem Extends.ite {p : Prop} [Decidable p] {x x' y y' : Timed σ α} (hx : Extends x x')
    (hy : Extends y y') : Extends (if p then x else y) (if p then x' else y') := by
  split
  · exact hx
  · exact hy

theorem Extends.foldlM {f g : β → α → Timed σ β} (h : ∀ b a, Extends (f b a) (g b a))
    (items : List α) (b : β) : Extends (items.foldlM f b) (items.foldlM g b) := by
  induction items generalizing b with
  | nil => exact .refl _
  | cons a items ih => exact .bind (h b a) ih

/-- An answer is the same within every time that is longer, if it is the same within the next. -/
theorem run_of_le {x : Nat → Timed σ α} (h : ∀ time, Extends (x time) (x (time + 1))) {s : σ}
    {result : α × σ} {time later : Nat} (hrun : (x time).run s = some result)
    (hle : time ≤ later) : (x later).run s = some result := by
  induction hle with
  | refl => exact hrun
  | step _ ih => exact h _ s result ih

end

end Timed

end SqlCompletion
