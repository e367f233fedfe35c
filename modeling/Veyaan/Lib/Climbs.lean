import Mathlib.Data.List.Range
import Mathlib.Logic.Relation

/-!
# Values that only climb

A value that a run changes only upwards, on a scale of natural numbers. It
changes no more often than the scale has steps, and never comes back to what it
once was.
-/

open Relation (ReflTransGen)

variable {β σ : Type} (height : β → Nat)

def Climbs (a b : β) : Prop := a = b ∨ height a < height b

namespace Climbs

variable {height} {a b c : β}

theorem refl (a : β) : Climbs height a a := .inl rfl

theorem le (h : Climbs height a b) : height a ≤ height b := by
  rcases h with rfl | h
  · exact Nat.le_refl _
  · exact Nat.le_of_lt h

theorem trans (h : Climbs height a b) (h' : Climbs height b c) : Climbs height a c := by
  rcases h with rfl | h
  · exact h'
  · exact .inr (Nat.lt_of_lt_of_le h h'.le)

theorem squeeze (h : Climbs height a b) (h' : Climbs height b a) : a = b := by
  rcases h with rfl | h
  · rfl
  · exact absurd h'.le (Nat.not_le.mpr h)

theorem of_steps {step : σ → σ → Prop} {f : σ → β} (hs : ∀ s s', step s s' → Climbs height (f s) (f s')) {s s' : σ}
    (h : ReflTransGen step s s') : Climbs height (f s) (f s') := by
  induction h with
  | refl => exact refl _
  | tail _ h ih => exact ih.trans (hs _ _ h)

end Climbs

section
variable [DecidableEq β] (f : Nat → β)

def changes (n : Nat) : Nat := (List.range n).countP fun k => f k ≠ f (k + 1)

theorem changes_succ (n : Nat) : changes f (n + 1) = changes f n + if f n = f (n + 1) then 0 else 1 := by
  unfold changes
  rw [List.range_succ, List.countP_append]
  by_cases h : f n = f (n + 1) <;> simp [h]

variable {height f}

/-- Every change takes at least one step of the scale. -/
theorem changes_le {n : Nat} (h : ∀ k < n, Climbs height (f k) (f (k + 1))) :
    changes f n + height (f 0) ≤ height (f n) := by
  induction n with
  | zero => simp [changes]
  | succ n ih =>
    have hn := ih fun k hk => h k (Nat.lt_succ_of_lt hk)
    have hs := h n (Nat.lt_succ_self n)
    rw [changes_succ]
    by_cases he : f n = f (n + 1)
    · rw [if_pos he, ← he]
      exact hn
    · rw [if_neg he]
      have := hs.resolve_left he
      omega

end
