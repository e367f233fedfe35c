import Mathlib.Data.List.Basic
import Mathlib.Logic.Function.Basic

/-!
# Rows in a unit of work

A session that has read a row of a table keeps an instance of it, with the values
that it read. A program assigns to attributes of the instance, and a flush
writes the columns whose value differs from the one that was read. Meanwhile
the row may have changed under the instance; and what differs is for each column
to say, which may take different values for the same.
-/

namespace UnitOfWork

variable {κ : Type} {ν : κ → Type}

abbrev Row (ν : κ → Type) := ∀ k, ν k

abbrev Patch (ν : κ → Type) := ∀ k, Option (ν k)

structure Mapper (ν : κ → Type) where
  columns : List κ
  mem_columns : ∀ k, k ∈ columns
  /-- The new value counts as the old one. -/
  same : ∀ k, ν k → ν k → Bool
  takes : ∀ k, ν k → Bool

def blank : Patch ν := fun _ => .none

def apply (r : Row ν) (p : Patch ν) : Row ν := fun k => (p k).getD (r k)

section
variable [DecidableEq κ]

def set (p : Patch ν) (k : κ) (v : ν k) : Patch ν := Function.update p k (some v)

@[simp] theorem set_self (p : Patch ν) (k : κ) (v : ν k) : set p k v k = some v := Function.update_self ..

@[simp] theorem set_ne (p : Patch ν) {k j : κ} (v : ν k) (h : j ≠ k) : set p k v j = p j :=
  Function.update_of_ne h ..

theorem set_eq_some {p : Patch ν} {k j : κ} {v : ν k} {w : ν j} :
    set p k v j = some w ↔ (⟨j, w⟩ : Σ k, ν k) = ⟨k, v⟩ ∨ j ≠ k ∧ p j = some w := by
  by_cases h : j = k
  · subst h
    simp [eq_comm]
  · simp [h]

def setAll (p : Patch ν) (l : List (Σ k, ν k)) : Patch ν := l.foldl (fun p f => set p f.1 f.2) p

theorem setAll_eq_some {l : List (Σ k, ν k)} (hn : (l.map Sigma.fst).Nodup) {p : Patch ν} {k : κ} {v : ν k} :
    setAll p l k = some v ↔ ⟨k, v⟩ ∈ l ∨ k ∉ l.map Sigma.fst ∧ p k = some v := by
  induction l generalizing p with
  | nil => simp [setAll]
  | cons f l ih =>
    obtain ⟨hf, hl⟩ := List.nodup_cons.mp hn
    change setAll (set p f.1 f.2) l k = some v ↔ _
    rw [ih hl, set_eq_some, List.mem_cons, List.map_cons, List.mem_cons, not_or]
    constructor
    · rintro (h | ⟨hk, h | ⟨hne, h⟩⟩)
      · exact .inl (.inr h)
      · exact .inl (.inl h)
      · exact .inr ⟨⟨hne, hk⟩, h⟩
    · rintro ((rfl | h) | ⟨⟨hne, hk⟩, h⟩)
      · exact .inr ⟨hf, .inl rfl⟩
      · exact .inl h
      · exact .inr ⟨hk, .inr ⟨hne, h⟩⟩

end

@[simp] theorem blank_apply (k : κ) : (blank : Patch ν) k = .none := rfl

theorem apply_none {r : Row ν} {p : Patch ν} {k : κ} (h : p k = .none) : apply r p k = r k := by
  unfold apply
  rw [h, Option.getD_none]

theorem apply_some {r : Row ν} {p : Patch ν} {k : κ} {v : ν k} (h : p k = some v) : apply r p k = v := by
  unfold apply
  rw [h, Option.getD_some]

namespace Mapper

variable (M : Mapper ν)

def changes (inst : Row ν) (p : Patch ν) : Patch ν := fun k => (p k).filter fun v => !M.same k (inst k) v

variable {M} {inst r : Row ν} {p onUpdate : Patch ν} {k : κ} {v : ν k}

theorem changes_of_none (h : p k = .none) : M.changes inst p k = .none := by
  unfold changes
  rw [h, Option.filter_none]

theorem changes_of_same (h : p k = some v) (hs : M.same k (inst k) v = true) : M.changes inst p k = .none := by
  unfold changes
  simp [h, hs]

theorem changes_of_not_same (h : p k = some v) (hs : M.same k (inst k) v = false) :
    M.changes inst p k = some v := by
  unfold changes
  simp [h, hs]

theorem changes_eq_some (h : M.changes inst p k = some v) : p k = some v ∧ M.same k (inst k) v = false := by
  simpa [changes, Option.filter_eq_some_iff] using h

def takesAll (M : Mapper ν) (p : Patch ν) : Bool := M.columns.all fun k => (p k).all (M.takes k)

/-- The row after the flush of an instance with assigned attributes. Where anything is
written, the columns in `onUpdate` that are not assigned get their value from there. -/
def update (M : Mapper ν) (onUpdate : Patch ν) (inst : Row ν) (p : Patch ν) (r : Row ν) : Row ν :=
  if M.columns.all fun k => (M.changes inst p k).isNone then r
  else apply r fun k => (M.changes inst p k).or (onUpdate k)

theorem takesAll_changes : M.takesAll (M.changes inst p) = true ↔
    ∀ k v, p k = some v → M.same k (inst k) v = false → M.takes k v = true := by
  unfold takesAll
  rw [List.all_eq_true]
  constructor
  · intro h k v hv hs
    have := h k (M.mem_columns k)
    rw [changes_of_not_same hv hs] at this
    exact this
  · intro h k _
    cases hc : M.changes inst p k with
    | none => rfl
    | some v =>
      obtain ⟨hv, hs⟩ := changes_eq_some hc
      exact h k v hv hs

theorem update_apply (h : onUpdate k = .none) : M.update onUpdate inst p r k = apply r (M.changes inst p) k := by
  unfold update
  split
  · rename_i hnone
    rw [apply_none (Option.isNone_iff_eq_none.mp (List.all_eq_true.mp hnone k (M.mem_columns k)))]
  · simp only [apply, h, Option.or_none]

theorem update_of_none (h : onUpdate k = .none) (hp : p k = .none) : M.update onUpdate inst p r k = r k := by
  rw [update_apply h, apply_none (changes_of_none hp)]

/-- A flush has written an assigned value, unless the instance had one that counts as it,
and the row has not. -/
theorem update_eq_iff (h : onUpdate k = .none) (hp : p k = some v) :
    M.update onUpdate inst p r k = v ↔ (M.same k (inst k) v = true → r k = v) := by
  rw [update_apply h]
  cases hs : M.same k (inst k) v with
  | false => simp [apply_some (changes_of_not_same hp hs)]
  | true => simp [apply_none (changes_of_same hp hs)]

/-- On an instance that shows the row, a flush writes what was assigned, where no other value counts
as the one of the row. -/
theorem update_fresh (hsame : ∀ v, M.same k (r k) v = true → r k = v) (h : onUpdate k = .none) :
    M.update onUpdate r p r k = apply r p k := by
  cases hp : p k with
  | none => rw [update_of_none h hp, apply_none hp]
  | some v => rw [apply_some hp, (update_eq_iff h hp).mpr (hsame v)]

end Mapper

end UnitOfWork
