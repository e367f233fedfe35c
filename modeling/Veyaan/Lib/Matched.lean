import Mathlib.Data.List.Basic
import Mathlib.Order.Basic

/-!
# How much of a chain a list contains

A chain of steps that have to be taken in order, and a list of attempts: an
attempt at any step but the next one is lost. `matched` is the number of steps
that have been taken in the end.
-/

variable {α : Type} [DecidableEq α]

def matched : List α → List α → Nat
  | [], _ => 0
  | _ :: _, [] => 0
  | a :: l, k :: ks => if k = a then matched l ks + 1 else matched (a :: l) ks

@[simp] theorem matched_nil (ks : List α) : matched ([] : List α) ks = 0 := by cases ks <;> rfl

@[simp] theorem matched_none (l : List α) : matched l [] = 0 := by cases l <;> rfl

theorem matched_cons (a : α) (l : List α) (k : α) (ks : List α) :
    matched (a :: l) (k :: ks) = if k = a then matched l ks + 1 else matched (a :: l) ks := rfl

/-- The first `m` steps have been taken if they are among the attempts, in their
order. -/
theorem le_matched (l ks : List α) : ∀ {m : Nat}, m ≤ l.length → (m ≤ matched l ks ↔ (l.take m).Sublist ks) := by
  induction ks generalizing l with
  | nil =>
    intro m hm
    cases l with
    | nil => simpa using hm
    | cons a l =>
      cases m with
      | zero => simp
      | succ m => simp
  | cons k ks ih =>
    intro m hm
    cases l with
    | nil => simpa using hm
    | cons a l =>
      cases m with
      | zero => simp
      | succ m =>
        replace hm : m ≤ l.length := by simpa using hm
        rw [matched_cons, List.take_succ_cons]
        split
        · rename_i hk
          subst hk
          rw [List.cons_sublist_cons, ← ih l hm]
          omega
        · rename_i hk
          rw [ih (a :: l) (m := m + 1) (by simpa using hm), List.take_succ_cons]
          constructor
          · exact fun h => h.cons k
          · intro h
            cases h with
            | cons _ h => exact h
            | cons_cons => exact absurd rfl hk

theorem matched_le_length (l ks : List α) : matched l ks ≤ l.length := by
  induction ks generalizing l with
  | nil => simp
  | cons k ks ih =>
    cases l with
    | nil => simp
    | cons a l =>
      rw [matched_cons]
      have h₁ := ih l
      have h₂ := ih (a :: l)
      simp only [List.length_cons] at h₂ ⊢
      split <;> omega

theorem matched_append (l l' ks : List α) (h : ∀ a ∈ l'.head?, a ∉ ks) :
    matched (l ++ l') ks = l.length ↔ l.Sublist ks := by
  have hle : matched (l ++ l') ks ≤ l.length := by
    cases l' with
    | nil => rw [List.append_nil]; exact matched_le_length l ks
    | cons a l' =>
      refine Nat.le_of_not_lt fun hlt => h a rfl ?_
      have hsub := (le_matched (l ++ a :: l') ks (m := l.length + 1) (by simp)).mp hlt
      refine hsub.subset ?_
      rw [List.take_append]
      simp
  have := le_matched (l ++ l') ks (m := l.length) (by simp)
  rw [List.take_left' rfl] at this
  rw [← this]
  omega

theorem matched_step (l : List α) (j : Nat) (k : α) (ks : List α) :
    (if l[j]? = some k then j + 1 else j) + matched (l.drop (if l[j]? = some k then j + 1 else j)) ks =
      j + matched (l.drop j) (k :: ks) := by
  rcases Nat.lt_or_ge j l.length with hlt | hge
  · rw [List.getElem?_eq_getElem hlt, List.drop_eq_getElem_cons hlt, matched_cons]
    by_cases hk : l[j] = k
    · rw [if_pos (by rw [hk]), if_pos hk.symm]
      omega
    · rw [if_neg (by simpa using hk), if_neg (Ne.symm hk), List.drop_eq_getElem_cons hlt]
  · rw [List.getElem?_eq_none hge, if_neg (by simp), List.drop_eq_nil_of_le hge]
    simp

/-- A strictly sorted list is contained, in order, in every sorted list that has its
elements. -/
theorem sublist_of_sorted {f : α → Nat} (hf : ∀ a b, f a = f b → a = b) {ks : List α} : ∀ {l : List α},
    l.Pairwise (f · < f ·) → ks.Pairwise (f · ≤ f ·) → (∀ a ∈ l, a ∈ ks) → l.Sublist ks := by
  induction ks with
  | nil =>
    intro l _ _ hsub
    cases l with
    | nil => exact .slnil
    | cons a l => cases hsub a (List.mem_cons_self ..)
  | cons k ks ih =>
    intro l hl hks hsub
    rw [List.pairwise_cons] at hks
    cases l with
    | nil => exact List.nil_sublist _
    | cons a l =>
      rw [List.pairwise_cons] at hl
      -- what is greater than the first element of the sorted list is behind it
      have hbehind : ∀ b ∈ a :: l, f k < f b → b ∈ ks := fun b hb hlt => by
        rcases List.mem_cons.mp (hsub b hb) with rfl | hb
        · exact absurd hlt (Nat.lt_irrefl _)
        · exact hb
      by_cases hk : k = a
      · subst hk
        exact .cons_cons k (ih hl.2 hks.2 fun b hb => hbehind b (List.mem_cons_of_mem _ hb) (hl.1 b hb))
      · have ha : a ∈ ks := by
          rcases List.mem_cons.mp (hsub a (List.mem_cons_self ..)) with rfl | ha
          · exact absurd rfl hk
          · exact ha
        have hlt : f k < f a := Nat.lt_of_le_of_ne (hks.1 a ha) fun he => hk (hf _ _ he)
        refine .cons k (ih (List.pairwise_cons.mpr hl) hks.2 fun b hb => hbehind b hb ?_)
        rcases List.mem_cons.mp hb with rfl | hb
        · exact hlt
        · exact Nat.lt_trans hlt (hl.1 b hb)
