import Mathlib.Data.List.Forall2
import Mathlib.Order.Basic

/-!
# A backlog that is worked off in rounds

Entries wait in a line, each with the number of tries that it has left. A round tries
the first ones: each of these is done with, or has fewer tries left. Between the rounds
entries may be done with as well. After a bounded number of rounds nothing is left of
what had been waiting.
-/

namespace Backlog

inductive Lowered : List Nat → List Nat → Prop
  | nil : Lowered [] []
  | done {n l l'} : Lowered l l' → Lowered (n :: l) l'
  | left {n m l l'} : m ≤ n → Lowered l l' → Lowered (n :: l) (m :: l')

inductive Tried : Nat → List Nat → List Nat → Prop
  | nil {cap} : Tried cap [] []
  | done {cap n l l'} : Tried cap l l' → Tried (cap + 1) (n :: l) l'
  | again {cap n m l l'} : m < n → Tried cap l l' → Tried (cap + 1) (n :: l) (m :: l')
  | rest {l l'} : Lowered l l' → Tried 0 l l'

inductive Rounds (cap : Nat) : Nat → List Nat → List Nat → Prop
  | refl {l} : Rounds cap 0 l l
  | between {n l l' l''} : Rounds cap n l l' → Lowered l' l'' → Rounds cap n l l''
  | round {n l l' l''} : Rounds cap n l l' → Tried cap l' l'' → Rounds cap (n + 1) l l''

variable {l l' l₁ l₂ : List Nat} {cap n N : Nat}

theorem Lowered.length_le (h : Lowered l l') : l'.length ≤ l.length := by
  induction h with
  | nil => exact Nat.le_refl _
  | done _ ih => exact Nat.le_succ_of_le ih
  | left _ _ ih => exact Nat.succ_le_succ ih

theorem Lowered.le (h : Lowered l l') (hn : ∀ x ∈ l, x ≤ N) : ∀ x ∈ l', x ≤ N := by
  induction h with
  | nil => exact hn
  | done _ ih => exact ih fun x hx => hn x (List.mem_cons_of_mem _ hx)
  | @left n m l l' hle _ ih =>
    intro x hx
    rcases List.mem_cons.mp hx with rfl | hx
    · exact Nat.le_trans hle (hn n (List.mem_cons_self ..))
    · exact ih (fun y hy => hn y (List.mem_cons_of_mem _ hy)) x hx

theorem Tried.lowered (h : Tried cap l l') : Lowered l l' := by
  induction h with
  | nil => exact .nil
  | done _ ih => exact .done ih
  | again hlt _ ih => exact .left (Nat.le_of_lt hlt) ih
  | rest h => exact h

theorem Lowered.append (h : Lowered (l₁ ++ l₂) l') :
    ∃ l₁' l₂', l' = l₁' ++ l₂' ∧ Lowered l₁ l₁' ∧ Lowered l₂ l₂' := by
  induction l₁ generalizing l' with
  | nil => exact ⟨[], l', rfl, .nil, h⟩
  | cons n l₁ ih =>
    cases h with
    | done h =>
      obtain ⟨l₁', l₂', rfl, h₁, h₂⟩ := ih h
      exact ⟨l₁', l₂', rfl, .done h₁, h₂⟩
    | @left _ m _ _ hle h =>
      obtain ⟨l₁', l₂', rfl, h₁, h₂⟩ := ih h
      exact ⟨m :: l₁', l₂', rfl, .left hle h₁, h₂⟩

theorem Tried.append (h : Tried cap (l₁ ++ l₂) l') :
    ∃ l₁' l₂', l' = l₁' ++ l₂' ∧ Tried cap l₁ l₁' ∧ Lowered l₂ l₂' := by
  induction l₁ generalizing cap l' with
  | nil => exact ⟨[], l', rfl, .nil, h.lowered⟩
  | cons n l₁ ih =>
    cases h with
    | done h =>
      obtain ⟨l₁', l₂', rfl, h₁, h₂⟩ := ih h
      exact ⟨l₁', l₂', rfl, .done h₁, h₂⟩
    | @again _ _ m _ _ hlt h =>
      obtain ⟨l₁', l₂', rfl, h₁, h₂⟩ := ih h
      exact ⟨m :: l₁', l₂', rfl, .again hlt h₁, h₂⟩
    | rest h =>
      obtain ⟨l₁', l₂', rfl, h₁, h₂⟩ := h.append
      exact ⟨l₁', l₂', rfl, .rest h₁, h₂⟩

theorem Tried.lt (h : Tried cap l l') (hcap : l.length ≤ cap) (hn : ∀ x ∈ l, x ≤ N) : ∀ x ∈ l', x < N := by
  induction h with
  | nil => simp
  | done _ ih => exact ih (Nat.le_of_succ_le_succ hcap) fun x hx => hn x (List.mem_cons_of_mem _ hx)
  | @again _ n m l l' hlt _ ih =>
    intro x hx
    rcases List.mem_cons.mp hx with rfl | hx
    · exact Nat.lt_of_lt_of_le hlt (hn n (List.mem_cons_self ..))
    · exact ih (Nat.le_of_succ_le_succ hcap) (fun y hy => hn y (List.mem_cons_of_mem _ hy)) x hx
  | rest h =>
    have := h.length_le
    simp [List.length_eq_zero_iff.mp (Nat.le_zero.mp (Nat.le_trans this hcap))]

/-! ## Many rounds -/

theorem Rounds.lowered (h : Rounds cap n l l') :
    l'.length ≤ l.length ∧ ∀ N, (∀ x ∈ l, x ≤ N) → ∀ x ∈ l', x ≤ N := by
  induction h with
  | refl => exact ⟨Nat.le_refl _, fun _ hn => hn⟩
  | between _ hl ih => exact ⟨Nat.le_trans hl.length_le ih.1, fun N hn => hl.le (ih.2 N hn)⟩
  | round _ ht ih => exact ⟨Nat.le_trans ht.lowered.length_le ih.1, fun N hn => ht.lowered.le (ih.2 N hn)⟩

theorem Rounds.split {m k : Nat} (h : Rounds cap (m + k) l l') : ∃ l₁, Rounds cap m l l₁ ∧ Rounds cap k l₁ l' := by
  generalize hN : m + k = N at h
  induction h generalizing k with
  | refl =>
    obtain ⟨rfl, rfl⟩ := Nat.add_eq_zero_iff.mp hN
    exact ⟨_, .refl, .refl⟩
  | between _ hl ih =>
    obtain ⟨l₁, h₁, h₂⟩ := ih hN
    exact ⟨l₁, h₁, .between h₂ hl⟩
  | @round n a b c h ht ih =>
    cases k with
    | zero =>
      obtain rfl : m = n + 1 := hN
      exact ⟨_, .round h ht, .refl⟩
    | succ k =>
      obtain ⟨l₁, h₁, h₂⟩ := ih (Nat.succ.inj hN)
      exact ⟨l₁, h₁, .round h₂ ht⟩

/-- The entries at the head lose a try in each round, until they are gone. -/
theorem Rounds.head (h : Rounds cap n (l₁ ++ l₂) l') (hcap : l₁.length ≤ cap) (hN : ∀ x ∈ l₁, x ≤ N) :
    ∃ l₁' l₂', l' = l₁' ++ l₂' ∧ l₁'.length ≤ cap ∧ l₂'.length ≤ l₂.length ∧ ∀ x ∈ l₁', x + n ≤ N := by
  generalize hl : l₁ ++ l₂ = l at h
  induction h with
  | refl => exact ⟨l₁, l₂, hl.symm, hcap, Nat.le_refl _, hN⟩
  | between _ hlow ih =>
    obtain ⟨l₁', l₂', rfl, hlen, hlen', hx⟩ := ih hl
    obtain ⟨a, b, rfl, ha, hb⟩ := hlow.append
    refine ⟨a, b, rfl, Nat.le_trans ha.length_le hlen, Nat.le_trans hb.length_le hlen', ?_⟩
    intro x hxa
    by_cases hne : l₁' = []
    · subst hne
      cases ha
      cases hxa
    · have hn : ∀ y ∈ l₁', y ≤ N - _ := fun y hy => Nat.le_sub_of_add_le (hx y hy)
      have hle := ha.le hn x hxa
      obtain ⟨y, hy⟩ := List.exists_mem_of_ne_nil _ hne
      have := hx y hy
      omega
  | @round n _ _ _ _ ht ih =>
    obtain ⟨l₁', l₂', rfl, hlen, hlen', hx⟩ := ih hl
    obtain ⟨a, b, rfl, ha, hb⟩ := ht.append
    refine ⟨a, b, rfl, Nat.le_trans ha.lowered.length_le hlen, Nat.le_trans hb.length_le hlen', ?_⟩
    intro x hxa
    have hn : ∀ y ∈ l₁', y ≤ N - n := fun y hy => Nat.le_sub_of_add_le (hx y hy)
    have hlt := ha.lt hlen hn x hxa
    omega

theorem Rounds.shorter (h : Rounds cap (N + 1) l l') (hN : ∀ x ∈ l, x ≤ N) : l'.length ≤ l.length - cap := by
  rw [← List.take_append_drop cap l] at h
  obtain ⟨l₁', l₂', rfl, -, hlen, hx⟩ := h.head (List.length_take_le ..) fun x hx => hN x (List.mem_of_mem_take hx)
  have hnil : l₁' = [] := by
    cases l₁' with
    | nil => rfl
    | cons x _ =>
      have := hx x (List.mem_cons_self ..)
      omega
  rw [hnil, List.nil_append]
  simpa using hlen

/-- **Nothing waits forever.** -/
theorem Rounds.worked_off {j : Nat} (h : Rounds cap n l l') (hN : ∀ x ∈ l, x ≤ N) (hj : l.length ≤ cap * j)
    (hn : (N + 1) * j ≤ n) : l' = [] := by
  induction j generalizing l n with
  | zero =>
    have := h.lowered.1
    exact List.length_eq_zero_iff.mp (Nat.le_zero.mp (Nat.le_trans this hj))
  | succ j ih =>
    rw [Nat.mul_succ] at hn
    obtain ⟨m, rfl⟩ := Nat.le.dest (Nat.le_trans (Nat.le_add_left ..) hn)
    obtain ⟨l₁, h₁, h₂⟩ := h.split
    have hlen := h₁.shorter hN
    rw [Nat.mul_succ] at hj
    exact ih h₂ (h₁.lowered.2 N hN) (by omega) (by omega)

/-! ## Rows that wait -/

section
variable {ι : Type} {left : ι → Option Nat} {rows rows' : List ι}

def Less (left : ι → Option Nat) (x y : ι) : Prop := ∀ m, left y = some m → ∃ n, left x = some n ∧ m ≤ n

def Spends (left : ι → Option Nat) (x y : ι) : Prop := ∀ m, left y = some m → ∃ n, left x = some n ∧ m < n

theorem Less.refl (x : ι) : Less left x x := fun m hm => ⟨m, hm, Nat.le_refl m⟩

theorem Less.trans {x y z : ι} (h : Less left x y) (h' : Less left y z) : Less left x z := by
  intro m hm
  obtain ⟨n, hn, hle⟩ := h' m hm
  obtain ⟨k, hk, hle'⟩ := h n hn
  exact ⟨k, hk, Nat.le_trans hle hle'⟩

theorem Spends.less {x y : ι} (h : Spends left x y) : Less left x y := by
  intro m hm
  obtain ⟨n, hn, hlt⟩ := h m hm
  exact ⟨n, hn, Nat.le_of_lt hlt⟩

theorem Less.none {x y : ι} (h : Less left x y) (hx : left x = none) : left y = none := by
  cases hy : left y with
  | none => rfl
  | some m =>
    obtain ⟨n, hn, -⟩ := h m hy
    rw [hx] at hn
    cases hn

theorem lowered_rows (h : List.Forall₂ (Less left) rows rows') :
    Lowered (rows.filterMap left) (rows'.filterMap left) := by
  induction h with
  | nil => exact .nil
  | @cons x y l l' hxy _ ih =>
    cases hx : left x with
    | none =>
      rw [List.filterMap_cons_none hx, List.filterMap_cons_none (hxy.none hx)]
      exact ih
    | some n =>
      rw [List.filterMap_cons_some hx]
      cases hy : left y with
      | none =>
        rw [List.filterMap_cons_none hy]
        exact .done ih
      | some m =>
        obtain ⟨k, hk, hle⟩ := hxy m hy
        rw [hx] at hk
        cases hk
        rw [List.filterMap_cons_some hy]
        exact .left hle ih

theorem tried_rows {p : ι → Bool} (hp : ∀ x ∈ rows, p x = (left x).isSome) (h : List.Forall₂ (Less left) rows rows')
    (ht : List.Forall₂ (fun x y => x ∈ (rows.filter p).take cap → Spends left x y) rows rows') :
    Tried cap (rows.filterMap left) (rows'.filterMap left) := by
  induction rows generalizing rows' cap with
  | nil =>
    cases h
    exact .nil
  | cons x l ih =>
    cases h with
    | @cons _ y _ l' hxy hl =>
      obtain ⟨htx, htl⟩ := List.forall₂_cons.mp ht
      have hpl : ∀ z ∈ l, p z = (left z).isSome := fun z hz => hp z (List.mem_cons_of_mem _ hz)
      have hpx := hp x (List.mem_cons_self ..)
      cases hx : left x with
      | none =>
        rw [hx] at hpx
        rw [List.filterMap_cons_none hx, List.filterMap_cons_none (hxy.none hx)]
        rw [List.filter_cons_of_neg (by simp [hpx])] at htl
        exact ih hpl hl htl
      | some n =>
        rw [hx] at hpx
        rw [List.filter_cons_of_pos (by simp [hpx])] at htx htl
        cases cap with
        | zero => exact .rest (lowered_rows (.cons hxy hl))
        | succ cap =>
          rw [List.take_succ_cons] at htx htl
          have hrest := ih hpl hl (htl.imp fun z w hzw hz => hzw (List.mem_cons_of_mem _ hz))
          rw [List.filterMap_cons_some hx]
          cases hy : left y with
          | none =>
            rw [List.filterMap_cons_none hy]
            exact .done hrest
          | some m =>
            obtain ⟨k, hk, hlt⟩ := htx (List.mem_cons_self ..) m hy
            rw [hx] at hk
            cases hk
            rw [List.filterMap_cons_some hy]
            exact .again hlt hrest

end

end Backlog
