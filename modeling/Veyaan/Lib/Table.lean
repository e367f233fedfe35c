import Mathlib.Data.List.Forall2
import Mathlib.Data.List.Nodup

/-!
# Tables with a primary key

A table is a list of rows in insertion order in which no key occurs twice.
`put` overwrites the row with its key, or appends a new one.
-/

class Keyed (ρ : Type) (κ : outParam Type) where
  key : ρ → κ

export Keyed (key)

structure Table (ρ : Type) {κ : Type} [Keyed ρ κ] where
  rows : List ρ
  nodup : (rows.map key).Nodup

namespace Table

variable {ρ κ : Type} [Keyed ρ κ] [DecidableEq κ]

def putRow (r : ρ) : List ρ → List ρ
  | [] => [r]
  | x :: xs => if key x = key r then r :: xs else x :: putRow r xs

theorem mem_putRow {r x : ρ} : ∀ {l : List ρ}, x ∈ putRow r l → x = r ∨ x ∈ l
  | [], h => by simpa [putRow] using h
  | y :: l, h => by
    unfold putRow at h
    split at h
    · rcases List.mem_cons.mp h with h | h
      · exact .inl h
      · exact .inr (List.mem_cons_of_mem _ h)
    · rcases List.mem_cons.mp h with rfl | h
      · exact .inr (List.mem_cons_self ..)
      · exact (mem_putRow h).imp id (List.mem_cons_of_mem _)

theorem nodup_putRow (r : ρ) : ∀ {l : List ρ}, (l.map key).Nodup → ((putRow r l).map key).Nodup
  | [], _ => by simp [putRow]
  | y :: l, h => by
    unfold putRow
    rw [List.map_cons, List.nodup_cons] at h
    split
    · rename_i he
      rw [List.map_cons, ← he, List.nodup_cons]
      exact h
    · rename_i he
      rw [List.map_cons, List.nodup_cons]
      refine ⟨fun hm => ?_, nodup_putRow r h.2⟩
      obtain ⟨x, hx, hk⟩ := List.mem_map.mp hm
      rcases mem_putRow hx with rfl | hx
      · exact he hk.symm
      · exact h.1 (hk ▸ List.mem_map_of_mem hx)

omit [DecidableEq κ] in
theorem nodup_filter {β : Type} (t : Table ρ) (p : ρ → Bool) {f : κ → β} (hf : Function.Injective f) :
    ((t.rows.filter p).map fun r => f (key r)).Nodup := by
  have := (t.nodup.sublist (List.filter_sublist.map key : (t.rows.filter p).map key |>.Sublist _)).map hf
  rwa [List.map_map] at this

def empty : Table ρ := ⟨[], List.nodup_nil⟩

def put (t : Table ρ) (r : ρ) : Table ρ := ⟨putRow r t.rows, nodup_putRow r t.nodup⟩

def find (t : Table ρ) (k : κ) : Option ρ := t.rows.find? (key · = k)

@[simp] theorem find_empty (k : κ) : (empty : Table ρ).find k = none := rfl

theorem find_none {t : Table ρ} {k : κ} (h : ∀ r ∈ t.rows, key r ≠ k) : t.find k = none := by
  simpa [find] using h

theorem find_putRow (r : ρ) (k : κ) : ∀ l : List ρ,
    (putRow r l).find? (key · = k) = if key r = k then some r else l.find? (key · = k)
  | [] => by by_cases h : key r = k <;> simp [putRow, h]
  | y :: l => by
    have ih := find_putRow r k l
    unfold putRow
    split
    · rename_i he
      by_cases h : key r = k
      · simp [h]
      · simp [h, he]
    · rename_i he
      by_cases h : key y = k
      · have : key r ≠ k := fun hr => he (h.trans hr.symm)
        simp [h, this]
      · simp [h, ih]

theorem find_put (t : Table ρ) (r : ρ) (k : κ) :
    (t.put r).find k = if key r = k then some r else t.find k := find_putRow r k t.rows

@[simp] theorem find_put_self (t : Table ρ) (r : ρ) : (t.put r).find (key r) = some r := by
  simp [find_put]

theorem find_put_ne (t : Table ρ) {r : ρ} {k : κ} (h : key r ≠ k) : (t.put r).find k = t.find k := by
  simp [find_put, h]

theorem putRow_putRow {a b : ρ} (h : key a = key b) : ∀ l : List ρ, putRow b (putRow a l) = putRow b l
  | [] => by simp [putRow, h]
  | y :: l => by
    by_cases hy : key y = key a
    · simp [putRow, hy, h]
    · have hb : key y ≠ key b := h ▸ hy
      simp [putRow, hy, hb, putRow_putRow h l]

theorem put_put (t : Table ρ) {a b : ρ} (h : key a = key b) : (t.put a).put b = t.put b := by
  simp only [put, putRow_putRow h]

theorem putRow_new {r : ρ} : ∀ {l : List ρ}, l.find? (key · = key r) = none → putRow r l = l ++ [r]
  | [], _ => rfl
  | x :: l, h => by
    rw [List.find?_cons] at h
    by_cases hx : key x = key r
    · simp [hx] at h
    · simp only [putRow, hx, if_false, List.cons_append]
      rw [putRow_new (by simpa [hx] using h)]

theorem rows_put_new {t : Table ρ} {r : ρ} (h : t.find (key r) = none) :
    (t.put r).rows = t.rows ++ [r] := putRow_new h

theorem key_of_find {t : Table ρ} {k : κ} {r : ρ} (h : t.find k = some r) : key r = k := by
  simpa using List.find?_some h

theorem mem_of_find {t : Table ρ} {k : κ} {r : ρ} (h : t.find k = some r) : r ∈ t.rows :=
  List.mem_of_find?_eq_some h

theorem find_of_mem {t : Table ρ} {r : ρ} (h : r ∈ t.rows) : t.find (key r) = some r := by
  obtain ⟨rows, hn⟩ := t
  simp only [find] at h ⊢
  induction rows with
  | nil => cases h
  | cons y l ih =>
    rw [List.map_cons, List.nodup_cons] at hn
    rcases List.mem_cons.mp h with rfl | h
    · simp
    · have : key y ≠ key r := fun he => hn.1 (he ▸ List.mem_map_of_mem h)
      simp only [List.find?_cons, this, decide_false]
      exact ih hn.2 h

theorem mem_iff_find {t : Table ρ} {r : ρ} : r ∈ t.rows ↔ t.find (key r) = some r :=
  ⟨find_of_mem, mem_of_find⟩

theorem mem_put {t : Table ρ} {r x : ρ} : x ∈ (t.put r).rows ↔ x = r ∨ (key x ≠ key r ∧ x ∈ t.rows) := by
  rw [mem_iff_find, mem_iff_find, find_put]
  by_cases h : key r = key x
  · simp only [h, ite_true, Option.some.injEq, ne_eq, not_true_eq_false, false_and, or_false]
    exact eq_comm
  · have hx : x ≠ r := fun he => h (by rw [he])
    simp [h, hx, Ne.symm h]

theorem countP_putRow {r : ρ} {p : ρ → Bool} : ∀ {l : List ρ}, (∀ a, l.find? (key · = key r) = some a → p a = p r) →
    (putRow r l).countP p = l.countP p + if (l.find? (key · = key r)).isNone && p r then 1 else 0
  | [], _ => by simp [putRow, List.countP_cons]
  | y :: l, h => by
    unfold putRow
    by_cases hy : key y = key r
    · have := h y (by simp [hy])
      simp [hy, List.countP_cons, this]
    · have hl : (y :: l).find? (key · = key r) = l.find? (key · = key r) := by simp [hy]
      rw [hl] at h ⊢
      rw [if_neg hy, List.countP_cons, List.countP_cons, countP_putRow h]
      omega

theorem countP_put {t : Table ρ} {r : ρ} {p : ρ → Bool} (h : ∀ a, t.find (key r) = some a → p a = p r) :
    (t.put r).rows.countP p = t.rows.countP p + if (t.find (key r)).isNone && p r then 1 else 0 :=
  countP_putRow h

/-- A row that is overwritten by a related one, or inserted, leaves every row
related to what it was. -/
theorem put_related {R : ρ → ρ → Prop} (hr : ∀ a, R a a) {t : Table ρ} {r : ρ}
    (h : ∀ a, t.find (key r) = some a → R a r) (k : κ) (a : ρ) (ha : t.find k = some a) :
    ∃ b, (t.put r).find k = some b ∧ R a b := by
  rw [find_put]
  by_cases hk : key r = k
  · subst hk; exact ⟨r, by simp, h a ha⟩
  · exact ⟨a, by simp [hk, ha], hr a⟩

/-! ## Places -/

/-- Rows that are found again, related by `R`, and those found again after that. -/
theorem find_trans {R : ρ → ρ → Prop} (hR : ∀ {x y z}, R x y → R y z → R x z) {t t' t'' : Table ρ}
    (h : ∀ k x, t.find k = some x → ∃ y, t'.find k = some y ∧ R x y)
    (h' : ∀ k x, t'.find k = some x → ∃ y, t''.find k = some y ∧ R x y) (k : κ) (x : ρ)
    (hx : t.find k = some x) : ∃ z, t''.find k = some z ∧ R x z := by
  obtain ⟨y, hy, hxy⟩ := h k x hx
  obtain ⟨z, hz, hyz⟩ := h' k y hy
  exact ⟨z, hz, hR hxy hyz⟩

theorem keys_put (t : Table ρ) (r : ρ) : t.rows.map key <+: (t.put r).rows.map key := by
  show t.rows.map key <+: (putRow r t.rows).map key
  generalize t.rows = l
  induction l with
  | nil => exact List.nil_prefix
  | cons x l ih =>
    unfold putRow
    split
    · rename_i he
      exact ⟨[], by simp [he]⟩
    · rw [List.map_cons, List.map_cons]
      exact (List.prefix_cons_inj _).mpr ih

section
variable {t t' : Table ρ} (hkeys : t.rows.map key <+: t'.rows.map key)
include hkeys

theorem find_place {i : Nat} {x : ρ} (hx : t.rows[i]? = some x) :
    ∃ y, t'.rows[i]? = some y ∧ t'.find (key x) = some y := by
  have hkey : (t'.rows.map key)[i]? = some (key x) := by
    obtain ⟨l, hl⟩ := hkeys
    rw [← hl, List.getElem?_append_left, List.getElem?_map, hx]
    · rfl
    · simpa using (List.getElem?_eq_some_iff.mp hx).1
  rw [List.getElem?_map] at hkey
  obtain ⟨y, hy, hyx⟩ := Option.map_eq_some_iff.mp hkey
  refine ⟨y, hy, ?_⟩
  rw [← hyx]
  exact find_of_mem (List.mem_of_getElem? hy)

theorem forall₂_take {R : ρ → ρ → Prop} (hR : ∀ x ∈ t.rows, ∀ y, t'.find (key x) = some y → R x y) {k : Nat}
    (hk : k ≤ t.rows.length) : List.Forall₂ R (t.rows.take k) (t'.rows.take k) := by
  have hlen : t.rows.length ≤ t'.rows.length := by simpa using hkeys.length_le
  refine List.forall₂_iff_get.mpr ⟨by simp [hk, Nat.le_trans hk hlen], fun i h h' => ?_⟩
  simp only [List.length_take, Nat.lt_min] at h h'
  simp only [List.get_eq_getElem, List.getElem_take]
  obtain ⟨y, hy, hfind⟩ := find_place hkeys (List.getElem?_eq_getElem h.2)
  rw [List.getElem?_eq_getElem h'.2] at hy
  cases hy
  exact hR _ (List.getElem_mem h.2) _ hfind

end

end Table
