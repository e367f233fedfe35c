import Mathlib.Data.List.Basic

/-!
# Counters that expire

A counter of a key-value store with lifetimes. Every hit adds one and sets the
lifetime anew, so that the counter starts again only after a pause as long as the
lifetime that the hit before it has set. What it says after a list of hits, the
newest first, depends on the pauses between them alone.
-/

structure Hit where
  time : Nat
  lifetime : Nat
  deriving DecidableEq

structure Counter where
  value : Nat
  expires : Nat

namespace Counter

def live (c : Option Counter) (time : Nat) : Option Counter := c.filter (time < ·.expires)

def hit (c : Option Counter) (h : Hit) : Counter where
  value := ((live c h.time).map value).getD 0 + 1
  expires := h.time + h.lifetime

def after : List Hit → Option Counter
  | [] => none
  | h :: hs => some (hit (after hs) h)

end Counter

def Hit.Near (newer older : Hit) : Prop := newer.time < older.time + older.lifetime

instance : DecidableRel Hit.Near := fun _ _ => inferInstanceAs (Decidable (_ < _))

/-- The newest hit is among the first `n` since the last pause: there are no more
than `n` in all, or there is a pause among the last `n + 1`. -/
def Rested (n : Nat) (hs : List Hit) : Prop := hs.length ≤ n ∨ ¬ (hs.take (n + 1)).IsChain Hit.Near

instance (n : Nat) (hs : List Hit) : Decidable (Rested n hs) := inferInstanceAs (Decidable (_ ∨ _))

namespace Counter

theorem hit_after_near {h h' : Hit} {hs : List Hit} (hn : h.Near h') :
    (hit (after (h' :: hs)) h).value = (hit (after hs) h').value + 1 := by
  have hl : h.time < (hit (after hs) h').expires := hn
  simp [hit, after, live, Option.filter, show h.time < h'.time + h'.lifetime from hl]

theorem hit_after_pause {h h' : Hit} {hs : List Hit} (hn : ¬ h.Near h') : (hit (after (h' :: hs)) h).value = 1 := by
  have hl : ¬ h.time < h'.time + h'.lifetime := hn
  simp [hit, after, live, Option.filter, hl]

/-- The counter says more than `n` after more than `n` hits without a pause. -/
theorem lt_value_iff : ∀ (n : Nat) (h : Hit) (hs : List Hit), n < (hit (after hs) h).value ↔ ¬ Rested n (h :: hs)
  | 0, h, hs => by simp [Rested, hit]
  | n + 1, h, [] => by simp [Rested, hit, after, live]
  | n + 1, h, h' :: hs => by
    by_cases hn : h.Near h'
    · rw [hit_after_near hn, Nat.add_lt_add_iff_right, lt_value_iff n h' hs]
      simp [Rested, hn]
    · rw [hit_after_pause hn]
      simp [Rested, hn]

theorem value_le_iff {n : Nat} {h : Hit} {hs : List Hit} : (hit (after hs) h).value ≤ n ↔ Rested n (h :: hs) := by
  rw [← Nat.not_lt, lt_value_iff, Classical.not_not]

end Counter

theorem not_rested_of_close {s w : Nat} : ∀ {n : Nat} {hs : List Hit},
    hs.Pairwise (fun newer older => older.time ≤ newer.time) →
    (∀ h ∈ hs, w ≤ h.lifetime) → (∀ h ∈ hs.head?, h.time < s + w) → n < (hs.filter fun h => s ≤ h.time).length →
    ¬ Rested n hs
  | _, [], _, _, _, hn => by simp at hn
  | 0, h :: hs, _, _, _, _ => by simp [Rested]
  | n + 1, h :: hs, hsort, hlife, hnew, hn => by
    obtain ⟨hold, hsort'⟩ := List.pairwise_cons.mp hsort
    have hlt : h.time < s + w := hnew h rfl
    have hlen : n < (hs.filter fun h => s ≤ h.time).length := by
      have := List.length_filter_le (fun h : Hit => decide (s ≤ h.time)) [h]
      rw [← List.singleton_append, List.filter_append, List.length_append] at hn
      simp only [List.length_singleton] at this
      omega
    cases hs with
    | nil => simp at hlen
    | cons h' hs =>
      obtain ⟨x, hx⟩ := List.exists_mem_of_length_pos (Nat.lt_of_le_of_lt (Nat.zero_le n) hlen)
      obtain ⟨hmem, hge⟩ := List.mem_filter.mp hx
      have hge : s ≤ x.time := by simpa using hge
      -- the next hit is in the interval too, as a hit that is no newer is
      have hs' : s ≤ h'.time := by
        rcases List.mem_cons.mp hmem with rfl | hmem
        · exact hge
        · exact Nat.le_trans hge ((List.pairwise_cons.mp hsort').1 x hmem)
      have hnear : h.Near h' := by
        have := hlife h' (by simp)
        unfold Hit.Near
        omega
      have hle := hold h' (by simp)
      have ih := not_rested_of_close (n := n) hsort' (fun x hx => hlife x (List.mem_cons_of_mem _ hx))
        (fun x hx => by cases hx; exact Nat.lt_of_le_of_lt hle hlt) hlen
      intro hr
      apply ih
      rcases hr with hr | hr
      · exact .inl (by simpa using hr)
      · refine .inr fun hc => hr ?_
        simpa [hnear] using hc
