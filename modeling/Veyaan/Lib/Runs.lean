import Veyaan.Lib.Rely

/-!
# Runs, one configuration after the other

A run as a sequence of configurations, and where in it an entry of the trace
was made: what a labelled statement reports is the store at that moment.
-/

open Relation (ReflTransGen)

theorem sublist_of_concat_ne {V : Type} {l a : List V} {x y : V} (h : (l ++ [x]).Sublist (a ++ [y])) (hxy : x ≠ y) :
    (l ++ [x]).Sublist a := by
  have h' := h.reverse
  simp only [List.reverse_append, List.reverse_singleton, List.singleton_append] at h'
  cases h' with
  | cons _ h' => simpa using h'.reverse
  | cons_cons => exact absurd rfl hxy

namespace Sys

variable {D X K W R T V C ε : Type} {E : Type → Type} [DecidableEq K] (S : Sys D X K W R T V C ε E)

structure IsRun (init : D → X → Prop) (r : Nat → Config D X K W T V C ε E) (n : Nat) : Prop where
  init : Initial init (r 0)
  step : ∀ k < n, S.Step (r k) (r (k + 1))

def Entry (w : World D X K W V) (v : V) : Prop :=
  (∃ l ok, v = S.see l ok w.sh.db w.sh.ext) ∨ (∃ e, v = S.rejected e) ∨
    ∃ β, ∃ (e : E β) (ch : Bool), v ∈ (S.handle ch e w.sh.ext).2.2

section
variable {S} {init : D → X → Prop} {r : Nat → Config D X K W T V C ε E} {n : Nat}

theorem IsRun.mono {m : Nat} (h : S.IsRun init r n) (hm : m ≤ n) : S.IsRun init r m :=
  ⟨h.init, fun k hk => h.step k (Nat.lt_of_lt_of_le hk hm)⟩

theorem IsRun.runs (h : S.IsRun init r n) {a b : Nat} (hab : a ≤ b) (hb : b ≤ n) :
    ReflTransGen S.Step (r a) (r b) := by
  induction hab with
  | refl => exact .refl
  | @step b _ ih => exact (ih (Nat.le_of_succ_le hb)).tail (h.step b hb)

theorem IsRun.reachable (h : S.IsRun init r n) {a : Nat} (ha : a ≤ n) : S.Reachable init (r a) :=
  (Reachable.init h.init).runs (h.runs (Nat.zero_le a) ha)

theorem IsRun.extend {c' : Config D X K W T V C ε E} (h : S.IsRun init r n) (hs : S.Step (r n) c') :
    ∃ r', S.IsRun init r' (n + 1) ∧ r' n = r n ∧ r' (n + 1) = c' := by
  refine ⟨fun k => if k ≤ n then r k else c', ⟨by simpa using h.init, fun k hk => ?_⟩, if_pos (Nat.le_refl n),
    if_neg (Nat.not_succ_le_self n)⟩
  rcases Nat.lt_or_ge k n with hlt | hge
  · simp only [if_pos (Nat.le_of_lt hlt), if_pos (Nat.succ_le_of_lt hlt)]
    exact h.step k hlt
  · have : k = n := by omega
    subst this
    simp only [if_pos (Nat.le_refl k), if_neg (Nat.not_succ_le_self k)]
    exact hs

theorem Reachable.exists_run {c : Config D X K W T V C ε E} (h : S.Reachable init c) :
    ∃ r n, S.IsRun init r n ∧ r n = c := by
  induction h with
  | @init c h => exact ⟨fun _ => c, 0, ⟨h, by simp⟩, rfl⟩
  | step _ hs ih =>
    obtain ⟨r, n, hr, rfl⟩ := ih
    obtain ⟨r', hr', -, hlast⟩ := hr.extend hs
    exact ⟨r', n + 1, hr', hlast⟩

variable (hone : ∀ {β : Type} (ch : Bool) (e : E β) (x : X), (S.handle ch e x).2.2.length ≤ 1)
include hone

theorem exec_entry {i : Nat} {ch : Bool} {β : Type} {c : Prim D K W T ε E β} {w w' : World D X K W V} {a}
    (h : S.exec i ch c w = some (a, w')) : w'.sh.trace = w.sh.trace ∨
      ∃ v, w'.sh.trace = w.sh.trace ++ [(i, v)] ∧ S.Entry w v := by
  have hlabel : ∀ ok (t : Option T), (S.label w i ok t).sh.trace = w.sh.trace ∨
      ∃ v, (S.label w i ok t).sh.trace = w.sh.trace ++ [(i, v)] ∧ S.Entry w v := by
    intro ok t
    cases t with
    | none => exact .inl rfl
    | some t => exact .inr ⟨_, rfl, .inl ⟨t, ok, rfl⟩⟩
  cases exec_made h with
  | readFailed | read | freshFailed | fresh | forUpdate | commit => exact hlabel _ _
  | rejected => exact .inr ⟨_, rfl, .inr (.inl ⟨_, rfl⟩)⟩
  | @eff _ e =>
    have hlen := hone ch e w.sh.ext
    rcases hv : (S.handle ch e w.sh.ext).2.2 with _ | ⟨v, _ | ⟨v', l⟩⟩
    · exact .inl (by simp [World.say, Shared.say])
    · exact .inr ⟨v, by simp [World.say, Shared.say], .inr (.inr ⟨_, e, ch, by simp [hv]⟩)⟩
    · rw [hv] at hlen; simp at hlen
  | _ => exact .inl rfl

theorem step_entry {c c' : Config D X K W T V C ε E} (h : S.Step c c') : c'.world.sh.trace = c.world.sh.trace ∨
    ∃ i v, c'.world.sh.trace = c.world.sh.trace ++ [(i, v)] ∧ S.Entry c.world v := by
  cases h with
  | @run w w' ps i call _ q k ch a hp he =>
    exact (exec_entry hone he).imp_right fun ⟨v, ht, hv⟩ => ⟨i, v, ht, hv⟩
  | start => exact .inl rfl
  | env => exact .inl rfl

/-- Of two entries of one process, the second was made at a moment when the
first was already there. -/
theorem IsRun.pair (h : S.IsRun init r n) {i : Nat} {x y : V} (hs : [x, y].Sublist (own i (r n).world.sh.trace)) :
    ∃ b < n, (i, x) ∈ (r b).world.sh.trace ∧ S.Entry (r b).world y := by
  induction n with
  | zero => rw [h.init.trace] at hs; cases hs
  | succ n ih =>
    have hearlier : [x, y].Sublist (own i (r n).world.sh.trace) →
        ∃ b < n + 1, (i, x) ∈ (r b).world.sh.trace ∧ S.Entry (r b).world y := fun hs => by
      obtain ⟨b, hb, hxy⟩ := ih (h.mono (Nat.le_succ n)) hs
      exact ⟨b, by omega, hxy⟩
    rcases step_entry hone (h.step n (Nat.lt_succ_self n)) with ht | ⟨j, v, ht, hv⟩
    · rw [ht] at hs; exact hearlier hs
    rw [ht, own_append] at hs
    by_cases hj : j = i
    · subst hj
      rw [own_self] at hs
      obtain ⟨l₁, l₂, hl, h₁, h₂⟩ := List.sublist_append_iff.mp hs
      match l₂, h₂ with
      | [], _ => rw [List.append_nil] at hl; exact hearlier (hl ▸ h₁)
      | [u], h₂ =>
        obtain ⟨rfl, hu⟩ := List.append_inj' (show [x] ++ [y] = l₁ ++ [u] from hl) rfl
        cases hu
        rw [List.mem_singleton.mp (h₂.subset (List.mem_singleton.mpr rfl))]
        exact ⟨n, Nat.lt_succ_self n, mem_own.mp (h₁.subset (List.mem_singleton.mpr rfl)), hv⟩
      | _ :: _ :: _, h₂ => have := h₂.length_le; simp at this
    · rw [own_ne hj, List.append_nil] at hs
      exact hearlier hs

end

/-! ## What all rows have in common -/

def Puts (J : D → Prop) (φ : W → Prop) : (β : Type) → Prim D K W T ε E β → Prop
  | _, .stmt _ f => ∀ d ws, J d → f d = .ok ws → ∀ w ∈ ws, φ w
  | _, _ => True

section
variable {S} {J : D → Prop} {φ : W → Prop} (happly : ∀ d w, J d → φ w → J (S.apply w d))
include happly

omit [DecidableEq K] in
theorem applyAll_keeps : ∀ {ws : List W} {d : D}, J d → (∀ w ∈ ws, φ w) → J (S.applyAll ws d)
  | [], _, h, _ => h
  | w :: ws, d, h, hw => by
    rw [applyAll_cons]
    exact applyAll_keeps (happly d w h (hw w (List.mem_cons_self ..))) fun v hv => hw v (List.mem_cons_of_mem _ hv)

theorem exec_puts {i : Nat} {ch : Bool} {β : Type} {c : Prim D K W T ε E β} {w w' : World D X K W V} {r}
    (h : S.exec i ch c w = some (r, w')) (hc : Puts J φ β c) (hJ : J w.sh.db)
    (hw : ∀ j, ∀ v ∈ (w.sess j).pend, φ v) :
    J w'.sh.db ∧ ∀ j, ∀ v ∈ (w'.sess j).pend, φ v := by
  have hlabel : ∀ ok (t : Option T), (S.label w i ok t).sh.db = w.sh.db ∧ (S.label w i ok t).sess = w.sess := by
    intro ok t; cases t <;> exact ⟨rfl, rfl⟩
  have hset : ∀ (u : World D X K W V) s, u.sess = w.sess → (∀ v ∈ s.pend, φ v) →
      ∀ j, ∀ v ∈ ((u.setSess i s).sess j).pend, φ v := by
    intro u s hu hs j v hv
    simp only [World.setSess] at hv
    split at hv
    · exact hs v hv
    · rw [hu] at hv; exact hw j v hv
  have hfail : ∀ u : World D X K W V, u.sess = w.sess → ∀ j, ∀ v ∈ ((u.fail i).sess j).pend, φ v := fun u hu =>
    hset u _ hu (by rw [hu]; exact hw i)
  cases exec_made h with
  | readFailed => exact ⟨(hlabel _ _).1.symm ▸ hJ, hfail _ (hlabel _ _).2⟩
  | read | freshFailed | fresh => exact ⟨(hlabel _ _).1.symm ▸ hJ, (hlabel _ _).2.symm ▸ hw⟩
  | @forUpdate _ t => exact ⟨(hlabel true t).1.symm ▸ hJ, (hlabel true t).2.symm ▸ hw⟩
  | skipLocked => exact ⟨hJ, hw⟩
  | rejected => exact ⟨hJ, hfail (w.say i _) rfl⟩
  | @stmt _ _ ws _ _ _ hws =>
    refine ⟨hJ, hset _ _ rfl fun v hv => ?_⟩
    rcases List.mem_append.mp hv with hv | hv
    · exact hw i v hv
    · exact hc _ ws (applyAll_keeps happly hJ (hw i)) hws v hv
  | commit => exact ⟨applyAll_keeps happly hJ (hw i), hset _ _ (hlabel _ _).2 (by simp)⟩
  | rollback => exact ⟨hJ, hset w _ rfl (by simp)⟩
  | eff => exact ⟨hJ, hw⟩
  | _ => exact ⟨hJ, hfail w rfl⟩

/-- If all statements of all programs write rows of `φ`, the store keeps to `J`. -/
theorem Reachable.rows {init : D → X → Prop} (hinit : ∀ d x, init d x → J d)
    (hcode : ∀ call, (S.code call).All (Puts J φ)) {c : Config D X K W T V C ε E} (h : S.Reachable init c) :
    J c.world.sh.db := by
  suffices hall : J c.world.sh.db ∧ ∀ j, ∀ v ∈ (c.world.sess j).pend, φ v from hall.1
  induction h with
  | init h => exact ⟨hinit _ _ h.init, fun j v hv => by rw [h.sess j] at hv; cases hv⟩
  | step h hs ih =>
    cases hs with
    | run hp he =>
      have hop := Reachable.prog (Ψ := fun _ p => p.All (Puts J φ)) hcode (fun r h => h.2 r) h hp
      exact exec_puts happly he hop.1 ih.1 ih.2
    | start => exact ih
    | env => exact ih

end

end Sys
