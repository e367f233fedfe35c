import Veyaan.Lib.Chain
import Veyaan.Lib.Claims
import Veyaan.Lib.Table

/-!
# Unique indexes

An index gives every row of a table a key, and no two rows may have the same. A
statement that makes a new entry checks the store that it sees, which is without
the rows that other sessions have written but not committed; so it locks the key
as well, to the end of its transaction. Under these two conditions on the single
statements no run ever commits two rows with one key.
-/

namespace Table

variable {ρ κ γ : Type} [Keyed ρ κ] [DecidableEq κ] {t : Table ρ} {g : ρ → γ}

def Under (t : Table ρ) (g : ρ → γ) (k : γ) (id : κ) : Prop := ∃ r, t.find id = some r ∧ g r = k

theorem under_put_same {r : ρ} (h : t.Under g (g r) (key r)) (k : γ) (id : κ) : (t.put r).Under g k id ↔
    t.Under g k id := by
  unfold Under
  rw [find_put]
  by_cases hid : key r = id
  · subst hid
    obtain ⟨r', hr', hg⟩ := h
    simp [hr', hg]
  · simp [hid]

theorem under_put_new {r : ρ} (h : t.find (key r) = none) (k : γ) (id : κ) :
    (t.put r).Under g k id ↔ t.Under g k id ∨ k = g r ∧ id = key r := by
  unfold Under
  rw [find_put]
  by_cases hid : key r = id
  · subst hid
    simp [h, eq_comm]
  · simp [hid, Ne.symm hid]

end Table

namespace Sys

variable {D X K W R T V C ε : Type} {E : Type → Type} (S : Sys D X K W R T V C ε E)

/-- An index with keys in `κ` over rows that `ι` names. -/
structure Index (κ ι : Type) where
  has : D → κ → ι → Prop
  /-- What is locked for a new entry. -/
  entry : κ → K
  row : ι → K
  /-- The row alone decides which key it has. -/
  congr : ∀ {d d' j}, S.row (row j) d = S.row (row j) d' → ∀ k, has d k j → has d' k j

variable {S} {κ ι : Type} (x : S.Index κ ι)

namespace Index

def Unique (d : D) : Prop := ∀ k j j', x.has d k j → x.has d k j' → j = j'

def Kept (ks : List K) (d d' : D) : Prop :=
  (∀ k j, x.has d k j → x.has d' k j) ∧
    ∀ k j, x.has d' k j → x.has d k j ∨ x.entry k ∈ ks ∧ ∀ j', x.has d' k j' → j' = j

def Keeps (β : Type) : Prim D K W T ε E β → Prop
  | .stmt ks f => ∀ d ws, f d = .ok ws → x.Kept (ks d) d (S.applyAll ws d)
  | _ => True

/-- What process `i` sees: all that is committed, and besides only entries that it has
locked; no key twice. -/
structure Sound (w : World D X K W V) (i : Nat) : Prop where
  kept : ∀ k j, x.has w.sh.db k j → x.has (S.view w i) k j
  owned : ∀ k j, x.has (S.view w i) k j → x.has w.sh.db k j ∨ w.locks (x.entry k) = some i
  unique : x.Unique (S.view w i)

section
variable {x} {d : D} {ws : List W} {ks : D → List K} {f : D → Except ε (List W)}

theorem applyAll_same (h : ∀ w ∈ ws, ∀ d', (∀ k j, x.has d' k j ↔ x.has d k j) →
    ∀ k j, x.has (S.apply w d') k j ↔ x.has d' k j) :
    ∀ k j, x.has (S.applyAll ws d) k j ↔ x.has d k j := by
  suffices hall : ∀ (vs : List W) d', (∀ w ∈ vs, w ∈ ws) → (∀ k j, x.has d' k j ↔ x.has d k j) →
      ∀ k j, x.has (S.applyAll vs d') k j ↔ x.has d k j from hall ws d (fun _ hw => hw) fun _ _ => Iff.rfl
  intro vs
  induction vs with
  | nil => exact fun _ _ hd => hd
  | cons w vs ih =>
    intro d' hw hd
    refine ih _ (fun v hv => hw v (List.mem_cons_of_mem _ hv)) fun k j => ?_
    exact (h w (hw w (List.mem_cons_self ..)) d' hd k j).trans (hd k j)

theorem kept_same {ks : List K} {d' : D} (h : ∀ k j, x.has d' k j ↔ x.has d k j) : x.Kept ks d d' :=
  ⟨fun k j => (h k j).mpr, fun k j hj => .inl ((h k j).mp hj)⟩

/-- One new entry, under a key that has been free. -/
theorem kept_new {ks : List K} {d' : D} (k₀ : κ) (j₀ : ι) (h : ∀ k j, x.has d' k j ↔ x.has d k j ∨ k = k₀ ∧ j = j₀)
    (hfree : ∀ j, ¬ x.has d k₀ j) (hk : x.entry k₀ ∈ ks) : x.Kept ks d d' := by
  refine ⟨fun k j hj => (h k j).mpr (.inl hj), fun k j hj => ?_⟩
  rcases (h k j).mp hj with hj | ⟨rfl, rfl⟩
  · exact .inl hj
  · refine .inr ⟨hk, fun j' hj' => ?_⟩
    rcases (h _ j').mp hj' with hj' | ⟨-, hj'⟩
    · exact absurd hj' (hfree j')
    · exact hj'

end

variable {x} {w w' : World D X K W V} {i l : Nat}

theorem Sound.store (h : x.Sound w i) : x.Unique w.sh.db :=
  fun k j j' hj hj' => h.unique k j j' (h.kept k j hj) (h.kept k j' hj')

theorem sound_idle (h : x.Unique w.sh.db) (hp : (w.sess i).pend = []) : x.Sound w i := by
  have hv : S.view w i = w.sh.db := by rw [view, hp, applyAll_nil]
  refine ⟨?_, ?_, ?_⟩
  · rw [hv]
    exact fun _ _ hk => hk
  · rw [hv]
    exact fun _ _ hk => .inl hk
  · rw [hv]
    exact h

theorem Sound.of_same (h : x.Sound w l) (hd : w'.sh.db = w.sh.db) (hp : (w'.sess l).pend = (w.sess l).pend)
    (hk : ∀ k, w.locks k = some l → w'.locks k = some l) : x.Sound w' l := by
  have hv : S.view w' l = S.view w l := by rw [view, view, hp, hd]
  refine ⟨?_, ?_, ?_⟩
  · rw [hv, hd]
    exact h.kept
  · rw [hv, hd]
    exact fun k j hj => (h.owned k j hj).imp_right (hk _)
  · rw [hv]
    exact h.unique

theorem Sound.write {ws : List W} (h : x.Sound w i) (hd : w'.sh.db = w.sh.db)
    (hp : (w'.sess i).pend = (w.sess i).pend ++ ws) (hk : ∀ k, w.locks k = some i → w'.locks k = some i)
    (hkeep : ∀ k j, x.has (S.view w i) k j → x.has (S.applyAll ws (S.view w i)) k j)
    (hnew : ∀ k j, x.has (S.applyAll ws (S.view w i)) k j → x.has (S.view w i) k j ∨
      w'.locks (x.entry k) = some i ∧ ∀ j', x.has (S.applyAll ws (S.view w i)) k j' → j' = j) : x.Sound w' i := by
  have hv : S.view w' i = S.applyAll ws (S.view w i) := by rw [view, hp, hd, applyAll_append, ← view]
  refine ⟨?_, ?_, ?_⟩
  · rw [hv, hd]
    exact fun k j hj => hkeep k j (h.kept k j hj)
  · rw [hv, hd]
    intro k j hj
    rcases hnew k j hj with hold | ⟨hlock, -⟩
    · exact (h.owned k j hold).imp_right (hk _)
    · exact .inr hlock
  · rw [hv]
    intro k j j' hj hj'
    rcases hnew k j hj with hold | ⟨-, hone⟩
    · rcases hnew k j' hj' with hold' | ⟨-, hone⟩
      · exact h.unique k j j' hold hold'
      · exact hone j hj
    · exact (hone j' hj').symm

/-- The row of an entry, in the eyes of a process that `i` commits next to: as it was
before, when the process has written it, and as committed otherwise. -/
theorem row_after_commit (hl : S.LockOk w) (hil : i ≠ l) (hd : w'.sh.db = S.view w i) (hs : w'.sess l = w.sess l)
    (key : K) : (S.row key (S.view w' l) = S.row key (S.view w l) ∧ S.row key w'.sh.db = S.row key w.sh.db) ∨
      S.row key (S.view w' l) = S.row key w'.sh.db := by
  by_cases hw : ∃ v ∈ (w.sess l).pend, key ∈ S.keys v
  · left
    obtain ⟨v, hv, hkv⟩ := hw
    have hlock : w.locks key = some l := hl l v hv key hkv
    have hrow : S.row key w'.sh.db = S.row key w.sh.db := by
      rw [hd]
      refine S.row_applyAll _ fun u hu hku => hil ?_
      have := hl i u hu key hku
      rw [hlock] at this
      exact (Option.some.inj this).symm
    refine ⟨?_, hrow⟩
    rw [view, view, hs]
    exact row_congr _ hrow
  · right
    rw [view, hs]
    exact S.row_applyAll _ fun v hv hkv => hw ⟨v, hv, hkv⟩

theorem Sound.commit (h : x.Sound w l) (hi : x.Sound w i) (hl : S.LockOk w) (hil : i ≠ l)
    (hd : w'.sh.db = S.view w i) (hs : w'.sess l = w.sess l) (hk : ∀ k, w.locks k = some l → w'.locks k = some l) :
    x.Sound w' l := by
  have hrow := fun j => row_after_commit (S := S) hl hil hd hs (x.row j)
  -- what the process sees was there before, or is committed now
  have hsees : ∀ k j, x.has (S.view w' l) k j → x.has (S.view w l) k j ∨ x.has w'.sh.db k j := by
    intro k j hj
    rcases hrow j with ⟨hv, -⟩ | hv
    · exact .inl (x.congr hv k hj)
    · exact .inr (x.congr hv k hj)
  have hold : ∀ k j, x.has w.sh.db k j → x.has w'.sh.db k j := by
    intro k j hj
    rw [hd]
    exact hi.kept k j hj
  -- an entry that one has and the other commits was committed before
  have hmix : ∀ k j j', x.has (S.view w l) k j → x.has w'.sh.db k j' → j = j' := by
    intro k j j' hj hj'
    rw [hd] at hj'
    rcases h.owned k j hj with hc | hlock
    · exact hi.unique k j j' (hi.kept k j hc) hj'
    · rcases hi.owned k j' hj' with hc | hlock'
      · exact h.unique k j j' hj (h.kept k j' hc)
      · rw [hlock] at hlock'
        exact absurd (Option.some.inj hlock').symm hil
  refine ⟨fun k j hj => ?_, fun k j hj => ?_, fun k j j' hj hj' => ?_⟩
  · rcases hrow j with ⟨hv, hdb⟩ | hv
    · exact x.congr hv.symm k (h.kept k j (x.congr hdb k hj))
    · exact x.congr hv.symm k hj
  · rcases hsees k j hj with hj | hj
    · exact (h.owned k j hj).imp (hold k j) (hk _)
    · exact .inl hj
  · rcases hsees k j hj with hj | hj
    · rcases hsees k j' hj' with hj' | hj'
      · exact h.unique k j j' hj hj'
      · exact hmix k j j' hj hj'
    · rcases hsees k j' hj' with hj' | hj'
      · exact (hmix k j' j hj' hj).symm
      · rw [hd] at hj hj'
        exact hi.unique k j j' hj hj'

section
variable [DecidableEq K]

theorem Sound.of_moved (h : x.Sound w i) (hm : S.Moved i w w') (hd : w'.sh.db = w.sh.db)
    (hp : (w'.sess i).pend = (w.sess i).pend) (hu : x.Unique w.sh.db) : x.Sound w' i := by
  cases hm with
  | quiet hk => exact h.of_same hd hp fun k hlk => by rw [hk]; exact hlk
  | lock ks _ _ _ hin hout =>
    refine h.of_same hd hp fun k hlk => ?_
    by_cases hks : k ∈ ks
    · exact hin k hks
    · rw [hout k hks]
      exact hlk
  | done u _ _ _ he =>
    subst he
    refine sound_idle ?_ (by rw [(World.release_idle u i).sess])
    rw [hd]
    exact hu

/-- A statement keeps the process that makes it sound. -/
theorem exec_sound_self {β : Type} {c : Prim D K W T ε E β} {ch : Bool} {r} (hc : x.Keeps β c)
    (h : S.exec i ch c w = some (r, w')) (hs : x.Sound w i) : x.Sound w' i := by
  have hm := exec_moved h
  have hsame := fun hd hp => hs.of_moved hm hd hp hs.store
  have hfail : ∀ u : World D X K W V, u.sess = w.sess → ((u.fail i).sess i).pend = (w.sess i).pend := fun u hu => by
    simp [World.fail, World.setSess, hu]
  have hlab := fun ok t => label_parts (S := S) (w := w) (i := i) ok t
  cases exec_made h with
  | readFailed => exact hsame (hlab _ _).2.2 (hfail _ (hlab _ _).2.1)
  | read | freshFailed | fresh => exact hsame (hlab _ _).2.2 (by rw [(hlab _ _).2.1])
  | forUpdate => exact hsame (hlab _ _).2.2 (by rw [World.lockAll, (hlab _ _).2.1])
  | skipLocked => exact hsame rfl rfl
  | rejected => exact hsame rfl (hfail _ rfl)
  | @stmt ks _ ws lks _ _ hws hlks =>
    obtain ⟨hkeep, hnew⟩ := hc _ ws hws
    have hlock : ∀ k ∈ lks, (w.lockAll i lks).locks k = some i := fun k hk => if_pos hk
    refine hs.write rfl (by simp [World.setSess]) (fun k hk => ?_) hkeep fun k j hj => ?_
    · by_cases hks : k ∈ lks
      · exact hlock k hks
      · exact (if_neg hks).trans hk
    · refine (hnew k j hj).imp_right (And.imp_left fun hks => hlock _ ?_)
      rw [hlks]
      exact List.mem_append_left _ hks
  | commit => exact sound_idle hs.unique (by rw [(World.release_idle _ i).sess])
  | rollback => exact sound_idle hs.store (by rw [(World.release_idle _ i).sess])
  | eff => exact hsame rfl rfl
  | _ => exact hsame rfl (hfail w rfl)

theorem exec_sound {β : Type} {c : Prim D K W T ε E β} {ch : Bool} {r} (hl : S.LockOk w) (hc : x.Keeps β c)
    (h : S.exec i ch c w = some (r, w')) (hs : ∀ l, x.Sound w l) (l : Nat) : x.Sound w' l := by
  by_cases hil : i = l
  · subst hil
    exact exec_sound_self hc h (hs i)
  · have hm := exec_moved h
    obtain ⟨hsess, hk, -⟩ := hm.leaves hl hil
    have hsame : w'.sh.db = w.sh.db → x.Sound w' l := fun hd => (hs l).of_same hd (by rw [hsess]) hk
    cases hm with
    | quiet _ _ _ hd => exact hsame hd
    | lock _ _ _ _ _ _ _ _ hd => exact hsame hd
    | done u _ _ hd he =>
      rcases hd with hd | hd
      · exact hsame (by rw [he]; exact hd)
      · exact (hs l).commit (hs i) hl hil (by rw [he]; exact hd) hsess hk

/-- **A unique index holds** in every run of programs whose statements keep it. -/
theorem reachable_unique {init : D → X → Prop} (hinit : ∀ d e, init d e → x.Unique d)
    (hcode : ∀ call, (S.code call).All x.Keeps) {c : Config D X K W T V C ε E} (h : S.Reachable init c) :
    x.Unique c.world.sh.db := by
  suffices hall : ∀ l, x.Sound c.world l from (hall 0).store
  induction h with
  | init h => exact fun l => sound_idle (hinit _ _ h.init) (by rw [h.sess l])
  | @step a b ha hs ih =>
    cases hs with
    | run hp he =>
      have hop := Reachable.prog (Ψ := fun _ p => p.All x.Keeps) hcode (fun r h => h.2 r) ha hp
      exact exec_sound ha.lockOk hop.1 he ih
    | start => exact ih
    | env => exact fun l => (ih l).of_same rfl rfl fun _ hk => hk

end

end Index

end Sys
