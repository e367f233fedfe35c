import Mathlib.Data.Finset.Max
import Mathlib.Data.List.Perm.Basic
import Mathlib.Logic.Hydra
import Veyaan.Lib.LockOrder
import Veyaan.Lib.Serial
import Veyaan.Lib.UniqueIndex

/-!
# Who waits for whom

Programs that lock in order, run side by side. Among the processes that wait, take the
one whose lock has the highest level: the process that holds this lock waits for none,
or is one that is not strict, and then the next one waits for none.
-/

open Relation (ReflTransGen)

inductive Prog.Rest {P : Type → Type 1} {ε α : Type} : Prog P ε α → Prog P ε α → Prop
  | mk {β : Type} {c : P β} {k : Except ε β → Prog P ε α} (r : Except ε β) : Rest (k r) (.op c k)

theorem Prog.rest_wf {P : Type → Type 1} {ε α : Type} : WellFounded (Prog.Rest (P := P) (ε := ε) (α := α)) := by
  refine ⟨fun p => ?_⟩
  induction p with
  | ret | throw => exact ⟨_, fun q h => by cases h⟩
  | op c k ih =>
    refine ⟨_, fun q h => ?_⟩
    cases h with
    | mk r => exact ih r

namespace Sys

variable {D X K W R T V C ε α β : Type} {E : Type → Type} (S : Sys D X K W R T V C ε E)

/-- Of the processes that have not ended, one at most is not strict. -/
def OneLax (strict : C → Bool) (c : Config D X K W T V C ε E) : Prop :=
  ∀ (i j : Nat) (p q : Proc D K W T C ε E), c.procs[i]? = some p → c.procs[j]? = some q → p.prog.ended = false →
    q.prog.ended = false → strict p.call = false → strict q.call = false → i = j

def Waits [DecidableEq K] (c : Config D X K W T V C ε E) (i : Nat) : Prop :=
  ∃ (call : C) (β : Type) (s : Prim D K W T ε E β) (k : Except ε β → Prog (Prim D K W T ε E) ε Unit),
    c.procs[i]? = some ⟨call, .op s k⟩ ∧ S.exec i true s c.world = none

/-- The next step of a process that has started; the environment may have acted before. -/
inductive Goes [DecidableEq K] : Config D X K W T V C ε E → Config D X K W T V C ε E → Prop
  | mk {w w' : World D X K W V} {ps : List (Proc D K W T C ε E)} {i : Nat} {call : C} {x : X} {β : Type}
      {s : Prim D K W T ε E β} {k : Except ε β → Prog (Prim D K W T ε E) ε Unit} {ch : Bool} {r : Except ε β} :
      ReflTransGen (S.env w.sh.db) w.sh.ext x → ps[i]? = some ⟨call, .op s k⟩ →
      S.exec i ch s { w with sh.ext := x } = some (r, w') → Goes ⟨w, ps⟩ ⟨w', ps.set i ⟨call, k r⟩⟩

/-- However the processes that have started take turns, they come to their ends: as long
as one has not ended there is a next step, and there are only so many. -/
inductive Settles [DecidableEq K] : Config D X K W T V C ε E → Prop
  | mk {c} : ((∀ p ∈ c.procs, p.prog.ended = true) ∨ ∃ c', S.Goes c c') →
      (∀ c', S.Goes c c' → Settles c') → Settles c

section
variable {S} [DecidableEq K] {init : D → X → Prop} {strict : C → Bool} {c c' : Config D X K W T V C ε E}

theorem Reachable.env_steps {w : World D X K W V} {ps : List (Proc D K W T C ε E)} {x : X}
    (h : S.Reachable init ⟨w, ps⟩)
    (hx : ReflTransGen (S.env w.sh.db) w.sh.ext x) : S.Reachable init ⟨{ w with sh.ext := x }, ps⟩ := by
  induction hx with
  | refl => exact h
  | tail _ hs ih => exact .step ih (.env hs)

theorem Goes.reachable (h : S.Reachable init c) (hg : S.Goes c c') : S.Reachable init c' := by
  obtain ⟨hx, hi, he⟩ := hg
  exact .step (h.env_steps hx) (.run hi he)

theorem Goes.live {i : Nat} {p : Proc D K W T C ε E} (hg : S.Goes c c') (hp : c'.procs[i]? = some p)
    (hl : p.prog.ended = false) :
    ∃ q, c.procs[i]? = some q ∧ q.prog.ended = false ∧ q.call = p.call := by
  cases hg with
  | @mk w w' ps j call x β s k ch r _ hj _ =>
    by_cases hij : j = i
    · subst hij
      simp only [List.getElem?_set_self (List.getElem?_eq_some_iff.mp hj).1] at hp
      cases hp
      exact ⟨_, hj, rfl, rfl⟩
    · simp only [List.getElem?_set_ne hij] at hp
      exact ⟨p, hp, hl, rfl⟩

theorem OneLax.goes (h : OneLax strict c) (hg : S.Goes c c') : OneLax strict c' := by
  intro i j p q hp hq hpl hql hps hqs
  obtain ⟨p', hp', hpl', hpc⟩ := hg.live hp hpl
  obtain ⟨q', hq', hql', hqc⟩ := hg.live hq hql
  exact h i j p' q' hp' hq' hpl' hql' (by rw [hpc]; exact hps) (by rw [hqc]; exact hqs)

theorem Goes.shorter (hg : S.Goes c c') : Relation.CutExpand Prog.Rest
    (c'.procs.map Proc.prog : Multiset (Prog (Prim D K W T ε E) ε Unit)) (c.procs.map Proc.prog : List _) := by
  cases hg with
  | @mk w w' ps i call x β s k ch r _ hi _ =>
    obtain ⟨hlt, hget⟩ := List.getElem?_eq_some_iff.mp hi
    refine ⟨{k r}, .op s k, fun q hq => ?_, ?_⟩
    · rw [Multiset.mem_singleton.mp hq]
      exact .mk r
    · have hnew : (ps.set i ⟨call, k r⟩).Perm (⟨call, k r⟩ :: ps.eraseIdx i) := List.set_perm_cons_eraseIdx hlt _
      have hold : (⟨call, .op s k⟩ :: ps.eraseIdx i).Perm ps := by
        rw [← hget]
        exact List.getElem_cons_eraseIdx_perm hlt
      have hset := Multiset.coe_eq_coe.mpr (hnew.map Proc.prog)
      have hwas := Multiset.coe_eq_coe.mpr (hold.map Proc.prog)
      simp only [List.map_cons] at hset hwas
      simp only [hset, ← hwas]
      rw [← Multiset.cons_coe, ← Multiset.cons_coe, ← Multiset.singleton_add, ← Multiset.singleton_add]
      ac_rfl

end

namespace LockOrder

variable {S} (o : S.LockOrder) [DecidableEq K]

/-! ## Where a process stands -/

/-- The locks of process `i` are `H`, and the numbers `F` are its own and not used yet. -/
structure Standing (owner : Nat → Option Nat) (w : World D X K W V) (i : Nat) (F : List Nat)
    (H : List (K × Nat)) : Prop where
  locks : ∀ k, w.locks k = some i ↔ k ∈ H.map Prod.fst
  levels : ∀ h ∈ H, o.level w.sh.db h.1 = h.2
  fresh : ∀ n ∈ F, owner n = some i ∧ ∀ k, o.name k = some n → ¬ o.present (S.view w i) k

/-- A number has been drawn by one process, and only that one names a row by it. -/
structure Named (owner : Nat → Option Nat) (w : World D X K W V) : Prop where
  drawn : ∀ n i, owner n = some i → n < o.next w.sh.ext
  rows : ∀ k n, o.name k = some n → o.present w.sh.db k → n < o.next w.sh.ext
  seen : ∀ i k n, o.name k = some n → o.present (S.view w i) k → o.present w.sh.db k ∨ owner n = some i

def Grows (owner owner' : Nat → Option Nat) : Prop := ∀ n i, owner n = some i → owner' n = some i

section
variable {o} {owner owner' : Nat → Option Nat} {w w' : World D X K W V} {i j : Nat}
    {F F' : List Nat} {H : List (K × Nat)}

omit [DecidableEq K] in
theorem row_view (hl : S.LockOk w) {k : K} (hk : w.locks k ≠ some i) : S.row k (S.view w i) = S.row k w.sh.db :=
  S.row_applyAll _ fun v hv hkv => hk (hl i v hv k hkv)

omit [DecidableEq K] in
theorem present_view {k : K} (h : o.present w.sh.db k) (i : Nat) : o.present (S.view w i) k := by
  unfold Sys.view applyAll
  generalize (w.sess i).pend = ws
  generalize w.sh.db = d at h
  induction ws generalizing d with
  | nil => exact h
  | cons v ws ih => exact ih _ (o.present_apply v h)

omit [DecidableEq K] in
theorem view_same (hd : w'.sh.db = w.sh.db) (hp : (w'.sess i).pend = (w.sess i).pend) :
    S.view w' i = S.view w i := by
  rw [Sys.view, Sys.view, hd, hp]

omit [DecidableEq K] in
theorem Standing.same (h : o.Standing owner w i F H) (hl : w'.locks = w.locks) (hd : w'.sh.db = w.sh.db)
    (hp : (w'.sess i).pend = (w.sess i).pend) : o.Standing owner w' i F H := by
  refine ⟨?_, ?_, ?_⟩
  · rw [hl]
    exact h.locks
  · rw [hd]
    exact h.levels
  · rw [view_same hd hp]
    exact h.fresh

omit [DecidableEq K] in
theorem Named.same (h : o.Named owner w) (hd : w'.sh.db = w.sh.db) (hp : ∀ j, (w'.sess j).pend = (w.sess j).pend)
    (hx : o.next w.sh.ext ≤ o.next w'.sh.ext) : o.Named owner w' := by
  refine ⟨fun n i hn => Nat.lt_of_lt_of_le (h.drawn n i hn) hx, fun k n hk hpr => ?_, fun i k n hk hpr => ?_⟩
  · rw [hd] at hpr
    exact Nat.lt_of_lt_of_le (h.rows k n hk hpr) hx
  · rw [view_same hd (hp i)] at hpr
    rw [hd]
    exact h.seen i k n hk hpr

theorem Standing.lock {ks : List K} {ws : List W} (h : o.Standing owner w i F H) (hl : S.LockOk w)
    (hk : w'.locks = (w.lockAll i ks).locks) (hd : w'.sh.db = w.sh.db)
    (hp : (w'.sess i).pend = (w.sess i).pend ++ ws)
    (hs : o.Spends F F' (S.view w i) (S.applyAll ws (S.view w i))) :
    o.Standing owner w' i F' (o.hold (S.view w i) ks H) := by
  have hview : S.view w' i = S.applyAll ws (S.view w i) := by rw [Sys.view, hp, hd, applyAll_append, ← Sys.view]
  refine ⟨fun k => ?_, fun x hx => ?_, fun n hn => ?_⟩
  · rw [mem_hold, hk]
    by_cases hks : k ∈ ks
    · simp [World.lockAll, hks]
    · simp only [World.lockAll, hks, if_false, false_or]
      exact h.locks k
  · rw [hd]
    rcases List.mem_append.mp hx with hx | hx
    · obtain ⟨k, hk, rfl⟩ := List.mem_map.mp hx
      have hfree : w.locks k ≠ some i := fun he => by
        have := (h.locks k).mp he
        simp [this] at hk
      exact (o.level_congr (row_view hl hfree)).symm
    · exact h.levels x hx
  · obtain ⟨howner, hno⟩ := h.fresh n (hs.1 n hn)
    refine ⟨howner, fun k hk hpr => ?_⟩
    rw [hview] at hpr
    rcases hs.2 k n hk hpr with hpr | ⟨-, hn'⟩
    · exact hno k hk hpr
    · exact hn' hn

omit [DecidableEq K] in
theorem Named.lock {ws : List W} (h : o.Named owner w) (hst : o.Standing owner w i F H) (hd : w'.sh.db = w.sh.db)
    (hx : w'.sh.ext = w.sh.ext) (hp : (w'.sess i).pend = (w.sess i).pend ++ ws)
    (hj : ∀ j, j ≠ i → w'.sess j = w.sess j)
    (hs : o.Spends F F' (S.view w i) (S.applyAll ws (S.view w i))) : o.Named owner w' := by
  refine ⟨?_, ?_, fun j k n hk hpr => ?_⟩
  · rw [hx]
    exact h.drawn
  · rw [hx, hd]
    exact h.rows
  · rw [hd]
    by_cases hji : j = i
    · subst hji
      have hview : S.view w' j = S.applyAll ws (S.view w j) := by rw [Sys.view, hp, hd, applyAll_append, ← Sys.view]
      rw [hview] at hpr
      rcases hs.2 k n hk hpr with hpr | ⟨hn, -⟩
      · exact h.seen j k n hk hpr
      · exact .inr (hst.fresh n hn).1
    · rw [view_same hd (by rw [hj j hji])] at hpr
      exact h.seen j k n hk hpr

omit [DecidableEq K] in
theorem Standing.done {u : World D X K W V} (h : o.Standing owner w i F H)
    (hdb : u.sh.db = w.sh.db ∨ u.sh.db = S.view w i) :
    o.Standing owner (u.release i) i F [] := by
  refine ⟨fun k => ?_, by simp, fun n hn => ?_⟩
  · simpa using (World.release_idle u i).locks k
  · obtain ⟨howner, hno⟩ := h.fresh n hn
    refine ⟨howner, fun k hk hpr => hno k hk ?_⟩
    have hview : S.view (u.release i) i = u.sh.db := by
      rw [Sys.view, (World.release_idle u i).sess]
      rfl
    rw [hview] at hpr
    rcases hdb with hdb | hdb
    · rw [hdb] at hpr
      exact present_view hpr i
    · rwa [hdb] at hpr

omit [DecidableEq K] in
theorem Named.done {u : World D X K W V} (h : o.Named owner w) (hl : S.LockOk w) (hs : u.sess = w.sess)
    (hdb : u.sh.db = w.sh.db ∨ u.sh.db = S.view w i) (hx : u.sh.ext = w.sh.ext) : o.Named owner (u.release i) := by
  have hrows : ∀ k n, o.name k = some n → o.present u.sh.db k → o.present w.sh.db k ∨ owner n = some i := by
    intro k n hk hpr
    rcases hdb with hdb | hdb
    · rw [hdb] at hpr
      exact .inl hpr
    · rw [hdb] at hpr
      exact h.seen i k n hk hpr
  have hold : ∀ k, o.present w.sh.db k → o.present u.sh.db k := by
    intro k hpr
    rcases hdb with hdb | hdb
    · rwa [hdb]
    · rw [hdb]
      exact present_view hpr i
  have hother : ∀ j, j ≠ i → (u.release i).sess j = w.sess j := fun j hj => by
    simp [World.release, World.setSess, hj, hs]
  refine ⟨?_, fun k n hk hpr => ?_, fun j k n hk hpr => ?_⟩
  · show ∀ n j, owner n = some j → n < o.next u.sh.ext
    rw [hx]
    exact h.drawn
  · show n < o.next u.sh.ext
    rw [hx]
    rcases hrows k n hk hpr with hpr | hn
    · exact h.rows k n hk hpr
    · exact h.drawn n i hn
  · show o.present u.sh.db k ∨ owner n = some j
    by_cases hji : j = i
    · subst hji
      left
      rwa [Sys.view, (World.release_idle u j).sess] at hpr
    · rcases hdb with hdb | hdb
      · have hview : S.view (u.release i) j = S.view w j := view_same hdb (by rw [hother j hji])
        rw [hview] at hpr
        exact (h.seen j k n hk hpr).imp_left (hold k)
      · have hdb' : (u.release i).sh.db = S.view w i := hdb
        rcases Index.row_after_commit hl (Ne.symm hji) hdb' (hother j hji) k with ⟨hv, -⟩ | hv
        · exact (h.seen j k n hk (o.present_congr hv hpr)).imp_left (hold k)
        · exact .inl (o.present_congr hv hpr)

omit [DecidableEq K] in
theorem Standing.other (h : o.Standing owner w j F H) (hn : o.Named owner w) (hl : S.LockOk w)
    (hm : S.Moved i w w') (hij : i ≠ j) (hg : Grows owner owner') : o.Standing owner' w' j F H := by
  obtain ⟨hsess, hlocks, hrows⟩ := hm.leaves hl hij
  refine ⟨fun k => ⟨fun hk => (h.locks k).mp ?_, fun hk => hlocks k ((h.locks k).mpr hk)⟩,
    fun x hx => ?_, fun n hn' => ?_⟩
  · cases hm with
    | quiet hlk => rwa [hlk] at hk
    | lock ks ws _ _ h₁ h₂ =>
      by_cases hks : k ∈ ks
      · rw [h₁ k hks] at hk
        cases hk
        exact absurd rfl hij
      · rwa [h₂ k hks] at hk
    | done u hlk _ _ he =>
      subst he
      simp only [World.release, World.setSess, hlk] at hk
      split at hk
      · cases hk
      · exact hk
  · rw [← h.levels x hx]
    exact o.level_congr (hrows x.1 ((h.locks x.1).mpr (List.mem_map_of_mem hx)))
  · obtain ⟨howner, hno⟩ := h.fresh n hn'
    refine ⟨hg n j howner, fun k hk hpr => ?_⟩
    have hsame : w'.sh.db = w.sh.db → False := fun hd => hno k hk (by rwa [view_same hd (by rw [hsess])] at hpr)
    cases hm with
    | quiet _ _ _ hd => exact hsame hd
    | lock _ _ _ _ _ _ _ _ hd => exact hsame hd
    | done u _ hs hd he =>
      subst he
      rcases hd with hd | hd
      · exact hsame hd
      · have hd : (u.release i).sh.db = S.view w i := hd
        rcases Index.row_after_commit hl hij hd hsess k with ⟨hv, -⟩ | hv
        · exact hno k hk (o.present_congr hv hpr)
        · -- what `i` commits is older, or named by a number of its own
          have hpr : o.present (S.view w i) k := by
            have := o.present_congr hv hpr
            rwa [hd] at this
          rcases hn.seen i k n hk hpr with hpr | hi
          · exact hno k hk (present_view hpr j)
          · rw [howner] at hi
            cases hi
            exact absurd rfl hij

end

/-! ## One statement -/

section
variable {o} {strict : Bool} {owner : Nat → Option Nat} {w w' : World D X K W V} {i : Nat}
    {F : List Nat} {H : List (K × Nat)}
  {Φ : Except ε β → List Nat → List (K × Nat) → Prop} {c : Prim D K W T ε E β} {ch : Bool} {r : Except ε β}

omit [DecidableEq K] in
theorem Standing.unborn (h : o.Standing owner w i F H) : o.Fresh F (S.view w i) :=
  fun n hn k hk => (h.fresh n hn).2 k hk

omit [DecidableEq K] in
theorem drawn_stands {u : World D X K W V} {e : E β} {b : β} (hn : o.Named owner w) (hst : o.Standing owner w i F H)
    (hb : (S.handle ch e w.sh.ext).1 = .ok b) (hl : u.locks = w.locks)
    (hs : u.sess = w.sess) (hd : u.sh.db = w.sh.db)
    (hx : u.sh.ext = (S.handle ch e w.sh.ext).2.1) : ∃ owner', o.Standing owner' u i ((o.drawn e b).toList ++ F) H ∧
      o.Named owner' u ∧ Grows owner owner' := by
  have hnext : o.next w.sh.ext ≤ o.next u.sh.ext := by
    rw [hx]
    exact o.next_handle ch e w.sh.ext
  cases hdr : o.drawn e b with
  | none => exact ⟨owner, hst.same hl hd (by rw [hs]), hn.same hd (fun j => by rw [hs]) hnext, fun _ _ h => h⟩
  | some n =>
    obtain ⟨hle, hlt⟩ := o.drawn_new hb hdr
    rw [← hx] at hlt
    have hnobody : ∀ j, owner n ≠ some j := fun j hj => Nat.not_lt.mpr hle (hn.drawn n j hj)
    have hg : Grows owner fun m => if m = n then some i else owner m := by
      intro m j hm
      have : m ≠ n := by
        rintro rfl
        exact hnobody j hm
      exact (if_neg this).trans hm
    have hview : ∀ j, S.view u j = S.view w j := fun j => view_same hd (by rw [hs])
    refine ⟨fun m => if m = n then some i else owner m, ⟨?_, ?_, fun m hm => ?_⟩,
      ⟨fun m j hm => ?_, fun k m hk hpr => ?_, fun j k m hk hpr => ?_⟩, hg⟩
    · rw [hl]
      exact hst.locks
    · rw [hd]
      exact hst.levels
    · rw [hview]
      by_cases hmn : m = n
      · subst hmn
        refine ⟨if_pos rfl, fun k hk hpr => ?_⟩
        rcases hn.seen i k m hk hpr with hpr | hm
        · exact Nat.not_lt.mpr hle (hn.rows k m hk hpr)
        · exact hnobody i hm
      · have hmF : m ∈ F := by simpa [hmn] using hm
        exact ⟨hg m i (hst.fresh m hmF).1, (hst.fresh m hmF).2⟩
    · by_cases hmn : m = n
      · subst hmn
        exact hlt
      · exact Nat.lt_of_lt_of_le (hn.drawn m j ((if_neg hmn).symm.trans hm)) hnext
    · rw [hd] at hpr
      exact Nat.lt_of_lt_of_le (hn.rows k m hk hpr) hnext
    · rw [hview] at hpr
      rw [hd]
      exact (hn.seen j k m hk hpr).imp_right (hg m j)

/-- A statement of a program that waits in order. -/
theorem exec_meets (hl : S.LockOk w) (hn : o.Named owner w) (hst : o.Standing owner w i F H)
    (hc : o.meets strict c Φ F H) (he : S.exec i ch c w = some (r, w')) :
    ∃ owner' F' H', Φ r F' H' ∧ o.Standing owner' w' i F' H' ∧ o.Named owner' w' ∧ Grows owner owner' := by
  -- the store, the locks and what is pending are as they were
  have hsame : Φ r F H → w'.locks = w.locks → w'.sh.db = w.sh.db → w'.sh.ext = w.sh.ext →
      (∀ j, (w'.sess j).pend = (w.sess j).pend) →
      ∃ owner' F' H', Φ r F' H' ∧ o.Standing owner' w' i F' H' ∧ o.Named owner' w' ∧ Grows owner owner' := by
    intro hr hlk hd hx hp
    exact ⟨owner, F, H, hr, hst.same hlk hd (hp i), hn.same hd hp (by rw [hx]), fun _ _ h => h⟩
  have hfail : ∀ (u : World D X K W V) (j : Nat), u.sess = w.sess → ((u.fail i).sess j).pend = (w.sess j).pend := by
    intro u j hu
    by_cases hj : j = i
    · subst hj
      simp [World.fail, World.setSess, hu]
    · simp [World.fail, World.setSess, hu, hj]
  -- rows are locked
  have hlock : ∀ {ks : List K} (ws : List W) {F' : List Nat}, Φ r F' (o.hold (S.view w i) ks H) →
      w'.locks = (w.lockAll i ks).locks → w'.sh.db = w.sh.db → w'.sh.ext = w.sh.ext →
      (w'.sess i).pend = (w.sess i).pend ++ ws → (∀ j, j ≠ i → w'.sess j = w.sess j) →
      o.Spends F F' (S.view w i) (S.applyAll ws (S.view w i)) →
      ∃ owner' F' H', Φ r F' H' ∧ o.Standing owner' w' i F' H' ∧ o.Named owner' w' ∧ Grows owner owner' := by
    intro ks ws F' hr hlk hd hx hp hj hs
    exact ⟨owner, F', _, hr, hst.lock hl hlk hd hp hs, hn.lock hst hd hx hp hj hs, fun _ _ h => h⟩
  have hkeep : o.Spends F F (S.view w i) (S.applyAll [] (S.view w i)) := ⟨fun _ h => h, fun _ _ _ h => .inl h⟩
  have hlab := fun ok t => label_parts (S := S) (w := w) (i := i) ok t
  cases exec_made he with
  | readFailed => exact hsame hc.1 (hlab _ _).1 (hlab _ _).2.2 label_ext fun j => hfail _ j (hlab _ _).2.1
  | freshFailed => exact hsame hc.1 (hlab _ _).1 (hlab _ _).2.2 label_ext fun j => by rw [(hlab _ _).2.1]
  | read | fresh => exact hsame (hc.2 _) (hlab _ _).1 (hlab _ _).2.2 label_ext fun j => by rw [(hlab _ _).2.1]
  | @forUpdate _ t =>
    obtain ⟨hlk, hs, hd⟩ := hlab true t
    refine hlock [] (hc.2 _ hst.unborn).2 ?_ hd label_ext ?_ (fun j _ => ?_) hkeep
    · simp only [World.lockAll, hlk]
    · simp only [World.lockAll, hs, List.append_nil]
    · simp only [World.lockAll, hs]
  | @skipLocked _ sel key n rows _ _ hrows =>
    have hsub : rows.Sublist (sel (S.view w i)) := by
      rw [hrows]
      exact (List.take_sublist ..).trans List.filter_sublist
    have hn' : rows.length ≤ n := by
      rw [hrows]
      exact List.length_take_le ..
    refine hlock [] (hc.2 _ _ hst.unborn hsub hn') rfl rfl rfl ?_ (fun _ _ => rfl) hkeep
    simp only [World.lockAll, List.append_nil]
  | rejected _ _ _ hfe =>
    have hyes := (hc.2 _ hst.unborn).2
    rw [hfe] at hyes
    exact hsame hyes rfl rfl rfl fun j => hfail (w.say i _) j rfl
  | stmt _ _ hfw hlks =>
    subst hlks
    have hyes := (hc.2 _ hst.unborn).2
    rw [hfw] at hyes
    obtain ⟨-, F', hs, hk⟩ := hyes
    refine hlock _ hk rfl rfl rfl ?_ (fun j hj => ?_) hs
    · simp only [World.setSess, if_true]
    · simp only [World.setSess, hj, if_false, World.lockAll]
  | commit =>
    exact ⟨owner, F, [], hc.2, hst.done (.inr rfl), hn.done hl (hlab _ _).2.1 (.inr rfl) label_ext, fun _ _ h => h⟩
  | rollback => exact ⟨owner, F, [], hc, hst.done (.inl rfl), hn.done hl rfl (.inl rfl) rfl, fun _ _ h => h⟩
  | @eff _ e =>
    cases hb : (S.handle ch e w.sh.ext).1 with
    | error err =>
      exact ⟨owner, F, H, hc.1 err, hst.same rfl rfl rfl, hn.same rfl (fun _ => rfl) (o.next_handle ch e w.sh.ext),
        fun _ _ h => h⟩
    | ok b =>
      obtain ⟨owner', hst', hn', hg⟩ := drawn_stands (u := { w.say i (S.handle ch e w.sh.ext).2.2 with
        sh.ext := (S.handle ch e w.sh.ext).2.1 }) hn hst hb rfl rfl rfl rfl
      exact ⟨owner', _, H, hc.2 b, hst', hn', hg⟩
  | _ => exact hsame hc.1 rfl rfl rfl fun j => hfail w j rfl

/-- A process that has to wait, waits for a lock that another one holds, and in order. -/
theorem waits_for (hl : S.LockOk w) (hst : o.Standing owner w i F H) (hc : o.meets strict c Φ F H)
    (he : S.exec i true c w = none) : ∃ k j, w.locks k = some j ∧ j ≠ i ∧
      ∀ h ∈ H, if strict then h.2 < o.level w.sh.db k else h.2 ≤ o.level w.sh.db k := by
  have hone : ∀ ks : List K, o.Above strict H (S.view w i) ks → ks.all (w.free i) = false →
    ∃ k j, w.locks k = some j ∧ j ≠ i ∧
      ∀ h ∈ H, if strict then h.2 < o.level w.sh.db k else h.2 ≤ o.level w.sh.db k := by
    intro ks ha hks
    obtain ⟨k, hk, hfree⟩ := List.all_eq_false.mp hks
    cases hlk : w.locks k with
    | none => simp [World.free, hlk] at hfree
    | some j =>
      have hj : j ≠ i := by simpa [World.free, hlk] using hfree
      have hrow : S.row k (S.view w i) = S.row k w.sh.db := by
        apply row_view hl
        rw [hlk]
        simpa using hj
      refine ⟨k, j, hlk, hj, ?_⟩
      rw [← o.level_congr hrow]
      refine (ha k hk).resolve_left fun hm => ?_
      rw [(hst.locks k).mpr hm] at hlk
      exact hj (Option.some.inj hlk).symm
  cases c with
  | forUpdate t sel key =>
    simp only [exec] at he
    split at he
    · cases he
    · split at he
      · cases he
      · rename_i hall
        refine hone _ (hc.2 _ hst.unborn).1 ?_
        rw [List.all_map]
        simpa using hall
  | stmt ks f =>
    have hyes := hc.2 _ hst.unborn
    simp only [exec] at he
    split at he
    · cases he
    · split at he
      · split at he
        · cases he
        · rename_i ws hfw
          rw [hfw] at hyes
          split at he
          · cases he
          · rename_i hall
            exact hone _ hyes.2.1 (by simpa using hall)
      · rename_i hall
        exact hone _ hyes.1 (by simpa using hall)
  | read | fresh | skipLocked | commit => simp only [exec] at he; split at he <;> cases he
  | rollback | eff => simp only [exec] at he; cases he

end

/-! ## All processes -/

/-- Every process stands somewhere, and what is left of its program waits in order. -/
structure Placed (strict : C → Bool) (owner : Nat → Option Nat) (c : Config D X K W T V C ε E) : Prop where
  named : o.Named owner c.world
  unborn : ∀ i, c.procs.length ≤ i → c.world.Idle i
  procs : ∀ i p, c.procs[i]? = some p → ∃ F H, o.Standing owner c.world i F H ∧
    o.Ordered (strict p.call) p.prog (fun _ _ H => H = []) F H

section
variable {o} {strict : C → Bool} {owner : Nat → Option Nat} {init : D → X → Prop} {c c' : Config D X K W T V C ε E}

omit [DecidableEq K] in
theorem standing_idle {w : World D X K W V} {i : Nat} (h : w.Idle i) : o.Standing owner w i [] [] :=
  ⟨fun k => by simpa using h.locks k, by simp, by simp⟩

theorem Placed.step (h : o.Placed strict owner c) (hl : S.LockOk c.world)
    (hcode : ∀ call, o.Ordered (strict call) (S.code call) (fun _ _ H => H = []) [] []) (hs : S.Step c c') :
    ∃ owner', o.Placed strict owner' c' := by
  cases hs with
  | @run w w' ps i call _ q k ch r hi he =>
    obtain ⟨F, H, hst, hop⟩ := h.procs i _ hi
    obtain ⟨owner', F', H', hk, hst', hn', hg⟩ := exec_meets hl h.named hst hop he
    have hlt := (List.getElem?_eq_some_iff.mp hi).1
    refine ⟨owner', hn', fun j hj => ?_, fun j p hp => ?_⟩
    · simp only [List.length_set] at hj
      have hij : i ≠ j := by omega
      have hidle := h.unborn j hj
      refine ⟨?_, (exec_moved he).unlocked hij hidle.locks⟩
      rw [((exec_moved he).leaves hl hij).1]
      exact hidle.sess
    · by_cases hij : i = j
      · subst hij
        simp only [List.getElem?_set_self hlt] at hp
        cases hp
        exact ⟨F', H', hst', hk⟩
      · simp only [List.getElem?_set_ne hij] at hp
        obtain ⟨F, H, hst, hop⟩ := h.procs j p hp
        exact ⟨F, H, hst.other h.named hl (exec_moved he) hij hg, hop⟩
  | @start w ps call =>
    refine ⟨owner, h.named, fun j hj => h.unborn j ?_, fun j p hp => ?_⟩
    · simp only [List.length_append, List.length_cons, List.length_nil] at hj
      simp only
      omega
    · rcases Nat.lt_or_ge j ps.length with hlt | hge
      · simp only [List.getElem?_append_left hlt] at hp
        exact h.procs j p hp
      · simp only [List.getElem?_append_right hge] at hp
        cases List.mem_singleton.mp (List.mem_of_getElem? hp)
        exact ⟨[], [], standing_idle (h.unborn j hge), hcode call⟩
  | @env w ps x hx =>
    refine ⟨owner, h.named.same rfl (fun _ => rfl) (o.next_env hx), fun j hj => ?_, fun j p hp => ?_⟩
    · obtain ⟨hsess, hlocks⟩ := h.unborn j hj
      exact ⟨hsess, hlocks⟩
    · obtain ⟨F, H, hst, hop⟩ := h.procs j p hp
      exact ⟨F, H, hst.same rfl rfl rfl, hop⟩

theorem reachable_placed (hinit : ∀ d x, init d x → ∀ k n, o.name k = some n → o.present d k → n < o.next x)
    (hcode : ∀ call, o.Ordered (strict call) (S.code call) (fun _ _ H => H = []) [] []) (h : S.Reachable init c) :
    ∃ owner, o.Placed strict owner c := by
  induction h with
  | @init c h =>
    have hview : ∀ i, S.view c.world i = c.world.sh.db := fun i => by
      rw [Sys.view, h.sess i]
      rfl
    refine ⟨fun _ => none, ⟨fun _ _ hj => (by cases hj), hinit _ _ h.init, fun i k n _ hpr => .inl ?_⟩,
      fun i _ => ⟨h.sess i, fun k => ?_⟩, fun i p hp => ?_⟩
    · rwa [hview] at hpr
    · rw [h.locks k]
      intro hk
      cases hk
    · rw [h.procs] at hp
      cases hp
  | step hr hs ih =>
    obtain ⟨owner, ih⟩ := ih
    exact ih.step hr.lockOk hcode hs

/-- Who holds the lock that a process waits for, waits himself or can go on. -/
theorem Placed.waits (h : o.Placed strict owner c) (hl : S.LockOk c.world) {i : Nat} (hw : S.Waits c i) :
    ∃ (p : Proc D K W T C ε E) (k : K) (j : Nat) (q : Proc D K W T C ε E),
    c.procs[i]? = some p ∧ c.procs[j]? = some q ∧
      p.prog.ended = false ∧ q.prog.ended = false ∧ j ≠ i ∧
      c.world.locks k = some j ∧ ∀ k', c.world.locks k' = some i →
        if strict p.call then o.level c.world.sh.db k' < o.level c.world.sh.db k
        else o.level c.world.sh.db k' ≤ o.level c.world.sh.db k := by
  obtain ⟨call, β, s, cont, hi, he⟩ := hw
  obtain ⟨F, H, hst, hop⟩ := h.procs i _ hi
  obtain ⟨k, j, hk, hj, hlev⟩ := waits_for hl hst hop he
  have hlt : j < c.procs.length := by
    refine Classical.byContradiction fun hge => ?_
    exact (h.unborn j (Nat.not_lt.mp hge)).locks k hk
  obtain ⟨q, hq⟩ : ∃ q, c.procs[j]? = some q := ⟨_, List.getElem?_eq_getElem hlt⟩
  refine ⟨_, k, j, q, hi, hq, rfl, ?_, hj, hk, fun k' hk' => ?_⟩
  · obtain ⟨F', H', hst', hop'⟩ := h.procs j q hq
    have hheld := (hst'.locks k).mp hk
    obtain ⟨call', prog⟩ := q
    cases prog with
    | op => rfl
    | ret => rw [hop'] at hheld; cases hheld
    | throw => rw [hop'] at hheld; cases hheld
  · obtain ⟨⟨k'', n⟩, hm, rfl⟩ := List.mem_map.mp ((hst.locks k').mp hk')
    rw [hst.levels _ hm]
    exact hlev _ hm

/-- If one process at most is not strict, not all of them wait. -/
theorem Placed.goes_on (h : o.Placed strict owner c) (hl : S.LockOk c.world) (hone : OneLax strict c)
    (hw : ∀ i (p : Proc D K W T C ε E), c.procs[i]? = some p → p.prog.ended = false → S.Waits c i) :
    ∀ p ∈ c.procs, p.prog.ended = true := by
  refine Classical.byContradiction fun hlive => ?_
  simp only [not_forall, Bool.not_eq_true] at hlive
  obtain ⟨p₀, hp₀, hlive⟩ := hlive
  obtain ⟨i₀, hi₀⟩ := List.getElem?_of_mem hp₀
  -- the lock that each of them waits for
  have hfor : ∀ i, ∃ k, ∀ p, c.procs[i]? = some p → p.prog.ended = false →
    ∃ j q, c.procs[j]? = some q ∧ q.prog.ended = false ∧
      j ≠ i ∧ c.world.locks k = some j ∧ ∀ k', c.world.locks k' = some i →
        if strict p.call then o.level c.world.sh.db k' < o.level c.world.sh.db k
        else o.level c.world.sh.db k' ≤ o.level c.world.sh.db k := by
    intro i
    by_cases hi : ∃ p, c.procs[i]? = some p ∧ p.prog.ended = false
    · obtain ⟨p, hp, hpl⟩ := hi
      obtain ⟨p', k, j, q, hp', hq, -, hql, hj, hk, hlev⟩ := h.waits hl (hw i p hp hpl)
      refine ⟨k, fun p'' hp'' _ => ⟨j, q, hq, hql, hj, hk, ?_⟩⟩
      rw [hp'] at hp''
      cases hp''
      exact hlev
    · obtain ⟨p', k, -⟩ := h.waits hl (hw i₀ p₀ hi₀ hlive)
      exact ⟨k, fun p hp hpl => absurd ⟨p, hp, hpl⟩ hi⟩
  choose k hk using hfor
  let live : Finset Nat :=
    (Finset.range c.procs.length).filter fun i => ∃ p, c.procs[i]? = some p ∧ p.prog.ended = false
  have hmem : ∀ {i p}, c.procs[i]? = some p → p.prog.ended = false → i ∈ live := fun hp hpl =>
    Finset.mem_filter.mpr ⟨Finset.mem_range.mpr (List.getElem?_eq_some_iff.mp hp).1, _, hp, hpl⟩
  obtain ⟨i, hi, hmax⟩ := live.exists_max_image (fun i => o.level c.world.sh.db (k i)) ⟨i₀, hmem hi₀ hlive⟩
  obtain ⟨-, p, hp, hpl⟩ := Finset.mem_filter.mp hi
  -- whoever holds a lock of the highest level is not strict, and waits for another such lock
  have hlax : ∀ {j j' q}, c.procs[j]? = some q → q.prog.ended = false → c.world.locks (k j') = some j →
      o.level c.world.sh.db (k i) ≤ o.level c.world.sh.db (k j') → strict q.call = false ∧
        o.level c.world.sh.db (k i) ≤ o.level c.world.sh.db (k j) := by
    intro j j' q hq hql hlk hle
    obtain ⟨_, _, -, -, -, -, hlev⟩ := hk j q hq hql
    have hlt := hlev _ hlk
    have htop := hmax j (hmem hq hql)
    by_cases hs : strict q.call = true
    · rw [if_pos hs] at hlt
      omega
    · rw [if_neg hs] at hlt
      exact ⟨by simpa using hs, Nat.le_trans hle hlt⟩
  obtain ⟨j, q, hq, hql, -, hlk, -⟩ := hk i p hp hpl
  obtain ⟨hjs, hjt⟩ := hlax hq hql hlk (Nat.le_refl _)
  obtain ⟨j', q', hq', hql', hj', hlk', -⟩ := hk j q hq hql
  obtain ⟨hjs', -⟩ := hlax hq' hql' hlk' hjt
  exact hj' (hone j' j q' q hq' hq hql' hql hjs' hjs)

/-- **No deadlock**: programs that wait in order come to their ends, however they take turns. -/
theorem settles (hinit : ∀ d x, init d x → ∀ k n, o.name k = some n → o.present d k → n < o.next x)
    (hcode : ∀ call, o.Ordered (strict call) (S.code call) (fun _ _ H => H = []) [] []) (h : S.Reachable init c)
    (hone : OneLax strict c) : S.Settles c := by
  induction hm : (c.procs.map Proc.prog : Multiset (Prog (Prim D K W T ε E) ε Unit))
    using Prog.rest_wf.cutExpand.induction
    generalizing c with
  | _ m ih =>
    subst hm
    refine .mk ?_ fun c' hg => ih _ hg.shorter (hg.reachable h) (hone.goes hg) rfl
    refine Classical.byContradiction fun hno => ?_
    rw [not_or, not_exists] at hno
    obtain ⟨owner, hpl⟩ := reachable_placed hinit hcode h
    refine hno.1 (hpl.goes_on h.lockOk hone fun i p hp hpe => ?_)
    obtain ⟨call, prog⟩ := p
    cases prog with
    | ret | throw => cases hpe
    | @op β s k =>
      refine ⟨call, β, s, k, hp, ?_⟩
      cases he : S.exec i true s c.world with
      | none => rfl
      | some r => exact absurd (.mk .refl hp he) (hno.2 _)

end

end LockOrder

end Sys
