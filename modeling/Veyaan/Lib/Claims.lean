import Veyaan.Lib.Calls

/-!
# What a program has locked

The locks that a program is sure to hold, read off its text: a selection for
update adds the keys of its rows, the end of a transaction drops them all. A
condition `M` on each statement, the keys held before it and the entries made
so far is checked along the program once, and then holds of every process of
every run, with the keys really locked by that process.
-/

open Relation (ReflTransGen)

def Prim.claimed {D K W T ε : Type} {E : Type → Type} : {β : Type} → Prim D K W T ε E β →
    Except ε β → List K → List K
  | _, .forUpdate _ _ key, .ok rows, L => rows.map key ++ L
  | _, .skipLocked _ key _, .ok rows, L => rows.map key ++ L
  | _, .commit _, .ok _, _ => []
  | _, .rollback, _, _ => []
  | _, _, _, L => L

def Prim.ends {D K W T ε β : Type} {E : Type → Type} : Prim D K W T ε E β → Bool
  | .commit _ => true
  | .rollback => true
  | _ => false

theorem Prim.claimed_of_not_ends {D K W T ε β : Type} {E : Type → Type} {s : Prim D K W T ε E β} {L : List K}
    (h : s.ends = false) (r : Except ε β) : ∀ x ∈ L, x ∈ s.claimed r L := by
  intro x hx
  cases s with
  | commit => cases h
  | rollback => cases h
  | forUpdate => cases r <;> simp [Prim.claimed, hx]
  | skipLocked => cases r <;> simp [Prim.claimed, hx]
  | _ => exact hx

namespace Sys

variable {D X K W R T V C ε α β : Type} {E : Type → Type} (S : Sys D X K W R T V C ε E) [DecidableEq K]
variable (M : ∀ β, Prim D K W T ε E β → List K → List V → Prop)

/-- With the keys `L` held, and after the entries `l`, every statement of the
program meets `M`, and its end meets `post`. -/
def Claims : Prog (Prim D K W T ε E) ε α → (Except ε α → List K → List V → Prop) → List K → List V → Prop
  | .ret a, post, L, l => post (.ok a) L l
  | .throw e, post, L, l => post (.error e) L l
  | .op s k, post, L, l => M _ s L l ∧ ∀ ⦃i ch r vs⦄ ⦃w w' : World D X K W V⦄, S.exec i ch s w = some (r, w') →
      w'.sh.trace = w.sh.trace ++ vs.map (i, ·) → Claims (k r) post (s.claimed r L) (l ++ vs)

section
variable {S M} {init : D → X → Prop} {L : List K} {l : List V}

theorem Claims.mono {post post' : Except ε α → List K → List V → Prop} (h : ∀ r L l, post r L l → post' r L l) :
    ∀ {p : Prog (Prim D K W T ε E) ε α} {L : List K} {l : List V}, S.Claims M p post L l → S.Claims M p post' L l
  | .ret _, _, _, hp => h _ _ _ hp
  | .throw _, _, _, hp => h _ _ _ hp
  | .op _ _, _, _, hp => ⟨hp.1, fun _ _ _ _ _ _ he ht => (hp.2 he ht).mono h⟩

theorem claims_bind {f : α → Prog (Prim D K W T ε E) ε β} {post : Except ε β → List K → List V → Prop} :
    ∀ {p : Prog (Prim D K W T ε E) ε α} {L : List K} {l : List V},
      S.Claims M p (fun r L l => match r with
        | .ok a => S.Claims M (f a) post L l
        | .error e => post (.error e) L l) L l → S.Claims M (p.bind f) post L l
  | .ret _, _, _, h => h
  | .throw _, _, _, h => h
  | .op _ _, _, _, h => ⟨h.1, fun _ _ _ _ _ _ he ht => claims_bind (h.2 he ht)⟩

theorem claims_attempt {post : Except ε (Except ε α) → List K → List V → Prop} :
    ∀ {p : Prog (Prim D K W T ε E) ε α} {L : List K} {l : List V},
      S.Claims M p (fun r => post (.ok r)) L l → S.Claims M p.attempt post L l
  | .ret _, _, _, h => h
  | .throw _, _, _, h => h
  | .op _ _, _, _, h => ⟨h.1, fun _ _ _ _ _ _ he ht => claims_attempt (h.2 he ht)⟩

theorem claims_call {s : Prim D K W T ε E β} {post : Except ε β → List K → List V → Prop} (hM : M _ s L l)
    (h : ∀ ⦃i ch r vs⦄ ⦃w w' : World D X K W V⦄, S.exec i ch s w = some (r, w') →
      w'.sh.trace = w.sh.trace ++ vs.map (i, ·) → post r (s.claimed r L) (l ++ vs)) :
    S.Claims M (.call s) post L l := by
  refine ⟨hM, fun i ch r vs w w' he ht => ?_⟩
  have hp := h he ht
  cases r with
  | ok a => exact hp
  | error e => exact hp

theorem claims_silent {s : Prim D K W T ε E β} {post : Except ε β → List K → List V → Prop} (hM : M _ s L l)
    (hs : ∀ (w : World D X K W V) v, ¬ S.Says w s v) (h : ∀ r, post r (s.claimed r L) l) :
    S.Claims M (.call s) post L l := by
  refine claims_call hM fun i ch r vs w w' he ht => ?_
  obtain ⟨us, hu, hv⟩ := exec_trace he
  have : us = [] := List.eq_nil_iff_forall_not_mem.mpr fun v hm => hs w v (hv v hm)
  subst this
  rw [ht] at hu
  have : vs = [] := by simpa using hu
  rw [this, List.append_nil]
  exact h r

theorem claims_commit {t : T} {post : Except ε Unit → List K → List V → Prop} (hM : M _ (.commit (some t)) L l)
    (hE : ∀ e, post (.error e) L l) (h : ∀ d x, post (.ok ()) [] (l ++ [S.see t true d x])) :
    S.Claims M (.call (.commit (some t))) post L l := by
  refine claims_call hM fun i ch r vs w w' he ht => ?_
  simp only [exec] at he
  split at he <;> cases he
  · have : vs = [] := by simpa [World.fail, World.setSess] using ht
    rw [this, List.append_nil]
    exact hE _
  · have hvs : [(i, S.see t true w.sh.db w.sh.ext)] = vs.map (i, ·) := List.append_cancel_left ht
    have : vs = [S.see t true w.sh.db w.sh.ext] :=
      (List.map_inj_right fun _ _ h => (Prod.mk.inj h).2).mp hvs.symm
    rw [this]
    exact h _ _

theorem claims_eff {e : E β} {post : Except ε β → List K → List V → Prop} (hM : M _ (.eff e) L l)
    (h : ∀ ch x, post (S.handle ch e x).1 L (l ++ (S.handle ch e x).2.2)) :
    S.Claims M (.call (.eff e)) post L l := by
  refine claims_call hM fun i ch r vs w w' he ht => ?_
  simp only [exec] at he
  cases he
  have : vs = (S.handle ch e w.sh.ext).2.2 :=
    ((List.map_inj_right fun _ _ h => (Prod.mk.inj h).2).mp (List.append_cancel_left ht)).symm
  rw [this]
  exact h ch w.sh.ext

theorem claims_of_all {φ : ∀ β, Prim D K W T ε E β → Prop} {N : List K} {J : V → Prop}
    (hM : ∀ {β : Type} {s : Prim D K W T ε E β} {L l}, φ β s → (∀ x ∈ N, x ∈ L) → (∀ v ∈ l, J v) → M β s L l)
    (hL : ∀ {β : Type} {s : Prim D K W T ε E β} {L} r, φ β s → (∀ x ∈ N, x ∈ L) → ∀ x ∈ N, x ∈ s.claimed r L)
    (hJ : ∀ {β : Type} {s : Prim D K W T ε E β} {w v}, φ β s → S.Says w s v → J v) :
    ∀ {p : Prog (Prim D K W T ε E) ε α} {L : List K} {l : List V}, p.All φ → (∀ x ∈ N, x ∈ L) → (∀ v ∈ l, J v) →
      S.Claims M p (fun _ L l => (∀ x ∈ N, x ∈ L) ∧ ∀ v ∈ l, J v) L l
  | .ret _, _, _, _, hl, hj => ⟨hl, hj⟩
  | .throw _, _, _, _, hl, hj => ⟨hl, hj⟩
  | .op s k, L, l, hp, hl, hj => by
    refine ⟨hM hp.1 hl hj, fun i ch r vs w w' he ht => ?_⟩
    obtain ⟨us, hu, hs⟩ := exec_trace he
    obtain rfl : us = vs :=
      (List.map_inj_right fun _ _ h => (Prod.mk.inj h).2).mp (List.append_cancel_left (hu.symm.trans ht))
    refine claims_of_all hM hL hJ (hp.2 r) (hL r hp.1 hl) fun v hv => ?_
    rcases List.mem_append.mp hv with hv | hv
    · exact hj v hv
    · exact hJ hp.1 (hs v hv)

/-! ## Soundness -/

/-- The keys that a program is said to hold are locked by its process. -/
theorem exec_claimed {i : Nat} {ch : Bool} {s : Prim D K W T ε E β} {w w' : World D X K W V} {r}
    (h : S.exec i ch s w = some (r, w')) (hL : ∀ k ∈ L, w.locks k = some i) :
    ∀ k ∈ s.claimed r L, w'.locks k = some i := by
  have hlock : ∀ (u : World D X K W V) (ks : List K), u.locks = w.locks →
      ∀ k ∈ ks ++ L, (u.lockAll i ks).locks k = some i := by
    intro u ks hu k hk
    rcases List.mem_append.mp hk with hk | hk
    · exact if_pos hk
    · simp [World.lockAll, hu, hL k hk]
  cases exec_made h with
  | readFailed | read | freshFailed | fresh =>
    intro k hk
    exact (congrFun (label_parts (S := S) _ _).1 k).trans (hL k hk)
  | forUpdate => exact hlock _ _ (label_parts (S := S) _ _).1
  | skipLocked => exact hlock w _ rfl
  | @stmt ks f ws lks _ _ _ hlks =>
    subst hlks
    exact fun k hk => hlock w _ rfl k (List.mem_append_right _ hk)
  | commit => intro k hk; cases hk
  | rollback => intro k hk; cases hk
  | _ => exact hL

theorem Reachable.lockOk {c : Config D X K W T V C ε E} (h : S.Reachable init c) : S.LockOk c.world := by
  induction h with
  | init h => intro j v hv; rw [h.sess j] at hv; cases hv
  | step _ hs ih =>
    cases hs with
    | run _ he => exact (exec_moved he).lockOk ih
    | start => exact ih
    | env => exact ih

/-- If all programs meet `M`, every process does, with the keys that it has
locked. -/
theorem Reachable.claims (hcode : ∀ call, S.Claims M (S.code call) (fun _ _ _ => True) [] [])
    {c : Config D X K W T V C ε E} (h : S.Reachable init c) {i : Nat} {p : Proc D K W T C ε E}
    (hp : c.procs[i]? = some p) : ∃ L, (∀ k ∈ L, c.world.locks k = some i) ∧
      S.Claims M p.prog (fun _ _ _ => True) L (own i c.world.sh.trace) := by
  induction h generalizing i p with
  | init h => rw [h.procs] at hp; cases hp
  | @step a b ha hs ih =>
    cases hs with
    | @run w w' ps j call _ s k ch r hj he =>
      obtain ⟨vs, ht, -⟩ := exec_trace he
      by_cases hij : j = i
      · subst hij
        obtain ⟨L, hL, hcl⟩ := ih hj
        rw [List.getElem?_set_self (List.getElem?_eq_some_iff.mp hj).1] at hp
        cases hp
        refine ⟨s.claimed r L, exec_claimed he hL, ?_⟩
        have := hcl.2 he ht
        rwa [ht, own_append, own_map_self]
      · rw [List.getElem?_set_ne hij] at hp
        obtain ⟨L, hL, hcl⟩ := ih hp
        obtain ⟨-, hk, -⟩ := (exec_moved he).leaves ha.lockOk hij
        exact ⟨L, fun k hkL => hk k (hL k hkL), by rw [exec_own he hij]; exact hcl⟩
    | @start w ps call hadm =>
      rcases Nat.lt_or_ge i ps.length with hlt | hge
      · rw [List.getElem?_append_left hlt] at hp
        exact ih hp
      · rw [List.getElem?_append_right hge] at hp
        cases List.mem_singleton.mp (List.mem_of_getElem? hp)
        exact ⟨[], by simp, by rw [ha.unborn hge]; exact hcode call⟩
    | env => exact ih hp

end

end Sys
