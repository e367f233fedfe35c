import Mathlib.Logic.Relation
import Veyaan.Lib.Prog

/-!
# Interleaved programs over a READ COMMITTED store

Any number of processes run programs over one store. Each process has a
session: the writes it has not committed yet, and whether a statement of the
open transaction has failed. A statement is one step. It sees the committed
store with the session's own writes on top, it takes the row locks it needs
or waits, and its writes stay in the session until `commit` applies them all
at once. A failed statement leaves a transaction that takes nothing but
`rollback`.

Besides the store there is an external state, changed by effects of its own,
and a trace: what labelled statements and effects did, in the order in which
they did it. Programs cannot read the trace.
-/

/-- One statement or effect of a program. -/
inductive Prim (D K W T ε : Type) (E : Type → Type) : Type → Type 1
  /-- `SELECT` in the process's session. -/
  | read {β : Type} (t : Option T) (q : D → β) : Prim D K W T ε E β
  /-- `SELECT` in a session of its own: committed rows only. -/
  | fresh {β : Type} (t : Option T) (q : D → β) : Prim D K W T ε E β
  /-- `SELECT … FOR UPDATE`: waits for the locks of the rows it selects. -/
  | forUpdate {ρ : Type} (t : Option T) (sel : D → List ρ) (key : ρ → K) : Prim D K W T ε E (List ρ)
  /-- `SELECT … FOR UPDATE SKIP LOCKED LIMIT n`. -/
  | skipLocked {ρ : Type} (sel : D → List ρ) (key : ρ → K) (n : Nat) : Prim D K W T ε E (List ρ)
  /-- `INSERT` or `UPDATE`: waits for the locks `ks`, then writes or is rejected.
  The answer is the number of rows written. -/
  | stmt (ks : D → List K) (f : D → Except ε (List W)) : Prim D K W T ε E Nat
  | commit (t : Option T) : Prim D K W T ε E Unit
  | rollback : Prim D K W T ε E Unit
  | eff {β : Type} (e : E β) : Prim D K W T ε E β

def Prim.commits {D K W T ε β : Type} {E : Type → Type} : Prim D K W T ε E β → Option (Option T)
  | .commit t => some t
  | _ => none

/-- What a store, its external state and the programs over it are made of. -/
structure Sys (D X K W R T V C ε : Type) (E : Type → Type) where
  apply : W → D → D
  keys : W → List K
  row : K → D → R
  frame : ∀ w d k, k ∉ keys w → row k (apply w d) = row k d
  /-- A write sets its rows, whatever they were. -/
  sets : ∀ w d d' k, k ∈ keys w → row k (apply w d) = row k (apply w d')
  /-- What the trace says of a statement labelled `t` that succeeded or failed. -/
  see : T → Bool → D → X → V
  /-- What the trace says of a statement the store rejected. -/
  rejected : ε → V
  handle : ∀ {β : Type}, Bool → E β → X → Except ε β × X × List V
  dbError : ε
  /-- The calls that start a process, and when each may be made. -/
  code : C → Prog (Prim D K W T ε E) ε Unit
  admits : D → X → C → Prop
  /-- What the external state may do by itself. -/
  env : D → X → X → Prop

structure Session (W : Type) where
  pend : List W
  failed : Bool

structure Shared (D X V : Type) where
  db : D
  ext : X
  trace : List (Nat × V)

def Shared.say {D X V : Type} (s : Shared D X V) (i : Nat) (vs : List V) : Shared D X V :=
  { s with trace := s.trace ++ vs.map (i, ·) }

structure World (D X K W V : Type) where
  sh : Shared D X V
  locks : K → Option Nat
  sess : Nat → Session W

namespace Sys

variable {D X K W R T V C ε : Type} {E : Type → Type} (S : Sys D X K W R T V C ε E)

def applyAll (ws : List W) (d : D) : D := ws.foldl (fun d w => S.apply w d) d

@[simp] theorem applyAll_nil (d : D) : S.applyAll [] d = d := rfl
@[simp] theorem applyAll_cons (w : W) (ws : List W) (d : D) :
    S.applyAll (w :: ws) d = S.applyAll ws (S.apply w d) := rfl

theorem applyAll_append (ws vs : List W) (d : D) :
    S.applyAll (ws ++ vs) d = S.applyAll vs (S.applyAll ws d) := by
  unfold applyAll; exact List.foldl_append

theorem row_applyAll {k : K} : ∀ {ws : List W} (d : D), (∀ w ∈ ws, k ∉ S.keys w) →
    S.row k (S.applyAll ws d) = S.row k d
  | [], _, _ => rfl
  | w :: ws, d, h => by
    rw [applyAll_cons, row_applyAll _ fun v hv => h v (by simp [hv])]
    exact S.frame w d k (h w (by simp))

end Sys

namespace World

variable {D X K W V : Type}

def setSess (w : World D X K W V) (i : Nat) (s : Session W) : World D X K W V :=
  { w with sess := fun j => if j = i then s else w.sess j }

def fail (w : World D X K W V) (i : Nat) : World D X K W V :=
  w.setSess i { w.sess i with failed := true }

def say (w : World D X K W V) (i : Nat) (vs : List V) : World D X K W V :=
  { w with sh := w.sh.say i vs }

def free (w : World D X K W V) (i : Nat) (k : K) : Bool :=
  match w.locks k with
  | none => true
  | some j => j == i

section
variable [DecidableEq K]

def lockAll (w : World D X K W V) (i : Nat) (ks : List K) : World D X K W V :=
  { w with locks := fun k => if k ∈ ks then some i else w.locks k }

end

/-- The end of a transaction: no locks, no writes, a session in order. -/
def release (w : World D X K W V) (i : Nat) : World D X K W V :=
  { w.setSess i ⟨[], false⟩ with locks := fun k => if w.locks k = some i then none else w.locks k }

structure Idle (w : World D X K W V) (i : Nat) : Prop where
  sess : w.sess i = ⟨[], false⟩
  locks : ∀ k, w.locks k ≠ some i

theorem release_idle (w : World D X K W V) (i : Nat) : (w.release i).Idle i where
  sess := by simp [release, setSess]
  locks := by
    intro k h
    by_cases hk : w.locks k = some i
    · simp [release, hk] at h
    · simp [release, hk] at h

end World

namespace Sys

variable {D X K W R T V C ε : Type} {E : Type → Type} (S : Sys D X K W R T V C ε E)

/-- What a statement of process `i` sees. -/
def view (w : World D X K W V) (i : Nat) : D := S.applyAll (w.sess i).pend w.sh.db

def label (w : World D X K W V) (i : Nat) (ok : Bool) : Option T → World D X K W V
  | none => w
  | some t => w.say i [S.see t ok w.sh.db w.sh.ext]

variable [DecidableEq K]

/-- One step of process `i`. `ch` is the environment's choice: `false` makes a
statement fail, and an effect read it as it likes. `none` means that the
process has to wait for a lock. -/
def exec (i : Nat) (ch : Bool) : {β : Type} → Prim D K W T ε E β → World D X K W V →
    Option (Except ε β × World D X K W V)
  | _, .read t q, w =>
    if (w.sess i).failed || !ch then some (.error S.dbError, (S.label w i false t).fail i)
    else some (.ok (q (S.view w i)), S.label w i true t)
  | _, .fresh t q, w =>
    if !ch then some (.error S.dbError, S.label w i false t)
    else some (.ok (q w.sh.db), S.label w i true t)
  | _, .forUpdate t sel key, w =>
    if (w.sess i).failed || !ch then some (.error S.dbError, w.fail i)
    else if (sel (S.view w i)).all (w.free i ∘ key) then
      some (.ok (sel (S.view w i)), (S.label w i true t).lockAll i ((sel (S.view w i)).map key))
    else none
  | _, .skipLocked sel key n, w =>
    if (w.sess i).failed || !ch then some (.error S.dbError, w.fail i)
    else
      let rows := ((sel (S.view w i)).filter (w.free i ∘ key)).take n
      some (.ok rows, w.lockAll i (rows.map key))
  | _, .stmt ks f, w =>
    if (w.sess i).failed || !ch then some (.error S.dbError, w.fail i)
    else if (ks (S.view w i)).all (w.free i) then
      match f (S.view w i) with
      | .error e => some (.error e, (w.say i [S.rejected e]).fail i)
      | .ok ws =>
        let lks := ks (S.view w i) ++ ws.flatMap S.keys
        if lks.all (w.free i) then
          some (.ok ws.length, (w.lockAll i lks).setSess i ⟨(w.sess i).pend ++ ws, false⟩)
        else none
    else none
  | _, .commit t, w =>
    if (w.sess i).failed || !ch then some (.error S.dbError, w.fail i)
    else
      let w' := S.label w i true t
      some (.ok (), { w' with sh.db := S.view w i }.release i)
  | _, .rollback, w => some (.ok (), w.release i)
  | _, .eff e, w =>
    let a := S.handle ch e w.sh.ext
    some (a.1, { w.say i a.2.2 with sh.ext := a.2.1 })

structure Proc (D K W T C ε : Type) (E : Type → Type) where
  call : C
  prog : Prog (Prim D K W T ε E) ε Unit

structure Config (D X K W T V C ε : Type) (E : Type → Type) where
  world : World D X K W V
  procs : List (Proc D K W T C ε E)

/-- One step of the whole system. -/
inductive Step : Config D X K W T V C ε E → Config D X K W T V C ε E → Prop
  | run {w w' ps i call} {β : Type} {c : Prim D K W T ε E β} {k ch r} :
      ps[i]? = some ⟨call, .op c k⟩ → S.exec i ch c w = some (r, w') →
      Step ⟨w, ps⟩ ⟨w', ps.set i ⟨call, k r⟩⟩
  | start {w ps call} : S.admits w.sh.db w.sh.ext call → Step ⟨w, ps⟩ ⟨w, ps ++ [⟨call, S.code call⟩]⟩
  | env {w ps x} : S.env w.sh.db w.sh.ext x → Step ⟨w, ps⟩ ⟨{ w with sh.ext := x }, ps⟩

structure Initial (init : D → X → Prop) (c : Config D X K W T V C ε E) : Prop where
  procs : c.procs = []
  trace : c.world.sh.trace = []
  locks : ∀ k, c.world.locks k = none
  sess : ∀ i, c.world.sess i = ⟨[], false⟩
  init : init c.world.sh.db c.world.sh.ext

inductive Reachable (init : D → X → Prop) : Config D X K W T V C ε E → Prop
  | init {c} : Initial init c → Reachable init c
  | step {c c'} : Reachable init c → S.Step c c' → Reachable init c'

/-- What holds of every program and passes to what is left of it after a
statement holds of every process. -/
theorem Reachable.prog {S : Sys D X K W R T V C ε E} {init : D → X → Prop}
    {Ψ : C → Prog (Prim D K W T ε E) ε Unit → Prop} (hcode : ∀ call, Ψ call (S.code call))
    (hsub : ∀ {call} {β : Type} {c : Prim D K W T ε E β} {k} r, Ψ call (.op c k) → Ψ call (k r))
    {c : Config D X K W T V C ε E} (h : S.Reachable init c) {i : Nat} {p : Proc D K W T C ε E}
    (hp : c.procs[i]? = some p) : Ψ p.call p.prog := by
  induction h generalizing i p with
  | init h => rw [h.procs] at hp; cases hp
  | step _ hs ih =>
    cases hs with
    | @run w w' ps j call _ q k ch r hj he =>
      by_cases hij : j = i
      · subst hij
        rw [List.getElem?_set_self (List.getElem?_eq_some_iff.mp hj).1] at hp
        cases hp
        exact hsub r (ih hj)
      · rw [List.getElem?_set_ne hij] at hp
        exact ih hp
    | @start w ps call ha =>
      rcases Nat.lt_or_ge i ps.length with hlt | hge
      · rw [List.getElem?_append_left hlt] at hp
        exact ih hp
      · rw [List.getElem?_append_right hge] at hp
        cases List.mem_singleton.mp (List.mem_of_getElem? hp)
        exact hcode call
    | env => exact ih hp

/-- What a statement of process `i` comes to that does not have to wait. -/
inductive Made (S : Sys D X K W R T V C ε E) (i : Nat) (ch : Bool) (w : World D X K W V) :
    {β : Type} → Prim D K W T ε E β → Except ε β → World D X K W V → Prop
  | readFailed {β : Type} {t : Option T} {q : D → β} : (w.sess i).failed = true ∨ ch = false →
      Made S i ch w (.read t q) (.error S.dbError) ((S.label w i false t).fail i)
  | read {β : Type} {t : Option T} {q : D → β} : (w.sess i).failed = false → ch = true →
      Made S i ch w (.read t q) (.ok (q (S.view w i))) (S.label w i true t)
  | freshFailed {β : Type} {t : Option T} {q : D → β} : ch = false →
      Made S i ch w (.fresh t q) (.error S.dbError) (S.label w i false t)
  | fresh {β : Type} {t : Option T} {q : D → β} : ch = true →
      Made S i ch w (.fresh t q) (.ok (q w.sh.db)) (S.label w i true t)
  | forUpdateFailed {ρ : Type} {t : Option T} {sel : D → List ρ} {key : ρ → K} :
      (w.sess i).failed = true ∨ ch = false →
      Made S i ch w (.forUpdate t sel key) (.error S.dbError) (w.fail i)
  | forUpdate {ρ : Type} {t : Option T} {sel : D → List ρ} {key : ρ → K} :
      (w.sess i).failed = false → ch = true → (∀ a ∈ sel (S.view w i), w.free i (key a) = true) →
      Made S i ch w (.forUpdate t sel key) (.ok (sel (S.view w i)))
        ((S.label w i true t).lockAll i ((sel (S.view w i)).map key))
  | skipLockedFailed {ρ : Type} {sel : D → List ρ} {key : ρ → K} {n : Nat} :
      (w.sess i).failed = true ∨ ch = false →
      Made S i ch w (.skipLocked sel key n) (.error S.dbError) (w.fail i)
  | skipLocked {ρ : Type} {sel : D → List ρ} {key : ρ → K} {n : Nat} {rows : List ρ} :
      (w.sess i).failed = false → ch = true → rows = ((sel (S.view w i)).filter (w.free i ∘ key)).take n →
      Made S i ch w (.skipLocked sel key n) (.ok rows) (w.lockAll i (rows.map key))
  | stmtFailed {ks : D → List K} {f : D → Except ε (List W)} : (w.sess i).failed = true ∨ ch = false →
      Made S i ch w (.stmt ks f) (.error S.dbError) (w.fail i)
  | rejected {ks : D → List K} {f : D → Except ε (List W)} {e : ε} :
      (w.sess i).failed = false → ch = true → (∀ k ∈ ks (S.view w i), w.free i k = true) →
      f (S.view w i) = .error e →
      Made S i ch w (.stmt ks f) (.error e) ((w.say i [S.rejected e]).fail i)
  | stmt {ks : D → List K} {f : D → Except ε (List W)} {ws : List W} {lks : List K} :
      (w.sess i).failed = false → ch = true → f (S.view w i) = .ok ws →
      lks = ks (S.view w i) ++ ws.flatMap S.keys → (∀ k ∈ lks, w.free i k = true) →
      Made S i ch w (.stmt ks f) (.ok ws.length)
        ((w.lockAll i lks).setSess i ⟨(w.sess i).pend ++ ws, false⟩)
  | commitFailed {t : Option T} : (w.sess i).failed = true ∨ ch = false →
      Made S i ch w (.commit t) (.error S.dbError) (w.fail i)
  | commit {t : Option T} : (w.sess i).failed = false → ch = true → Made S i ch w (.commit t) (.ok ())
      (World.release { S.label w i true t with sh.db := S.view w i } i)
  | rollback : Made S i ch w .rollback (.ok ()) (w.release i)
  | eff {β : Type} {e : E β} : Made S i ch w (.eff e) (S.handle ch e w.sh.ext).1
      { w.say i (S.handle ch e w.sh.ext).2.2 with sh.ext := (S.handle ch e w.sh.ext).2.1 }

section
variable {S : Sys D X K W R T V C ε E} {i : Nat} {ch : Bool} {β : Type} {c : Prim D K W T ε E β}
  {w w' : World D X K W V} {r : Except ε β}

/-- The cases of a statement, told apart here alone. -/
theorem exec_made (h : S.exec i ch c w = some (r, w')) : S.Made i ch w c r w' := by
  have hgoes : ∀ {b : Bool}, ¬ (b || !ch) = true → b = false ∧ ch = true := by simp
  have hfails : ∀ {b : Bool}, (b || !ch) = true → b = true ∨ ch = false := by simp
  cases c with
  | read t q =>
    simp only [exec] at h
    split at h <;> cases h
    · rename_i hf; exact .readFailed (hfails hf)
    · rename_i hf; exact .read (hgoes hf).1 (hgoes hf).2
  | fresh t q =>
    simp only [exec] at h
    split at h <;> cases h
    · rename_i hf; exact .freshFailed (by simpa using hf)
    · rename_i hf; exact .fresh (by simpa using hf)
  | forUpdate t sel key =>
    simp only [exec] at h
    split at h
    · rename_i hf; cases h; exact .forUpdateFailed (hfails hf)
    · split at h <;> cases h
      rename_i hf hfree
      exact .forUpdate (hgoes hf).1 (hgoes hf).2 (List.all_eq_true.mp hfree)
  | skipLocked sel key n =>
    simp only [exec] at h
    split at h <;> cases h
    · rename_i hf; exact .skipLockedFailed (hfails hf)
    · rename_i hf; exact .skipLocked (hgoes hf).1 (hgoes hf).2 rfl
  | stmt ks f =>
    simp only [exec] at h
    split at h
    · rename_i hf; cases h; exact .stmtFailed (hfails hf)
    · rename_i hf
      split at h
      · rename_i hks
        split at h
        · rename_i e he
          cases h
          exact .rejected (hgoes hf).1 (hgoes hf).2 (List.all_eq_true.mp hks) he
        · rename_i ws hws
          split at h <;> cases h
          rename_i hlks
          exact .stmt (hgoes hf).1 (hgoes hf).2 hws rfl (List.all_eq_true.mp hlks)
      · cases h
  | commit t =>
    simp only [exec] at h
    split at h <;> cases h
    · rename_i hf; exact .commitFailed (hfails hf)
    · rename_i hf; exact .commit (hgoes hf).1 (hgoes hf).2
  | rollback => cases h; exact .rollback
  | eff e => cases h; exact .eff

/-- The store changes by commits alone. -/
theorem exec_store (h : S.exec i ch c w = some (r, w')) : w'.sh.db = w.sh.db ∨
    ∃ t, c.commits = some t ∧
      w'.sh.trace = w.sh.trace ++ t.toList.map fun t => (i, S.see t true w.sh.db w.sh.ext) := by
  have hlabel : ∀ ok t, (S.label w i ok t).sh.db = w.sh.db := by intro ok t; cases t <;> rfl
  cases exec_made h with
  | readFailed | read | freshFailed | fresh | forUpdate => exact .inl (hlabel _ _)
  | @commit t =>
    refine .inr ⟨t, rfl, ?_⟩
    cases t with
    | none => simp [World.release, World.setSess, label]
    | some t => rfl
  | _ => exact .inl rfl

omit [DecidableEq K] in
theorem label_ext {S : Sys D X K W R T V C ε E} {w : World D X K W V} {i : Nat} {ok : Bool} {t : Option T} :
    (S.label w i ok t).sh.ext = w.sh.ext := by
  cases t <;> rfl

/-- What is outside the store changes by calls to the outside alone. -/
theorem exec_outside (h : S.exec i ch c w = some (r, w')) :
    w'.sh.ext = w.sh.ext ∨ ∃ e : E β, c = .eff e ∧ w'.sh.ext = (S.handle ch e w.sh.ext).2.1 := by
  cases exec_made h with
  | readFailed | read | freshFailed | fresh | forUpdate | commit => exact .inl label_ext
  | eff => exact .inr ⟨_, rfl, rfl⟩
  | _ => exact .inl rfl

end

end Sys
