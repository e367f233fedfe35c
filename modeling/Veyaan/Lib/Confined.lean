import Veyaan.Lib.Operations
import Veyaan.Lib.Runs

/-!
# Programs that leave something alone

`J` says of a store that a part of it is as it should be, `φ` of a write that it
does not touch that part. A program is confined when it makes no other writes,
whatever stores of `J` its statements meet. What a statement has answered stays
known as far as it tells something of all these stores: no lock is needed for it,
and no interference takes it back.
-/

open Relation (ReflTransGen)

namespace Sys

variable {D X K W R T V C ε α β : Type} {E : Type → Type}

def CanAnswer (J : D → Prop) : {β : Type} → Prim D K W T ε E β → β → Prop
  | _, .read _ q, b => ∃ d, J d ∧ q d = b
  | _, .fresh _ q, b => ∃ d, J d ∧ q d = b
  | _, .forUpdate _ sel _, rows => ∃ d, J d ∧ sel d = rows
  | _, .skipLocked sel _ _, rows => ∃ d, J d ∧ ∀ r ∈ rows, r ∈ sel d
  | _, .stmt _ f, _ => ∃ d ws, J d ∧ f d = .ok ws
  | _, _, _ => True

def Confined (J : D → Prop) (φ : W → Prop) : Prog (Prim D K W T ε E) ε α → (α → Prop) → Prop
  | .ret a, Q => Q a
  | .throw _, _ => True
  | .op c k, Q => Puts J φ _ c ∧ ∀ r, (∀ b, r = .ok b → CanAnswer J c b) → Confined J φ (k r) Q

section
variable {J : D → Prop} {φ : W → Prop}

namespace Confined

theorem mono {Q Q' : α → Prop} (h : ∀ a, Q a → Q' a) :
    ∀ {p : Prog (Prim D K W T ε E) ε α}, Confined J φ p Q → Confined J φ p Q'
  | .ret _, hp => h _ hp
  | .throw _, _ => trivial
  | .op _ _, hp => ⟨hp.1, fun r hr => mono h (hp.2 r hr)⟩

theorem bind {f : α → Prog (Prim D K W T ε E) ε β} {Q : β → Prop} :
    ∀ {p : Prog (Prim D K W T ε E) ε α}, Confined J φ p (fun a => Confined J φ (f a) Q) → Confined J φ (p.bind f) Q
  | .ret _, hp => hp
  | .throw _, _ => trivial
  | .op _ _, hp => ⟨hp.1, fun r hr => bind (hp.2 r hr)⟩

theorem attempt {Q : Except ε α → Prop} (he : ∀ e, Q (.error e)) :
    ∀ {p : Prog (Prim D K W T ε E) ε α}, Confined J φ p (fun a => Q (.ok a)) → Confined J φ p.attempt Q
  | .ret _, hp => hp
  | .throw e, _ => he e
  | .op _ _, hp => ⟨hp.1, fun r hr => attempt he (hp.2 r hr)⟩

theorem call {c : Prim D K W T ε E α} {Q : α → Prop} (h : Puts J φ _ c) (hQ : ∀ b, CanAnswer J c b → Q b) :
    Confined J φ (.call c) Q := by
  refine ⟨h, fun r hr => ?_⟩
  cases r with
  | ok b => exact hQ b (hr b rfl)
  | error e => trivial

end Confined

variable {S : Sys D X K W R T V C ε E} [DecidableEq K]

theorem exec_canAnswer (happly : ∀ d w, J d → φ w → J (S.apply w d)) {i : Nat} {ch : Bool} {c : Prim D K W T ε E β}
    {w w' : World D X K W V} {b : β} (h : S.exec i ch c w = some (.ok b, w')) (hJ : J w.sh.db)
    (hw : ∀ v ∈ (w.sess i).pend, φ v) : CanAnswer J c b := by
  have hview : J (S.view w i) := applyAll_keeps happly hJ hw
  generalize hr : Except.ok b = r at h
  cases exec_made h with
  | read | forUpdate => cases hr; exact ⟨_, hview, rfl⟩
  | fresh => cases hr; exact ⟨_, hJ, rfl⟩
  | skipLocked _ _ hrows =>
    cases hr
    subst hrows
    exact ⟨_, hview, fun r hr => (List.mem_filter.mp (List.mem_of_mem_take hr)).1⟩
  | stmt _ _ hws => cases hr; exact ⟨_, _, hview, hws⟩
  | commit | rollback | eff => trivial
  | _ => cases hr

theorem exec_pend (happly : ∀ d w, J d → φ w → J (S.apply w d)) {i : Nat} {ch : Bool} {c : Prim D K W T ε E β}
    {w w' : World D X K W V} {r : Except ε β} (h : S.exec i ch c w = some (r, w'))
    (hc : Puts J φ β c) (hJ : J w.sh.db) (hw : ∀ v ∈ (w.sess i).pend, φ v) : ∀ v ∈ (w'.sess i).pend, φ v := by
  have hlabel : ∀ ok (t : Option T), (S.label w i ok t).sess = w.sess := fun ok t => (label_parts ok t).2.1
  cases exec_made h with
  | readFailed | read | freshFailed | fresh => simpa [World.fail, World.setSess, hlabel] using hw
  | forUpdate => simpa [World.lockAll, hlabel] using hw
  | skipLocked => simpa [World.lockAll] using hw
  | rejected => simpa [World.fail, World.setSess, World.say] using hw
  | @stmt _ _ ws _ _ _ hws =>
    intro v hv
    simp only [World.setSess, if_true] at hv
    rcases List.mem_append.mp hv with hv | hv
    · exact hw v hv
    · exact hc _ ws (applyAll_keeps happly hJ hw) hws v hv
  | commit | rollback =>
    rw [(World.release_idle _ i).sess]
    intro v hv
    cases hv
  | eff => exact hw
  | _ => simpa [World.fail, World.setSess] using hw

/-- What the statement leaves: a store of `J`, and the sessions of the others. -/
theorem exec_confined (happly : ∀ d w, J d → φ w → J (S.apply w d)) {i : Nat} {ch : Bool} {c : Prim D K W T ε E β}
    {w w' : World D X K W V} {r : Except ε β} (h : S.exec i ch c w = some (r, w')) (hJ : J w.sh.db)
    (hw : ∀ v ∈ (w.sess i).pend, φ v) : J w'.sh.db ∧ ∀ j, j ≠ i → w'.sess j = w.sess j := by
  cases exec_moved h with
  | quiet _ hs _ hd => exact ⟨hd ▸ hJ, hs⟩
  | lock _ _ _ _ _ _ hs _ hd => exact ⟨hd ▸ hJ, hs⟩
  | done u _ hs hd he =>
    subst he
    constructor
    · rcases hd with hd | hd
      · exact hd ▸ hJ
      · exact hd ▸ applyAll_keeps happly hJ hw
    · intro j hj
      simp [World.release, World.setSess, hj, hs]

/-- The store is in `J`, and no process that still runs has anything else to write than
rows of `φ`. -/
structure Undisturbed (J : D → Prop) (φ : W → Prop) (c : Config D X K W T V C ε E) : Prop where
  store : J c.world.sh.db
  pend : ∀ i, (∀ p, c.procs[i]? = some p → p.prog.ended = false) → ∀ v ∈ (c.world.sess i).pend, φ v
  procs : ∀ p ∈ c.procs, Confined J φ p.prog fun _ => True

omit [DecidableEq K] in
theorem Confined.of_ended {p : Prog (Prim D K W T ε E) ε Unit} (h : p.ended = true) :
    Confined J φ p fun _ => True := by
  cases p with
  | ret | throw => trivial
  | op => cases h

omit [DecidableEq K] in
theorem Config.Quiet.undisturbed {c : Config D X K W T V C ε E} (h : c.Quiet) (hJ : J c.world.sh.db)
    (hsess : ∀ i, c.procs.length ≤ i → (c.world.sess i).pend = []) : Undisturbed J φ c := by
  refine ⟨hJ, ?_, ?_⟩
  · intro i hi
    by_cases hlt : i < c.procs.length
    · have hp := List.getElem?_eq_getElem hlt
      have := hi _ hp
      rw [h _ (List.mem_of_getElem? hp)] at this
      cases this
    · rw [hsess i (Nat.le_of_not_lt hlt)]
      intro v hv
      cases hv
  · intro p hp
    exact .of_ended (h p hp)

section
variable (happly : ∀ d w, J d → φ w → J (S.apply w d))
  (hcode : ∀ d x call, J d → S.admits d x call → Confined J φ (S.code call) fun _ => True)
include happly hcode

theorem Step.undisturbed {c c' : Config D X K W T V C ε E} (hs : S.Step c c') (h : Undisturbed J φ c) :
    Undisturbed J φ c' := by
  cases hs with
  | @run w w' ps i call β q k ch r hp he =>
    have hlive : ∀ p, ps[i]? = some p → p.prog.ended = false := by
      intro p hp'
      rw [hp] at hp'
      cases hp'
      rfl
    obtain ⟨hput, hrest⟩ := h.procs _ (List.mem_of_getElem? hp)
    have hpend := exec_pend happly he hput h.store (h.pend i hlive)
    obtain ⟨hJ, hothers⟩ := exec_confined happly he h.store (h.pend i hlive)
    refine ⟨hJ, ?_, ?_⟩
    · intro j hj
      by_cases hij : j = i
      · subst hij
        exact hpend
      · simp only [hothers j hij]
        apply h.pend
        intro p hp'
        apply hj
        rw [List.getElem?_set_ne (Ne.symm hij)]
        exact hp'
    · intro p hp'
      rcases List.mem_or_eq_of_mem_set hp' with hp' | rfl
      · exact h.procs p hp'
      · apply hrest
        intro b hb
        subst hb
        exact exec_canAnswer happly he h.store (h.pend i hlive)
  | @start w ps call ha =>
    refine ⟨h.store, ?_, ?_⟩
    · intro j hj
      apply h.pend
      intro p hp'
      apply hj
      rw [List.getElem?_append_left (List.getElem?_eq_some_iff.mp hp').1]
      exact hp'
    · intro p hp'
      rcases List.mem_append.mp hp' with hp' | hp'
      · exact h.procs p hp'
      · rw [List.mem_singleton.mp hp']
        exact hcode _ _ _ h.store ha
  | env => exact ⟨h.store, h.pend, h.procs⟩

/-- **Confinement.** Runs of confined programs do not leave `J`, whatever the interleaving. -/
theorem runs_undisturbed {c c' : Config D X K W T V C ε E} (hr : ReflTransGen S.Step c c') (h : Undisturbed J φ c) :
    Undisturbed J φ c' := by
  induction hr with
  | refl => exact h
  | tail _ hs ih => exact Step.undisturbed happly hcode hs ih

end

end

def among (S : Sys D X K W R T V C ε E) (A : C → Prop) : Sys D X K W R T V C ε E :=
  { S with admits := fun d x call => S.admits d x call ∧ A call }

end Sys
