import Veyaan.Lib.Rely

/-!
# A call inside a program

A part of a program runs from its first statement to its answer while the other
processes go on (`Calling`). What a process may still do after an answer, or
after a statement of its own, is read off its program (`Prog.Since`), and goes
from there to the trace of every run (`Step.seen`).
-/

open Relation (ReflTransGen)

/-! ## What follows an answer -/

namespace Prog

variable {P : Type → Type 1} {ε α β : Type} {R T : ∀ β, P β → Except ε β → Prop}

/-- Once a request was answered as `T` says, the rest of the program satisfies
`Q`. Of the answers only those in `R` count. -/
def Since (R T : ∀ β, P β → Except ε β → Prop) (Q : Prog P ε α → Prop) : Prog P ε α → Prop
  | .ret _ => True
  | .throw _ => True
  | .op c k => ∀ r, R _ c r → (T _ c r → Q (k r)) ∧ (k r).Since R T Q

theorem All.since {φ : ∀ β, P β → Prop} : ∀ {p : Prog P ε α}, p.All φ → p.Since R T (All φ)
  | .ret _, _ => trivial
  | .throw _, _ => trivial
  | .op _ _, h => fun r _ => ⟨fun _ => h.2 r, (h.2 r).since⟩

theorem All.since_never {Q : Prog P ε α → Prop} : ∀ {p : Prog P ε α}, p.All (fun _ c => ∀ r, ¬ T _ c r) →
    p.Since R T Q
  | .ret _, _ => trivial
  | .throw _, _ => trivial
  | .op _ _, h => fun r _ => ⟨fun ht => absurd ht (h.1 r), (h.2 r).since_never⟩

theorem Since.mono {Q Q' : Prog P ε α → Prop} (hQ : ∀ q, Q q → Q' q) : ∀ {p : Prog P ε α}, p.Since R T Q →
    p.Since R T Q'
  | .ret _, _ => trivial
  | .throw _, _ => trivial
  | .op _ _, h => fun r hr => ⟨fun ht => hQ _ ((h r hr).1 ht), (h r hr).2.mono hQ⟩

theorem Since.bind {Q : Prog P ε α → Prop} {Q' : Prog P ε β → Prop} {f : α → Prog P ε β}
    (hQ : ∀ q, Q q → Q' (q.bind f)) (hf : ∀ a, (f a).Since R T Q') : ∀ {p : Prog P ε α}, p.Since R T Q →
    (p.bind f).Since R T Q'
  | .ret a, _ => hf a
  | .throw _, _ => trivial
  | .op _ _, h => fun r hr => ⟨fun ht => hQ _ ((h r hr).1 ht), (h r hr).2.bind hQ hf⟩

theorem Since.attempt {Q : Prog P ε α → Prop} {Q' : Prog P ε (Except ε α) → Prop} (hQ : ∀ q, Q q → Q' q.attempt) :
    ∀ {p : Prog P ε α}, p.Since R T Q → p.attempt.Since R T Q'
  | .ret _, _ => trivial
  | .throw _, _ => trivial
  | .op _ _, h => fun r hr => ⟨fun ht => hQ _ ((h r hr).1 ht), (h r hr).2.attempt hQ⟩

theorem Since.after {Q : Prog P ε β → Prop} {p : Prog P ε α} {f : α → Prog P ε β}
    (hp : p.All fun _ c => ∀ r, ¬ T _ c r) (hf : ∀ a, (f a).Since R T Q) : (p.bind f).Since R T Q :=
  Since.bind (Q := fun _ => False) (fun _ h => h.elim) hf hp.since_never

theorem Since.andThen {φ : ∀ β, P β → Prop} {p : Prog P ε α} {f : α → Prog P ε β} (hp : p.Since R T (All φ))
    (hf : ∀ a, (f a).All φ) : (p.bind f).Since R T (All φ) :=
  hp.bind (fun _ h => h.bind hf) fun a => (hf a).since

end Prog

namespace Sys

variable {D X K W R T V C ε α : Type} {E : Type → Type} (S : Sys D X K W R T V C ε E)

/-- The answers that a statement can give: one that skips rows gives some of
those it selects. -/
def Answers : (β : Type) → Prim D K W T ε E β → Except ε β → Prop
  | _, .skipLocked sel _ _, .ok rows => ∃ d, rows.Sublist (sel d)
  | _, _, _ => True

variable [DecidableEq K]

theorem exec_answers {S : Sys D X K W R T V C ε E} {i : Nat} {ch : Bool} {β : Type} {c : Prim D K W T ε E β}
    {w w' : World D X K W V} {r} (h : S.exec i ch c w = some (r, w')) : Answers β c r := by
  cases c with
  | skipLocked sel key n =>
    simp only [exec] at h
    split at h <;> cases h
    · trivial
    · exact ⟨_, (List.take_sublist ..).trans List.filter_sublist⟩
  | _ => cases r <;> trivial

/-! ## One process in a step of the system -/

inductive Seen (i : Nat) (p : Proc D K W T C ε E) (c c' : Config D X K W T V C ε E) : Prop
  | other : c'.procs[i]? = some p → own i c'.world.sh.trace = own i c.world.sh.trace → Seen i p c c'
  | self {β : Type} {s : Prim D K W T ε E β} {k ch r} {vs : List V} : p.prog = .op s k →
      S.exec i ch s c.world = some (r, c'.world) → c'.world.sh.trace = c.world.sh.trace ++ vs.map (i, ·) →
      (∀ v ∈ vs, S.Says c.world s v) → c'.procs[i]? = some ⟨p.call, k r⟩ → Seen i p c c'

section
variable {S} {init : D → X → Prop} {c c' : Config D X K W T V C ε E} {i : Nat} {p : Proc D K W T C ε E}

theorem Step.seen (h : S.Step c c') (hp : c.procs[i]? = some p) : S.Seen i p c c' := by
  cases h with
  | @run w w' ps j call _ s k ch r hj he =>
    by_cases hij : j = i
    · subst hij
      obtain ⟨vs, ht, hv⟩ := exec_trace he
      rw [hj] at hp
      cases hp
      exact .self rfl he ht hv (List.getElem?_set_self (List.getElem?_eq_some_iff.mp hj).1)
    · exact .other (by rw [List.getElem?_set_ne hij]; exact hp) (exec_own he hij)
  | @start w ps call =>
    exact .other (by rw [List.getElem?_append_left (List.getElem?_eq_some_iff.mp hp).1]; exact hp) rfl
  | env => exact .other hp rfl

/-- What holds of a process and its entries goes on to hold if its own
statements keep it. -/
theorem runs_keep {Φ : List V → Prog (Prim D K W T ε E) ε Unit → Prop}
    (hsub : ∀ {l} {β : Type} {s : Prim D K W T ε E β} {k ch r} {vs : List V} {w w' : World D X K W V},
      Φ l (.op s k) →
      S.exec i ch s w = some (r, w') → w'.sh.trace = w.sh.trace ++ vs.map (i, ·) → (∀ v ∈ vs, S.Says w s v) →
      Φ (l ++ vs) (k r))
    (hr : ReflTransGen S.Step c c') (hp : c.procs[i]? = some p) (h : Φ (own i c.world.sh.trace) p.prog) :
    ∃ q, c'.procs[i]? = some ⟨p.call, q⟩ ∧ Φ (own i c'.world.sh.trace) q := by
  induction hr with
  | refl => exact ⟨p.prog, hp, h⟩
  | @tail b d _ hs ih =>
    obtain ⟨q, hq, hΦ⟩ := ih
    cases hs.seen hq with
    | other hq' ht => exact ⟨q, hq', ht ▸ hΦ⟩
    | self hop he ht hv hq' =>
      cases hop
      refine ⟨_, hq', ?_⟩
      rw [ht, own_append, own_map_self]
      exact hsub hΦ he ht hv

theorem Reachable.unborn (h : S.Reachable init c) (hi : c.procs.length ≤ i) : own i c.world.sh.trace = [] := by
  induction h with
  | init h => rw [h.trace]; rfl
  | @step a b _ hs ih =>
    cases hs with
    | @run w w' ps j call _ s k ch r hj he =>
      have hlt := (List.getElem?_eq_some_iff.mp hj).1
      simp only [List.length_set] at hi
      rw [exec_own he (Nat.ne_of_lt (Nat.lt_of_lt_of_le hlt hi))]
      exact ih hi
    | start =>
      simp only [List.length_append, List.length_cons, List.length_nil] at hi
      exact ih (Nat.le_of_succ_le hi)
    | env => exact ih hi

/-- What holds of every program at its start, and is kept by its statements,
holds of every process and its entries. -/
theorem Reachable.history {Ψ : C → List V → Prog (Prim D K W T ε E) ε Unit → Prop}
    (hcode : ∀ call, Ψ call [] (S.code call))
    (hsub : ∀ {call l} {β : Type} {s : Prim D K W T ε E β} {k i ch r} {vs : List V} {w w' : World D X K W V},
      Ψ call l (.op s k) → S.exec i ch s w = some (r, w') → w'.sh.trace = w.sh.trace ++ vs.map (i, ·) →
      (∀ v ∈ vs, S.Says w s v) → Ψ call (l ++ vs) (k r))
    (h : S.Reachable init c) (hp : c.procs[i]? = some p) : Ψ p.call (own i c.world.sh.trace) p.prog := by
  induction h generalizing p with
  | init h => rw [h.procs] at hp; cases hp
  | @step a b ha hs ih =>
    rcases Nat.lt_or_ge i a.procs.length with hlt | hge
    · have hq := List.getElem?_eq_getElem hlt
      obtain ⟨q, hq', hΨ⟩ := runs_keep (Φ := Ψ (a.procs[i]).call) hsub (.single hs) hq (ih hq)
      rw [hq'] at hp
      cases hp
      exact hΨ
    · have ht := ha.unborn hge
      cases hs with
      | run hj =>
        have := (List.getElem?_eq_some_iff.mp hp).1
        simp only [List.length_set] at this
        exact absurd this (Nat.not_lt.mpr hge)
      | start =>
        simp only at hge ht
        rw [List.getElem?_append_right hge] at hp
        cases List.mem_singleton.mp (List.mem_of_getElem? hp)
        rw [ht]
        exact hcode _
      | env =>
        exact absurd (List.getElem?_eq_some_iff.mp hp).1 (Nat.not_lt.mpr hge)

theorem Reachable.launch {w w' : World D X K W V} {ps : List (Proc D K W T C ε E)} (h : S.Reachable init ⟨w, ps⟩)
    {a : C} (ha : S.admits w.sh.db w.sh.ext a) {β : Type} {s : Prim D K W T ε E β} {k} (hcode : S.code a = .op s k)
    {ch : Bool} {r} (he : S.exec ps.length ch s w = some (r, w')) :
    ∃ ps', S.Reachable init ⟨w', ps'⟩ ∧ ps'[ps.length]? = some ⟨a, k r⟩ := by
  have hlast : (ps ++ [⟨a, S.code a⟩])[ps.length]? = some (Proc.mk a (.op s k)) := by
    rw [List.getElem?_concat_length, hcode]
  exact ⟨_, .step (.step h (.start ha)) (.run hlast he), List.getElem?_set_self (by simp)⟩

end

/-! ## A call -/

/-- Process `i` runs the part `q` of its program, which goes on with `rest`, from
`c` to the answer `a` at `c'`. The other processes go on, and `φ` holds all
the while. -/
inductive Calling (φ : Shared D X V → Prop) (i : Nat) (call : C) (rest : α → Prog (Prim D K W T ε E) ε Unit) :
    Prog (Prim D K W T ε E) ε α → Config D X K W T V C ε E → α → Config D X K W T V C ε E → Prop
  | ret {a c} : φ c.world.sh → c.procs[i]? = some ⟨call, rest a⟩ → Calling φ i call rest (.ret a) c a c
  | self {β : Type} {s : Prim D K W T ε E β} {k ch r w' c a c'} : φ c.world.sh →
      c.procs[i]? = some ⟨call, (Prog.op s k).bind rest⟩ → S.exec i ch s c.world = some (r, w') →
      Calling φ i call rest (k r) ⟨w', c.procs.set i ⟨call, (k r).bind rest⟩⟩ a c' →
      Calling φ i call rest (.op s k) c a c'
  | other {q c c₁ a c'} : φ c.world.sh → S.Step c c₁ → c₁.procs[i]? = c.procs[i]? →
      own i c₁.world.sh.trace = own i c.world.sh.trace → Calling φ i call rest q c₁ a c' →
      Calling φ i call rest q c a c'

section
variable {S} {φ : Shared D X V → Prop} {i : Nat} {call : C} {rest : α → Prog (Prim D K W T ε E) ε Unit} {a : α}
variable {c c' : Config D X K W T V C ε E}

theorem Calling.runs {q : Prog (Prim D K W T ε E) ε α} (h : S.Calling φ i call rest q c a c') :
    ReflTransGen S.Step c c' := by
  induction h with
  | ret => exact .refl
  | self _ hp he _ ih => exact .head (.run hp he) ih
  | other _ hs _ _ _ ih => exact .head hs ih

theorem Calling.start {q : Prog (Prim D K W T ε E) ε α} (h : S.Calling φ i call rest q c a c') :
    c.procs[i]? = some ⟨call, q.bind rest⟩ := by
  induction h with
  | ret _ hp => exact hp
  | self _ hp => exact hp
  | other _ _ hp _ _ ih => rw [← hp]; exact ih

theorem Calling.done {q : Prog (Prim D K W T ε E) ε α} (h : S.Calling φ i call rest q c a c') :
    c'.procs[i]? = some ⟨call, rest a⟩ := by
  induction h with
  | ret _ hp => exact hp
  | self _ _ _ _ ih => exact ih
  | other _ _ _ _ _ ih => exact ih

theorem Calling.entries {q : Prog (Prim D K W T ε E) ε α} {Φ : V → Prop} (h : S.Calling φ i call rest q c a c')
    (hq : q.All fun _ s => ∀ w v, S.Says w s v → Φ v) {v : V} (hv : v ∈ own i c'.world.sh.trace) :
    v ∈ own i c.world.sh.trace ∨ Φ v := by
  induction h with
  | ret => exact .inl hv
  | self _ _ he _ ih =>
    obtain ⟨vs, ht, hs⟩ := exec_trace he
    rcases ih (hq.2 _) hv with hm | hm
    · simp only [ht, own_append, own_map_self] at hm
      exact (List.mem_append.mp hm).imp_right fun hm => hq.1 _ v (hs v hm)
    · exact .inr hm
  | other _ _ _ ht _ ih => exact (ih hq hv).imp_left fun hm => ht ▸ hm

theorem Calling.of_ret {b : α} (h : S.Calling φ i call rest (.ret b) c a c') : a = b := by
  generalize hq : Prog.ret b = q at h
  induction h with
  | ret => cases hq; rfl
  | self => cases hq
  | other _ _ _ _ _ ih => exact ih hq

theorem Calling.of_op {β : Type} {s : Prim D K W T ε E β} {k} (h : S.Calling φ i call rest (.op s k) c a c') :
    ∃ c₁ ch r w' ps, ReflTransGen S.Step c c₁ ∧ φ c₁.world.sh ∧ S.exec i ch s c₁.world = some (r, w') ∧
      S.Step c₁ ⟨w', ps⟩ ∧ S.Calling φ i call rest (k r) ⟨w', ps⟩ a c' := by
  generalize hq : Prog.op s k = q at h
  induction h with
  | ret => cases hq
  | @self _ _ _ ch r w' c a c' hφ hp he hk =>
    cases hq
    exact ⟨c, ch, r, w', _, .refl, hφ, he, .run hp he, hk⟩
  | other _ hs _ _ _ ih =>
    obtain ⟨c₁, ch, r, w', ps, hr, h⟩ := ih hq
    exact ⟨c₁, ch, r, w', ps, .head hs hr, h⟩

end

end Sys
