import Mathlib.Order.Defs.PartialOrder
import Veyaan.Lib.Serial

/-!
# Sequences of operations

A serial run cut into its calls: each starts in a state where all others have
ended, and runs to its end. What a call does to the store is a relation between
the store it starts on and every store it commits.
-/

open Relation (ReflTransGen)

namespace Sys

variable {D X K W R T V C ε : Type} {E : Type → Type} (S : Sys D X K W R T V C ε E) [DecidableEq K]

def Config.Quiet (c : Config D X K W T V C ε E) : Prop := ∀ p ∈ c.procs, p.prog.ended = true

/-- `call` starts in `c`, where all others have ended, and has come as far as this. -/
inductive Operation (call : C) (c : Config D X K W T V C ε E) : Config D X K W T V C ε E → Prop
  | start : c.Quiet → S.admits c.world.sh.db c.world.sh.ext call →
      Operation call c ⟨c.world, c.procs ++ [⟨call, S.code call⟩]⟩
  | step {c' c''} : Operation call c c' → S.Step c' c'' → c''.procs.length = c'.procs.length → Operation call c c''

def Served (A : Config D X K W T V C ε E → C → Prop) (c c' : Config D X K W T V C ε E) : Prop :=
  ∃ call, A c call ∧ S.Operation call c c' ∧ c'.Quiet

section
variable {S} {I : D → Prop} {Q : D → D → Prop} {A : Config D X K W T V C ε E → C → Prop} {init : D → X → Prop}
  {c c' : Config D X K W T V C ε E} {call : C}

theorem Operation.reachable (h : S.Operation call c c') (hr : S.Reachable init c) : S.Reachable init c' := by
  induction h with
  | start _ ha => exact .step hr (.start ha)
  | step _ hs _ ih => exact .step ih hs

theorem Operation.quiet (h : S.Operation call c c') : c.Quiet := by
  induction h with
  | start hq => exact hq
  | step _ _ _ ih => exact ih

theorem Operation.serially (h : S.Operation call c c') : ReflTransGen S.SerialStep c c' := by
  induction h with
  | start hq ha => exact .single ⟨.start ha, .inr hq⟩
  | step _ hs hlen ih => exact ih.tail ⟨hs, .inl hlen⟩

omit [DecidableEq K] in
theorem Sequential.quiet {J : D → Prop} (h : S.Sequential I c) (hq : c.Quiet) (hJ : J c.world.sh.db) :
    S.Sequential J c :=
  ⟨hJ, h.unborn, .inl ⟨hq, h.unlocked hq⟩⟩

omit [DecidableEq K] in
theorem Sequential.next (h : S.Sequential I c) (hq : c.Quiet) :
    S.Matches c.procs.length c.world c.world.sh.db (.idle c.world.sh.db) := by
  have hs := h.unborn c.procs.length (Nat.le_refl _)
  refine ⟨rfl, by simp [Sys.view, hs, Open.idle], by simp [hs, Open.idle], fun k j hk => ?_⟩
  rw [h.unlocked hq k] at hk
  cases hk

/-- What every call keeps that runs alone, a serial run keeps that starts between calls. -/
theorem Sequential.serially {J : D → Prop} (h : S.Sequential J c) (hc : S.Reachable init c)
    (hr : ReflTransGen S.SerialStep c c')
    (hcode : ∀ (c : Config D X K W T V C ε E) call, S.Reachable init c →
      S.admits c.world.sh.db c.world.sh.ext call →
      J c.world.sh.db → S.alone true (fun _ => True) J (S.code call) (fun _ d' o' => J d' ∧ o'.locks = false)
        c.world.sh.db (.idle c.world.sh.db)) : S.Reachable init c' ∧ S.Sequential J c' := by
  induction hr with
  | refl => exact ⟨hc, h⟩
  | @tail b c' _ hs ih =>
    obtain ⟨hb, hJ⟩ := ih
    exact ⟨.step hb hs.step, hJ.step hs fun call _ ha => hcode b call hb ha hJ.store⟩

theorem Operation.sequential (ho : S.Operation call c c') (h : S.Sequential I c)
    (hQ : Q c.world.sh.db c.world.sh.db)
    (hcode : S.admits c.world.sh.db c.world.sh.ext call →
      S.alone true (fun _ => True) (Q c.world.sh.db) (S.code call)
      (fun _ d' o' => Q c.world.sh.db d' ∧ o'.locks = false) c.world.sh.db (.idle c.world.sh.db)) :
    S.Sequential (Q c.world.sh.db) c' := by
  induction ho with
  | start hq ha =>
    refine (h.quiet hq hQ).step ⟨.start ha, .inr hq⟩ fun call' he ha' => ?_
    simp only [List.append_cancel_left_eq, List.cons.injEq, and_true, Proc.mk.injEq] at he
    obtain ⟨rfl, -⟩ := he
    exact hcode ha
  | step _ hs hlen ih =>
    refine ih.step ⟨hs, .inl hlen⟩ fun call' he _ => ?_
    rw [he] at hlen
    simp at hlen

theorem Operation.answered {J : X → Prop} {L : D → Prop} {Φ : Except ε Unit → D → Open D → Prop}
    (ho : S.Operation call c c')
    (h : S.Sequential I c) (hJ : ∀ {c c' : Config D X K W T V C ε E}, S.Step c c' →
      J c.world.sh.ext → J c'.world.sh.ext)
    (hc : J c.world.sh.ext) (hcode : S.admits c.world.sh.db c.world.sh.ext call →
      S.alone true J L (S.code call) Φ c.world.sh.db (.idle c.world.sh.db)) :
    ∃ p o, c'.procs = c.procs ++ [⟨call, p⟩] ∧ S.Matches c.procs.length c'.world c'.world.sh.db o ∧
      S.alone true J L p Φ c'.world.sh.db o ∧ J c'.world.sh.ext := by
  induction ho with
  | start hq ha => exact ⟨S.code call, _, rfl, h.next hq, hcode ha, hc⟩
  | @step a b ho hs hlen ih =>
    obtain ⟨p, o, hp, hm, hk, hx⟩ := ih
    have hnext := hJ hs hx
    cases hs with
    | @run w w' ps j call' _ q k ch r hj he =>
      simp only at hp hm hk hx
      subst hp
      by_cases hlt : j < c.procs.length
      · rw [List.getElem?_append_left hlt] at hj
        have hq := ho.quiet _ (List.mem_of_getElem? hj)
        cases hq
      · have hlast : j = c.procs.length := by
          have := (List.getElem?_eq_some_iff.mp hj).1
          simp only [List.length_append, List.length_cons, List.length_nil] at this
          omega
        subst hlast
        rw [List.getElem?_concat_length] at hj
        cases hj
        obtain ⟨d', o', hm', hk', -⟩ := exec_after hm hx (.inl rfl) hk he
        have hdb : w'.sh.db = d' := hm'.db
        subst hdb
        exact ⟨k r, o', by simp, hm', hk', hnext⟩
    | start => simp at hlen
    | env => exact ⟨p, o, hp, ⟨hm.db, hm.view, hm.failed, hm.locks⟩, hk, hnext⟩

/-- What holds when a serial run starts between calls, what the environment keeps between
calls, and what every call keeps up to each of its steps, holds in every state of the run. -/
theorem serial_calls_induct {M : Config D X K W T V C ε E → Prop} (hq : c.Quiet) (hc : M c)
    (henv : ∀ {b b'}, M b → S.Step b b' → b'.procs = b.procs → b'.world.sh.db = b.world.sh.db → M b')
    (hop : ∀ {call b b'}, M b → S.Operation call b b' → M b') (hr : ReflTransGen S.SerialStep c c') : M c' := by
  suffices hall : M c' ∧ (c'.Quiet ∨ ∃ call b, M b ∧ S.Operation call b c') from hall.1
  induction hr with
  | refl => exact ⟨hc, .inl hq⟩
  | @tail b c' _ hs ih =>
    obtain ⟨hM, hcase⟩ := ih
    have hquiet : b.Quiet → M c' ∧ (c'.Quiet ∨ ∃ call a, M a ∧ S.Operation call a c') := fun hq => by
      cases hs.step with
      | run hp => cases hq _ (List.mem_of_getElem? hp)
      | start hadm => exact ⟨hop hM (.start hq hadm), .inr ⟨_, _, hM, .start hq hadm⟩⟩
      | env hx => exact ⟨henv hM (.env hx) rfl rfl, .inl hq⟩
    rcases hcase with hq | ⟨call, a, ha, ho⟩
    · exact hquiet hq
    · rcases hs.serial with hlen | hq
      · have ho' := ho.step hs.step hlen
        exact ⟨hop ha ho', .inr ⟨call, a, ha, ho'⟩⟩
      · exact hquiet hq

/-- What holds initially, and what every call keeps that is allowed and runs alone,
holds between the calls. -/
theorem served_induct (hrefl : ∀ d, I d → Q d d) (hkeep : ∀ d d', I d → Q d d' → I d')
    (hcode : ∀ (c : Config D X K W T V C ε E) call, S.Reachable init c → A c call →
      S.admits c.world.sh.db c.world.sh.ext call → I c.world.sh.db →
      S.alone true (fun _ => True) (Q c.world.sh.db) (S.code call)
      (fun _ d' o' => Q c.world.sh.db d' ∧ o'.locks = false)
        c.world.sh.db (.idle c.world.sh.db)) {c₀ : Config D X K W T V C ε E} (h₀ : Initial init c₀)
    (hI : I c₀.world.sh.db) (hr : ReflTransGen (S.Served A) c₀ c) :
    S.Reachable init c ∧ S.Sequential I c := by
  induction hr with
  | refl =>
    exact ⟨.init h₀, hI, fun j _ => h₀.sess j, .inl ⟨by rw [h₀.procs]; simp, h₀.locks⟩⟩
  | tail _ hs ih =>
    obtain ⟨hreach, hseq⟩ := ih
    obtain ⟨call, ha, ho, hq⟩ := hs
    have := ho.sequential hseq (hrefl _ hseq.store) fun hadm => hcode _ call hreach ha hadm hseq.store
    exact ⟨ho.reachable hreach, this.quiet hq (hkeep _ _ hseq.store this.store)⟩

end

/-! ## What rises from call to call -/

section
variable {S} {τ : Type} [Preorder τ] {f : X → τ} {J₀ : X → Prop} {I₀ I : D → Prop}
    {G : τ → D → Prop} {init : D → X → Prop}
  {c c' : Config D X K W T V C ε E} {call : C} {t : τ}

/-- What neither the calls to the outside nor the environment take back, no step does. -/
theorem step_rises (hh : ∀ {β : Type} ch (e : E β) x, f x ≤ f (S.handle ch e x).2.1)
    (henv : ∀ d x x', S.env d x x' → f x ≤ f x') (hs : S.Step c c') : f c.world.sh.ext ≤ f c'.world.sh.ext := by
  cases hs with
  | run _ he =>
    rcases exec_outside he with hx | ⟨e, -, hx⟩
    · rw [hx]
    · rw [hx]; exact hh _ e _
  | start => exact le_refl _
  | env hx => exact henv _ _ _ hx

section
variable (hstep : ∀ {c c' : Config D X K W T V C ε E}, S.Step c c' → f c.world.sh.ext ≤ f c'.world.sh.ext)
include hstep

theorem Operation.rises (ho : S.Operation call c c') : f c.world.sh.ext ≤ f c'.world.sh.ext := by
  induction ho with
  | start => exact le_refl _
  | step _ hs _ ih => exact le_trans ih (hstep hs)

/-- What a call has committed up to `c'` it has made of what it saw between the two
moments. -/
theorem Operation.between (ho : S.Operation call c c') (h : S.SequentialIn J₀ I₀ c) (hI : I c.world.sh.db)
    (ht : f c'.world.sh.ext ≤ t)
    (hcode : S.admits c.world.sh.db c.world.sh.ext call →
      S.alone true (fun x => f c.world.sh.ext ≤ f x ∧ f x ≤ t) I (S.code call)
      (fun _ d' o' => I d' ∧ o'.locks = false) c.world.sh.db (.idle c.world.sh.db)) :
    S.SequentialIn (fun x => f c.world.sh.ext ≤ f x ∧ f x ≤ t) I c' := by
  induction ho with
  | start hq ha =>
    have hidle : S.SequentialIn (fun x => f c.world.sh.ext ≤ f x ∧ f x ≤ t) I c :=
      ⟨hI, h.unborn, .inl ⟨hq, h.unlocked hq⟩⟩
    refine hidle.step ⟨le_refl _, ht⟩ ⟨.start ha, .inr hq⟩ fun call' he ha' => ?_
    simp only [List.append_cancel_left_eq, List.cons.injEq, and_true, Proc.mk.injEq] at he
    obtain ⟨rfl, -⟩ := he
    exact hcode ha
  | step ho hs hlen ih =>
    have hlt := le_trans (hstep hs) ht
    refine (ih hlt).step ⟨ho.rises hstep, hlt⟩ ⟨hs, .inl hlen⟩ fun call' he _ => ?_
    rw [he] at hlen
    simp at hlen

/-- What the store says at a moment, when a call that begins with it keeps it up to
every later moment, holds at each moment of a serial run. -/
theorem serial_rising (hinit : ∀ d x, init d x → G (f x) d) (hmono : ∀ {t t' d}, t ≤ t' → G t d → G t' d)
    (hcode : ∀ (c : Config D X K W T V C ε E) call t, S.Reachable init c →
      S.admits c.world.sh.db c.world.sh.ext call →
      G (f c.world.sh.ext) c.world.sh.db → f c.world.sh.ext ≤ t →
      S.alone true (fun x => f c.world.sh.ext ≤ f x ∧ f x ≤ t) (G t) (S.code call)
        (fun _ d' o' => G t d' ∧ o'.locks = false) c.world.sh.db (.idle c.world.sh.db))
    (h : S.Serial init c) : G (f c.world.sh.ext) c.world.sh.db := by
  obtain ⟨c₀, h₀, hr⟩ := h
  suffices hall : G (f c.world.sh.ext) c.world.sh.db ∧ S.Reachable init c ∧ (∃ J I, S.SequentialIn J I c) ∧
      (c.Quiet ∨ ∃ call b J I, S.Operation call b c ∧ S.Reachable init b ∧ S.SequentialIn J I b ∧
        G (f b.world.sh.ext) b.world.sh.db) from hall.1
  -- a call that has come as far as `b` has committed what it may up to that moment
  have hop : ∀ {call b c J I}, S.Operation call b c → S.Reachable init b → S.SequentialIn J I b →
      G (f b.world.sh.ext) b.world.sh.db → G (f c.world.sh.ext) c.world.sh.db ∧ ∃ J I, S.SequentialIn J I c :=
    fun {call b c _ _} ho hb hs hK => by
      have := ho.between (I := G (f c.world.sh.ext)) hstep hs (hmono (ho.rises hstep) hK) (le_refl _)
        fun ha => hcode b call _ hb ha hK (ho.rises hstep)
      exact ⟨this.store, _, _, this⟩
  induction hr with
  | refl =>
    have hquiet : c₀.Quiet := by
      intro p hp
      rw [h₀.procs] at hp
      cases hp
    exact ⟨hinit _ _ h₀.init, .init h₀, ⟨fun _ => True, fun _ => True, trivial,
      fun j _ => h₀.sess j, .inl ⟨hquiet, h₀.locks⟩⟩, .inl hquiet⟩
  | @tail b c _ hs ih =>
    obtain ⟨hK, hb, ⟨J, I, hseq⟩, hcase⟩ := ih
    have hc := hb.step hs.step
    have hquiet : b.Quiet → G (f c.world.sh.ext) c.world.sh.db ∧ S.Reachable init c ∧
      (∃ J I, S.SequentialIn J I c) ∧
        (c.Quiet ∨ ∃ call b J I, S.Operation call b c ∧ S.Reachable init b ∧ S.SequentialIn J I b ∧
          G (f b.world.sh.ext) b.world.sh.db) := fun hq => by
      cases hs.step with
      | run hp => cases hq _ (List.mem_of_getElem? hp)
      | start hadm =>
        have ho := Operation.start hq hadm
        obtain ⟨hG, hseq'⟩ := hop ho hb hseq hK
        exact ⟨hG, hc, hseq', .inr ⟨_, _, J, I, ho, hb, hseq, hK⟩⟩
      | env hx =>
        exact ⟨hmono (hstep hs.step) hK, hc, ⟨J, I, hseq.store, hseq.unborn, .inl ⟨hq, hseq.unlocked hq⟩⟩, .inl hq⟩
    rcases hcase with hq | ⟨call, a, J', I', ho, ha, hsa, hKa⟩
    · exact hquiet hq
    · rcases hs.serial with hlen | hq
      · have ho' := ho.step hs.step hlen
        obtain ⟨hG, hseq'⟩ := hop ho' ha hsa hKa
        exact ⟨hG, hc, hseq', .inr ⟨call, a, J', I', ho', ha, hsa, hKa⟩⟩
      · exact hquiet hq

end

end

/-! ## Performing calls -/

def perform (call : C) (c : Config D X K W T V C ε E) : Option (Config D X K W T V C ε E) :=
  if c.procs.all (·.prog.ended) then
    (S.finish c.procs.length (S.code call) c.world).map fun (r, w) => ⟨w, c.procs ++ [⟨call, .ofExcept r⟩]⟩
  else none

def performIf (ok : Config D X K W T V C ε E → C → Bool) : List C → Config D X K W T V C ε E →
    Option (Config D X K W T V C ε E)
  | [], c => some c
  | call :: calls, c => if ok c call then (perform S call c).bind (performIf ok calls) else none

section
variable {S} {c c' : Config D X K W T V C ε E} {call : C}

theorem Operation.finish {ps : List (Proc D K W T C ε E)} :
    ∀ {p : Prog (Prim D K W T ε E) ε Unit} {w w' : World D X K W V} {a},
    S.Operation call c ⟨w, ps ++ [⟨call, p⟩]⟩ → S.finish ps.length p w = some (a, w') →
    S.Operation call c ⟨w', ps ++ [⟨call, .ofExcept a⟩]⟩
  | .ret _, _, _, _, ho, hf => by cases hf; exact ho
  | .throw _, _, _, _, ho, hf => by cases hf; exact ho
  | .op q k, w, w', a, ho, hf => by
    simp only [Sys.finish] at hf
    split at hf
    · rename_i r w₁ he
      have hget : (ps ++ [(⟨call, .op q k⟩ : Proc D K W T C ε E)])[ps.length]? = some ⟨call, .op q k⟩ := by simp
      have hstep : S.Step ⟨w, _⟩ _ := .run hget he
      have hset : (ps ++ [(⟨call, .op q k⟩ : Proc D K W T C ε E)]).set ps.length ⟨call, k r⟩ = ps ++
          [⟨call, k r⟩] := by
        simp
      rw [hset] at hstep
      exact Operation.finish (.step ho hstep (by simp)) hf
    · cases hf

theorem perform_operation (ha : S.admits c.world.sh.db c.world.sh.ext call) (h : perform S call c = some c') :
    S.Operation call c c' ∧ c'.Quiet := by
  unfold perform at h
  split at h
  · rename_i hq
    have hq : c.Quiet := by simpa [Config.Quiet] using hq
    obtain ⟨⟨r, w⟩, hf, rfl⟩ := Option.map_eq_some_iff.mp h
    refine ⟨.finish (.start hq ha) hf, fun p hp => ?_⟩
    rcases List.mem_append.mp hp with hp | hp
    · exact hq p hp
    · rw [List.mem_singleton.mp hp]
      cases r <;> rfl
  · cases h

theorem performIf_served {A : Config D X K W T V C ε E → C → Prop} {ok : Config D X K W T V C ε E → C → Bool}
    (hok : ∀ c call, ok c call = true → A c call ∧ S.admits c.world.sh.db c.world.sh.ext call) :
    ∀ {calls : List C} {c : Config D X K W T V C ε E}, performIf S ok calls c = some c' →
    ReflTransGen (S.Served A) c c'
  | [], _, h => by cases h; exact .refl
  | call :: calls, c, h => by
    simp only [performIf] at h
    split at h
    · rename_i hc
      obtain ⟨c₁, h₁, h₂⟩ := Option.bind_eq_some_iff.mp h
      obtain ⟨ha, hadm⟩ := hok c call hc
      obtain ⟨ho, hq⟩ := perform_operation hadm h₁
      exact .head ⟨call, ha, ho, hq⟩ (performIf_served hok h₂)
    · cases h

end

end Sys
