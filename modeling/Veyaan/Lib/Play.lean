import Veyaan.Lib.Tx

/-!
# Playing a schedule

The steps of a system as a function of a schedule: which process runs next,
with which choice of the environment, and what happens besides. A schedule that
plays is a run.
-/

open Relation (ReflTransGen)

inductive Turn (M : Type) where
  | run (i : Nat) (ch : Bool)
  | other (m : M)

namespace Sys

variable {D X K W R T V C ε M : Type} {E : Type → Type} (S : Sys D X K W R T V C ε E)

structure Moves (M : Type) where
  next : M → D → X → Option (C ⊕ X)
  call : ∀ {m d x c}, next m d x = some (.inl c) → S.admits d x c
  env : ∀ {m d x x'}, next m d x = some (.inr x') → S.env d x x'

variable {S} [DecidableEq K] (N : S.Moves M)

def turn (c : Config D X K W T V C ε E) : Turn M → Option (Config D X K W T V C ε E)
  | .run i ch =>
    match c.procs[i]? with
    | some ⟨call, .op p k⟩ =>
      match S.exec i ch p c.world with
      | some (r, w) => some ⟨w, c.procs.set i ⟨call, k r⟩⟩
      | none => none
    | _ => none
  | .other m =>
    match N.next m c.world.sh.db c.world.sh.ext with
    | some (.inl call) => some ⟨c.world, c.procs ++ [⟨call, S.code call⟩]⟩
    | some (.inr x) => some ⟨{ c.world with sh.ext := x }, c.procs⟩
    | none => none

def play : List (Turn M) → Config D X K W T V C ε E → Option (Config D X K W T V C ε E)
  | [], c => some c
  | t :: ts, c =>
    match turn N c t with
    | some c' => play ts c'
    | none => none

theorem turn_run {c c' : Config D X K W T V C ε E} {i : Nat} {ch : Bool} (h : turn N c (.run i ch) = some c') :
    ∃ call, ∃ β : Type, ∃ (p : Prim D K W T ε E β) (k : _) (r : _) (w : _), c.procs[i]? = some ⟨call, .op p k⟩ ∧
      S.exec i ch p c.world = some (r, w) ∧ c' = ⟨w, c.procs.set i ⟨call, k r⟩⟩ := by
  simp only [turn] at h
  split at h
  · rename_i call β p k hp
    split at h
    · rename_i r w he
      cases h
      exact ⟨call, β, p, k, r, w, hp, he, rfl⟩
    · cases h
  · cases h

theorem turn_other {c c' : Config D X K W T V C ε E} {m : M} (h : turn N c (.other m) = some c') :
    (∃ call, S.admits c.world.sh.db c.world.sh.ext call ∧ c' = ⟨c.world, c.procs ++ [⟨call, S.code call⟩]⟩) ∨
      ∃ x, S.env c.world.sh.db c.world.sh.ext x ∧ c' = ⟨{ c.world with sh.ext := x }, c.procs⟩ := by
  simp only [turn] at h
  split at h
  · rename_i call hm
    cases h
    exact .inl ⟨call, N.call hm, rfl⟩
  · rename_i x hm
    cases h
    exact .inr ⟨x, N.env hm, rfl⟩
  · cases h

theorem turn_step {c c' : Config D X K W T V C ε E} {t : Turn M} (h : turn N c t = some c') : S.Step c c' := by
  cases t with
  | run i ch =>
    obtain ⟨call, β, p, k, r, w, hp, he, rfl⟩ := turn_run N h
    exact .run hp he
  | other m =>
    rcases turn_other N h with ⟨call, ha, rfl⟩ | ⟨x, hx, rfl⟩
    · exact .start ha
    · exact .env hx

theorem play_runs : ∀ {ts : List (Turn M)} {c c' : Config D X K W T V C ε E}, play N ts c = some c' →
    ReflTransGen S.Step c c'
  | [], _, _, h => by cases h; exact .refl
  | t :: ts, c, c', h => by
    simp only [play] at h
    split at h
    · rename_i c₁ ht
      exact .head (turn_step N ht) (play_runs h)
    · cases h

def playIf (ok : Config D X K W T V C ε E → Turn M → Bool) :
    List (Turn M) → Config D X K W T V C ε E → Option (Config D X K W T V C ε E)
  | [], c => some c
  | t :: ts, c =>
    match ok c t, turn N c t with
    | true, some c' => playIf ok ts c'
    | _, _ => none

theorem playIf_runs {ok : Config D X K W T V C ε E → Turn M → Bool}
    {Q : Config D X K W T V C ε E → Config D X K W T V C ε E → Prop}
    (hok : ∀ {c t c'}, ok c t = true → turn N c t = some c' → Q c c') :
    ∀ {ts : List (Turn M)} {c c' : Config D X K W T V C ε E}, playIf N ok ts c = some c' → ReflTransGen Q c c'
  | [], _, _, h => by cases h; exact .refl
  | t :: ts, c, c', h => by
    simp only [playIf] at h
    split at h
    · rename_i c₁ hk ht
      exact .head (hok hk ht) (playIf_runs hok h)
    · cases h

end Sys
