import Veyaan.Lib.Rules

/-!
# Transactions as chains of allowed writes

A transaction that works through many rows is described write by write: `M d w`
says that `w` may be applied to the store `d`, and a chain is a list of writes
each of which is allowed where it is applied. A process that has such a list in
its session knows that the list will still be a chain at its commit (`Ready`),
because what `M` asks of a write is about rows that the session has locked.
-/

open Relation (ReflTransGen)

namespace Sys

variable {D X K W R T V C ε : Type} {E : Type → Type} (S : Sys D X K W R T V C ε E)
variable (G : Shared D X V → Shared D X V → Prop)

def Chain (M : D → W → Prop) : D → List W → Prop
  | _, [] => True
  | d, w :: ws => M d w ∧ Chain M (S.apply w d) ws

section
variable {S} {M : D → W → Prop}

theorem chain_append : ∀ {ws vs : List W} {d : D},
    S.Chain M d (ws ++ vs) ↔ S.Chain M d ws ∧ S.Chain M (S.applyAll ws d) vs
  | [], _, _ => by simp [Chain]
  | _ :: _, _, _ => by simp [Chain, chain_append, and_assoc]

/-- What every allowed write keeps, a chain keeps. -/
theorem Chain.keeps {I : D → Prop} (hI : ∀ d w, M d w → I d → I (S.apply w d)) {ws : List W} :
    ∀ {d : D}, S.Chain M d ws → I d → I (S.applyAll ws d) := by
  induction ws with
  | nil => intro d _ h; exact h
  | cons w ws ih => intro d hc h; exact ih hc.2 (hI d w hc.1 h)

theorem row_congr {k : K} : ∀ (ws : List W) {d d' : D}, S.row k d = S.row k d' →
    S.row k (S.applyAll ws d) = S.row k (S.applyAll ws d')
  | [], _, _, h => h
  | w :: ws, d, d', h => by
    refine row_congr ws ?_
    by_cases hk : k ∈ S.keys w
    · exact S.sets w d d' k hk
    · rw [S.frame w d k hk, S.frame w d' k hk, h]

/-- Writes to different rows, each of which is allowed wherever its row is as it
was. -/
theorem chain_map {ρ : Type} {g : ρ → W} {k : ρ → K} (hg : ∀ r, S.keys (g r) = [k r]) : ∀ {rs : List ρ} {d : D},
    (rs.map k).Nodup → (∀ r ∈ rs, ∀ d', S.row (k r) d' = S.row (k r) d → M d' (g r)) → S.Chain M d (rs.map g)
  | [], _, _, _ => trivial
  | r :: rs, d, hn, hM => by
    rw [List.map_cons, List.nodup_cons] at hn
    refine ⟨hM r (List.mem_cons_self ..) d rfl, chain_map hg hn.2 fun r' hr d' hd => ?_⟩
    refine hM r' (List.mem_cons_of_mem _ hr) d' (hd.trans (S.frame _ _ _ ?_))
    intro he
    rw [hg, List.mem_singleton] at he
    exact hn.1 (he ▸ List.mem_map_of_mem hr)

end

def Agrees (L : List (K × R)) (d : D) : Prop := ∀ p ∈ L, S.row p.1 d = p.2

variable (M : Shared D X V → D → W → Prop)

/-- Session `i` has written `ws`, and `ws` is a chain in every store that a
commit may find. -/
structure Ready (i : Nat) (w : World D X K W V) (L : List (K × R)) (ws : List W) : Prop
    extends S.Held i w L ws where
  chain : ∀ s, ReflTransGen G w.sh s → S.Agrees L s.db → S.Chain (M s) s.db ws

section
variable {S G M} {i : Nat} {w w' : World D X K W V} {L : List (K × R)} {ws vs : List W}

theorem Held.agrees (h : S.Held i w L ws) : S.Agrees L w.sh.db := h.rows

theorem Held.ready (h : S.Held i w L []) : S.Ready G M i w L [] := ⟨h, fun _ _ _ => trivial⟩

theorem Ready.since (h : S.Ready G M i w L ws) (hs : ReflTransGen G w.sh w'.sh) (h' : S.Held i w' L ws) :
    S.Ready G M i w' L ws :=
  ⟨h', fun s hg hL => h.chain s (hs.trans hg) hL⟩

theorem Ready.mono (h : S.Ready G M i w L ws) {L' : List (K × R)} (hs : ∀ p ∈ L, p ∈ L')
    (h' : S.Held i w L' ws) : S.Ready G M i w L' ws :=
  ⟨h', fun s hg hL => h.chain s hg fun p hp => hL p (hs p hp)⟩

theorem Ready.append (h : S.Ready G M i w L ws) (hs : ReflTransGen G w.sh w'.sh) (h' : S.Held i w' L (ws ++ vs))
    (hv : ∀ s, ReflTransGen G w'.sh s → S.Agrees L s.db → S.Chain (M s) (S.applyAll ws s.db) vs) :
    S.Ready G M i w' L (ws ++ vs) :=
  ⟨h', fun s hg hL => chain_append.mpr ⟨h.chain s (hs.trans hg) hL, hv s hg hL⟩⟩

theorem Ready.now (h : S.Ready G M i w L ws) : S.Chain (M w.sh) w.sh.db ws := h.chain w.sh .refl h.agrees

end

end Sys
