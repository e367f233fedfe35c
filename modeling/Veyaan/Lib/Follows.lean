import Veyaan.Lib.Calls

/-!
# What a program says of itself

The entries that one process makes, whatever the others do and whatever its
requests are answered: a rule for each way of putting programs together, and
from there to every process of every run.
-/

namespace Sys

variable {D X K W R T V C ε α β : Type} {E : Type → Type} (S : Sys D X K W R T V C ε E) [DecidableEq K]
variable (Q : List V → Prop)

/-- After the entries `l`, the program makes entries that keep to `Q`. If it
returns, then as `post` says. -/
def Follows : Prog (Prim D K W T ε E) ε α → (α → List V → Prop) → List V → Prop
  | .ret a, post, l => post a l
  | .throw _, _, _ => True
  | .op s k, post, l => ∀ ⦃i ch r vs⦄ ⦃w w' : World D X K W V⦄, S.exec i ch s w = some (r, w') →
      w'.sh.trace = w.sh.trace ++ vs.map (i, ·) → Q (l ++ vs) ∧ Follows (k r) post (l ++ vs)

section
variable {S Q} {init : D → X → Prop} {l : List V}

theorem Follows.mono {post post' : α → List V → Prop} (h : ∀ a l, post a l → post' a l) :
    ∀ {p : Prog (Prim D K W T ε E) ε α} {l : List V}, S.Follows Q p post l → S.Follows Q p post' l
  | .ret a, l, hp => h a l hp
  | .throw _, _, _ => trivial
  | .op _ _, _, hp => fun _ _ _ _ _ _ he ht => ⟨(hp he ht).1, (hp he ht).2.mono h⟩

theorem follows_bind {f : α → Prog (Prim D K W T ε E) ε β} {post : β → List V → Prop} :
    ∀ {p : Prog (Prim D K W T ε E) ε α} {l : List V}, S.Follows Q p (fun a l => S.Follows Q (f a) post l) l →
      S.Follows Q (p.bind f) post l
  | .ret _, _, h => h
  | .throw _, _, _ => trivial
  | .op _ _, _, h => fun _ _ _ _ _ _ he ht => ⟨(h he ht).1, follows_bind (h he ht).2⟩

theorem follows_op_eff {e : E β} {k : Except ε β → Prog (Prim D K W T ε E) ε α} {post : α → List V → Prop}
    (h : ∀ ch x, Q (l ++ (S.handle ch e x).2.2) ∧
      S.Follows Q (k (S.handle ch e x).1) post (l ++ (S.handle ch e x).2.2)) :
      S.Follows Q (.op (.eff e) k) post l := by
  intro i ch r vs w w' he ht
  simp only [exec] at he
  cases he
  have hvs : (S.handle ch e w.sh.ext).2.2 = vs := by
    exact (List.map_inj_right fun _ _ h => (Prod.mk.inj h).2).mp (List.append_cancel_left ht)
  rw [← hvs]
  exact h ch w.sh.ext

theorem follows_eff {e : E β} {post : β → List V → Prop}
    (h : ∀ ch x, Q (l ++ (S.handle ch e x).2.2) ∧
      ∀ a, (S.handle ch e x).1 = .ok a → post a (l ++ (S.handle ch e x).2.2)) :
    S.Follows Q (.call (.eff e)) post l := by
  refine follows_op_eff fun ch x => ⟨(h ch x).1, ?_⟩
  cases hr : (S.handle ch e x).1 with
  | ok a => exact (h ch x).2 a hr
  | error _ => trivial

/-- If all programs keep to `Q`, the entries of every process do. -/
theorem Reachable.follows (h0 : Q []) (hcode : ∀ call, S.Follows Q (S.code call) (fun _ _ => True) [])
    {c : Config D X K W T V C ε E} (h : S.Reachable init c) (i : Nat) : Q (own i c.world.sh.trace) := by
  rcases Nat.lt_or_ge i c.procs.length with hlt | hge
  · refine (Reachable.history (Ψ := fun _ l p => Q l ∧ S.Follows Q p (fun _ _ => True) l)
      (fun call => ⟨h0, hcode call⟩)
      (fun hΨ he ht _ => ?_) h (List.getElem?_eq_getElem hlt)).1
    exact hΨ.2 he ht
  · rw [h.unborn hge]
    exact h0

/-- What a statement does to the external state and to the trace: nothing and a
report of its own, unless it is an effect. -/
theorem exec_ext {i : Nat} {ch : Bool} {c : Prim D K W T ε E β} {w w' : World D X K W V} {r}
    (h : S.exec i ch c w = some (r, w')) :
    (∃ e : E β, c = .eff e ∧ w'.sh.ext = (S.handle ch e w.sh.ext).2.1 ∧
      w'.sh.trace = w.sh.trace ++ (S.handle ch e w.sh.ext).2.2.map (i, ·)) ∨
    w'.sh.ext = w.sh.ext ∧ ∃ vs : List V, w'.sh.trace = w.sh.trace ++ vs.map (i, ·) ∧
      ∀ v ∈ vs, (∃ e, v = S.rejected e) ∨ ∃ l ok, v = S.see l ok w.sh.db w.sh.ext := by
  obtain ⟨vs, ht, hv⟩ := exec_trace h
  rcases exec_outside h with hx | ⟨e, rfl, hx⟩
  · cases c with
    | eff e => simp only [exec] at h; cases h; exact .inl ⟨e, rfl, rfl, rfl⟩
    | stmt => exact .inr ⟨hx, vs, ht, fun v hm => .inl (hv v hm)⟩
    | skipLocked => exact .inr ⟨hx, vs, ht, fun v hm => (hv v hm).elim⟩
    | rollback => exact .inr ⟨hx, vs, ht, fun v hm => (hv v hm).elim⟩
    | _ =>
      refine .inr ⟨hx, vs, ht, fun v hm => .inr ?_⟩
      obtain ⟨l, ok, -, he⟩ := hv v hm
      exact ⟨l, ok, he⟩
  · simp only [exec] at h; cases h; exact .inl ⟨e, rfl, rfl, rfl⟩

end

end Sys
