import Veyaan.Lib.Serial

/-!
# Evaluating a program that runs alone

When nobody else runs and the environment's choices are fixed in advance, a
program is a function of what it sees (`Solo`): the committed store, the view of
its transaction and its surroundings. `eval` is that function, and the run of
the process comes to its value.
-/

structure Solo (D X : Type) where
  db : D
  view : D
  failed : Bool
  ext : X

def Solo.idle {D X : Type} (d : D) (x : X) : Solo D X := ⟨d, d, false, x⟩

namespace Sys

variable {D X K W R T V C ε α β : Type} {E : Type → Type} (S : Sys D X K W R T V C ε E)

def answer (ch : Bool) : {β : Type} → Prim D K W T ε E β → Solo D X → Except ε β × Solo D X
  | _, .read _ q, s =>
    if s.failed || !ch then (.error S.dbError, { s with failed := true }) else (.ok (q s.view), s)
  | _, .fresh _ q, s => if !ch then (.error S.dbError, s) else (.ok (q s.db), s)
  | _, .forUpdate _ sel _, s =>
    if s.failed || !ch then (.error S.dbError, { s with failed := true }) else (.ok (sel s.view), s)
  | _, .skipLocked sel _ n, s =>
    if s.failed || !ch then (.error S.dbError, { s with failed := true }) else (.ok ((sel s.view).take n), s)
  | _, .stmt _ f, s =>
    if s.failed || !ch then (.error S.dbError, { s with failed := true })
    else match f s.view with
      | .error e => (.error e, { s with failed := true })
      | .ok ws => (.ok ws.length, { s with view := S.applyAll ws s.view, failed := false })
  | _, .commit _, s =>
    if s.failed || !ch then (.error S.dbError, { s with failed := true }) else (.ok (), .idle s.view s.ext)
  | _, .rollback, s => (.ok (), .idle s.db s.ext)
  | _, .eff e, s => ((S.handle ch e s.ext).1, { s with ext := (S.handle ch e s.ext).2.1 })

abbrev Picks (D K W T ε : Type) (E : Type → Type) := ∀ β, Prim D K W T ε E β → Bool

def eval (pick : Picks D K W T ε E) : Prog (Prim D K W T ε E) ε α → Solo D X → Except ε α × Solo D X
  | .ret a, s => (.ok a, s)
  | .throw e, s => (.error e, s)
  | .op c k, s => eval pick (k (S.answer (pick _ c) c s).1) (S.answer (pick _ c) c s).2

def finishBy [DecidableEq K] (pick : Picks D K W T ε E) (i : Nat) : Prog (Prim D K W T ε E) ε α → World D X K W V →
    Option (Except ε α × World D X K W V)
  | .ret a, w => some (.ok a, w)
  | .throw e, w => some (.error e, w)
  | .op c k, w =>
    match S.exec i (pick _ c) c w with
    | some (r, w') => finishBy pick i (k r) w'
    | none => none

structure Shows (i : Nat) (w : World D X K W V) (s : Solo D X) : Prop where
  trans : S.Matches i w s.db ⟨s.view, s.failed, true⟩
  ext : w.sh.ext = s.ext

section
variable {S} {pick : Picks D K W T ε E}

@[simp] theorem eval_ret (a : α) (s : Solo D X) : S.eval pick (.ret a) s = (.ok a, s) := rfl

@[simp] theorem eval_throw (e : ε) (s : Solo D X) : S.eval (α := α) pick (.throw e) s = (.error e, s) := rfl

theorem eval_bind (f : α → Prog (Prim D K W T ε E) ε β) : ∀ (p : Prog (Prim D K W T ε E) ε α) (s : Solo D X),
    S.eval pick (p.bind f) s = match S.eval pick p s with
      | (.ok a, s') => S.eval pick (f a) s'
      | (.error e, s') => (.error e, s')
  | .ret _, _ => rfl
  | .throw _, _ => rfl
  | .op c k, s => eval_bind f (k (S.answer (pick _ c) c s).1) _

theorem eval_bind_ok {p : Prog (Prim D K W T ε E) ε α}
    {f : α → Prog (Prim D K W T ε E) ε β} {s s' : Solo D X} {a : α}
    (h : S.eval pick p s = (.ok a, s')) : S.eval pick (p.bind f) s = S.eval pick (f a) s' := by
  rw [eval_bind, h]

theorem eval_bind_raises {p : Prog (Prim D K W T ε E) ε α}
    {f : α → Prog (Prim D K W T ε E) ε β} {s s' : Solo D X} {e : ε}
    (h : S.eval pick p s = (.error e, s')) : S.eval pick (p.bind f) s = (.error e, s') := by
  rw [eval_bind, h]

theorem eval_bind_error {p : Prog (Prim D K W T ε E) ε α}
    {f : α → Prog (Prim D K W T ε E) ε β} {s : Solo D X} {e : ε}
    (h : (S.eval pick p s).1 = .error e) : (S.eval pick (p.bind f) s).1 = .error e := by
  rw [eval_bind]
  split
  · rename_i heq
    rw [heq] at h
    cases h
  · rename_i heq
    rw [heq] at h
    cases h
    rfl

theorem eval_attempt : ∀ (p : Prog (Prim D K W T ε E) ε α) (s : Solo D X),
    S.eval pick p.attempt s = (.ok (S.eval pick p s).1, (S.eval pick p s).2)
  | .ret _, _ => rfl
  | .throw _, _ => rfl
  | .op c k, s => eval_attempt (k (S.answer (pick _ c) c s).1) _

theorem eval_attempt_ok {p : Prog (Prim D K W T ε E) ε α} {s s' : Solo D X} {a : α}
    (h : S.eval pick p s = (.ok a, s')) :
    S.eval pick p.attempt s = (.ok (.ok a), s') := by
  rw [eval_attempt, h]

theorem eval_attempt_error {p : Prog (Prim D K W T ε E) ε α} {s : Solo D X} {e : ε}
    (h : (S.eval pick p s).1 = .error e) :
    S.eval pick p.attempt s = (.ok (.error e), (S.eval pick p s).2) := by
  rw [eval_attempt, h]

theorem eval_call (c : Prim D K W T ε E α) (s : Solo D X) : S.eval pick (.call c) s = S.answer (pick _ c) c s := by
  simp only [Prog.call, eval]
  cases h : (S.answer (pick _ c) c s).1 with
  | ok a => simp [Prog.ofExcept, ← h]
  | error e => simp [Prog.ofExcept, ← h]

variable [DecidableEq K] {i : Nat} {w w' : World D X K W V} {s : Solo D X}

omit [DecidableEq K] in
theorem Matches.opened {d : D} {o : Open D} (h : S.Matches i w d o) : S.Matches i w d ⟨o.view, o.failed, true⟩ :=
  ⟨h.db, h.view, h.failed, fun k j hk => ⟨(h.locks k j hk).1, rfl⟩⟩

omit [DecidableEq K] in
theorem Shows.fail (h : S.Shows i w s) : S.Shows i (w.fail i) { s with failed := true } :=
  ⟨h.trans.fail, h.ext⟩

omit [DecidableEq K] in
theorem Shows.of_label (h : S.Shows i w s) (ok : Bool) (t : Option T) : S.Shows i (S.label w i ok t) s :=
  ⟨h.trans.of_label ok t, by cases t <;> exact h.ext⟩

theorem Shows.lockAll (h : S.Shows i w s) (ks : List K) : S.Shows i (w.lockAll i ks) s :=
  ⟨h.trans.lockAll ks, h.ext⟩

theorem exec_answer (h : S.Shows i w s) (ch : Bool) (c : Prim D K W T ε E β) :
    ∃ w', S.exec i ch c w = some ((S.answer ch c s).1, w') ∧ S.Shows i w' (S.answer ch c s).2 := by
  have hview := h.trans.view
  have hfailed := h.trans.failed
  have hfree : ∀ ks : List K, ks.all (w.free i) = true := fun ks => List.all_eq_true.mpr fun k _ => h.trans.free k
  have hkeys : ∀ {ρ : Type} (l : List ρ) (key : ρ → K), l.all (w.free i ∘ key) = true :=
    fun l key => List.all_eq_true.mpr fun r _ => h.trans.free (key r)
  cases c with
  | read t q =>
    simp only [exec, answer, hview, hfailed]
    split
    · exact ⟨_, rfl, (h.of_label _ t).fail⟩
    · exact ⟨_, rfl, h.of_label _ t⟩
  | fresh t q =>
    simp only [exec, answer, h.trans.db]
    split
    · exact ⟨_, rfl, h.of_label _ t⟩
    · exact ⟨_, rfl, h.of_label _ t⟩
  | forUpdate t sel key =>
    simp only [exec, answer, hview, hfailed, hkeys, if_true]
    split
    · exact ⟨_, rfl, h.fail⟩
    · exact ⟨_, rfl, (h.of_label _ t).lockAll _⟩
  | skipLocked sel key n =>
    have hall : (sel s.view).filter (w.free i ∘ key) = sel s.view :=
      List.filter_eq_self.mpr fun r _ => h.trans.free (key r)
    simp only [exec, answer, hview, hfailed, hall]
    split
    · exact ⟨_, rfl, h.fail⟩
    · exact ⟨_, rfl, h.lockAll _⟩
  | stmt ks f =>
    simp only [exec, answer, hview, hfailed, hfree, if_true]
    split
    · exact ⟨_, rfl, h.fail⟩
    cases f s.view with
    | error e =>
      have hsay : S.Shows i (w.say i [S.rejected e]) s :=
        ⟨⟨h.trans.db, h.trans.view, h.trans.failed, h.trans.locks⟩, h.ext⟩
      exact ⟨_, rfl, hsay.fail⟩
    | ok ws =>
      refine ⟨_, rfl, ⟨h.trans.db, ?_, ?_, (h.trans.lockAll _).locks⟩, h.ext⟩
      · simp only [Sys.view, World.setSess, if_true, applyAll_append, World.lockAll]
        exact congrArg (S.applyAll ws) hview
      · simp [World.setSess]
  | commit t =>
    simp only [exec, answer, hview, hfailed]
    split
    · exact ⟨_, rfl, h.fail⟩
    · exact ⟨_, rfl, ((h.of_label true t).trans.release s.view).opened, (h.of_label true t).ext⟩
  | rollback =>
    simp only [exec, answer]
    refine ⟨_, rfl, ?_, h.ext⟩
    have := (h.trans.release w.sh.db).opened
    rw [h.trans.db] at this
    simpa [← h.trans.db, Solo.idle, Open.idle] using this
  | eff e =>
    simp only [exec, answer, h.ext]
    exact ⟨_, rfl, ⟨h.trans.db, h.trans.view, h.trans.failed, h.trans.locks⟩, rfl⟩

/-- The run of a process that runs alone is its evaluation. -/
theorem finishBy_eval (pick : Picks D K W T ε E) :
    ∀ (p : Prog (Prim D K W T ε E) ε α) {w : World D X K W V} {s : Solo D X},
    S.Shows i w s → ∃ w', S.finishBy pick i p w = some ((S.eval pick p s).1, w') ∧
      S.Shows i w' (S.eval pick p s).2
  | .ret a, w, _, h => ⟨w, rfl, h⟩
  | .throw e, w, _, h => ⟨w, rfl, h⟩
  | .op c k, w, s, h => by
    obtain ⟨w', he, h'⟩ := exec_answer h (pick _ c) c
    simp only [finishBy, he, eval]
    exact finishBy_eval pick (k _) h'

omit [DecidableEq K] in
theorem answer_after {J : X → Prop} {I : D → Prop} {ch : Bool} {c : Prim D K W T ε E β} {o : Open D}
    {Φ : Except ε β → D → Open D → Prop} (hv : o.view = s.view) (hf : o.failed = s.failed) (hx : J s.ext)
    (hch : Succeeds ch c) (hc : S.after false J I c Φ s.db o) :
    ∃ o', Φ (S.answer ch c s).1 (S.answer ch c s).2.db o' ∧ o'.view = (S.answer ch c s).2.view ∧
      o'.failed = (S.answer ch c s).2.failed := by
  have hno : ∀ {no yes : Prop}, tried false o no yes → s.failed = true → no := fun h hs => h.1 (.inr (hf.trans hs))
  have hyes : ∀ {no yes : Prop}, tried false o no yes → ¬ s.failed = true → yes := fun h hs =>
    h.2 (hf.trans (Bool.eq_false_iff.mpr hs))
  cases c with
  | fresh t q =>
    have : ch = true := hch
    subst this
    exact ⟨o, hc.2, hv, hf⟩
  | rollback => exact ⟨.idle s.db, hc, rfl, rfl⟩
  | eff e => exact ⟨o, hc ch s.ext hx, hv, hf⟩
  | read t q =>
    have : ch = true := hch
    subst this
    simp only [answer, Bool.not_true, Bool.or_false]
    by_cases hs : s.failed = true
    · rw [if_pos hs]; exact ⟨o.fail, hno hc hs, hv, rfl⟩
    · rw [if_neg hs, ← hv]; exact ⟨o, hyes hc hs, rfl, hf⟩
  | forUpdate t sel key =>
    have : ch = true := hch
    subst this
    simp only [answer, Bool.not_true, Bool.or_false]
    by_cases hs : s.failed = true
    · rw [if_pos hs]; exact ⟨o.fail, hno hc hs, hv, rfl⟩
    · rw [if_neg hs, ← hv]; exact ⟨o.lock, hyes hc hs, rfl, hf⟩
  | skipLocked sel key n =>
    have : ch = true := hch
    subst this
    simp only [answer, Bool.not_true, Bool.or_false]
    by_cases hs : s.failed = true
    · rw [if_pos hs]; exact ⟨o.fail, hno hc hs, hv, rfl⟩
    · rw [if_neg hs, ← hv]; exact ⟨o.lock, hyes hc hs, rfl, hf⟩
  | stmt ks f =>
    have : ch = true := hch
    subst this
    simp only [answer, Bool.not_true, Bool.or_false]
    by_cases hs : s.failed = true
    · rw [if_pos hs]; exact ⟨o.fail, hno hc hs, hv, rfl⟩
    · rw [if_neg hs, ← hv]
      have hdone := hyes hc hs
      cases hfn : f o.view with
      | error e => rw [hfn] at hdone; exact ⟨o.fail, hdone, rfl, rfl⟩
      | ok ws => rw [hfn] at hdone; exact ⟨_, hdone, rfl, rfl⟩
  | commit t =>
    have : ch = true := hch
    subst this
    simp only [answer, Bool.not_true, Bool.or_false]
    by_cases hs : s.failed = true
    · rw [if_pos hs]; exact ⟨o.fail, hno hc hs, hv, rfl⟩
    · rw [if_neg hs, ← hv]; exact ⟨.idle o.view, (hyes hc hs).2, rfl, rfl⟩

omit [DecidableEq K] in
/-- What holds of a program alone, holds of its evaluation. -/
theorem alone_eval {J : X → Prop} {I : D → Prop} {Q : Except ε α → D → Open D → Prop}
    (hpick : ∀ {β : Type} (c : Prim D K W T ε E β), Succeeds (pick _ c) c)
    (hJ : ∀ {β : Type} ch (e : E β) x, J x → J (S.handle ch e x).2.1) :
    ∀ {p : Prog (Prim D K W T ε E) ε α} {s : Solo D X} {o : Open D}, o.view = s.view →
    o.failed = s.failed → J s.ext →
      S.alone false J I p Q s.db o → ∃ o', Q (S.eval pick p s).1 (S.eval pick p s).2.db o'
  | .ret _, _, o, _, _, _, h => ⟨o, h⟩
  | .throw _, _, o, _, _, _, h => ⟨o, h⟩
  | .op c k, s, o, hv, hf, hx, h => by
    obtain ⟨o', hk, hv', hf'⟩ := answer_after hv hf hx (hpick c) h
    have hx' : J (S.answer (pick _ c) c s).2.ext := by
      cases c with
      | eff e => exact hJ _ e _ hx
      | read | fresh | forUpdate | skipLocked | stmt | commit | rollback =>
        simp only [answer]
        repeat' split
        all_goals exact hx
    exact alone_eval hpick hJ (p := k (S.answer (pick _ c) c s).1) hv' hf' hx' hk

end

end Sys
