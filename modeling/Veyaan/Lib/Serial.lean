import Veyaan.Lib.Rely

/-!
# One call after the other

In a serial run a call starts when all others have ended. Then a program does
not wait for locks, and nobody changes the store beneath it: a transaction is
the committed store and the view of it with the session's own writes (`Open`).
`alone p Q` is the weakest precondition of a program that runs so. A statement
may fail at any point, or never, as `fails` says.
-/

open Relation (ReflTransGen)

def Prog.ended {P : Type → Type 1} {ε α : Type} : Prog P ε α → Bool
  | .op _ _ => false
  | _ => true

/-- The open transaction of a process that runs alone: what it sees, whether a
statement of it has failed, and whether it may have locked rows. -/
structure Open (D : Type) where
  view : D
  failed : Bool
  locks : Bool

def Open.idle {D : Type} (d : D) : Open D := ⟨d, false, false⟩

def Open.seeing {D : Type} (v : D) : Open D := ⟨v, false, true⟩

def Open.fail {D : Type} (o : Open D) : Open D := { o with failed := true }

def Open.lock {D : Type} (o : Open D) : Open D := { o with locks := true }

namespace Sys

variable {D X K W R T V C ε α β : Type} {E : Type → Type} (S : Sys D X K W R T V C ε E)

/-! ## What a program does alone -/

def tried (fails : Bool) (o : Open D) (no yes : Prop) : Prop :=
  (fails = true ∨ o.failed = true → no) ∧ (o.failed = false → yes)

/-- All outcomes of a statement are in `Φ`, and what it commits is in `I`; what is
outside the store is in `J` whenever it is asked. -/
def after (fails : Bool) (J : X → Prop) (I : D → Prop) : {β : Type} → Prim D K W T ε E β →
    (Except ε β → D → Open D → Prop) →
    D → Open D → Prop
  | _, .read _ q, Φ, d, o => tried fails o (Φ (.error S.dbError) d o.fail) (Φ (.ok (q o.view)) d o)
  | _, .fresh _ q, Φ, d, o => (fails = true → Φ (.error S.dbError) d o) ∧ Φ (.ok (q d)) d o
  | _, .forUpdate _ sel _, Φ, d, o =>
    tried fails o (Φ (.error S.dbError) d o.fail) (Φ (.ok (sel o.view)) d o.lock)
  | _, .skipLocked sel _ n, Φ, d, o =>
    tried fails o (Φ (.error S.dbError) d o.fail) (Φ (.ok ((sel o.view).take n)) d o.lock)
  | _, .stmt _ f, Φ, d, o =>
    tried fails o (Φ (.error S.dbError) d o.fail) (match f o.view with
      | .error e => Φ (.error e) d o.fail
      | .ok ws => Φ (.ok ws.length) d (.seeing (S.applyAll ws o.view)))
  | _, .commit _, Φ, d, o =>
    tried fails o (Φ (.error S.dbError) d o.fail) (I o.view ∧ Φ (.ok ()) o.view (.idle o.view))
  | _, .rollback, Φ, d, _ => Φ (.ok ()) d (.idle d)
  | _, .eff e, Φ, d, o => ∀ ch x, J x → Φ (S.handle ch e x).1 d o

def alone (fails : Bool) (J : X → Prop) (I : D → Prop) : Prog (Prim D K W T ε E) ε α →
    (Except ε α → D → Open D → Prop) →
    D → Open D → Prop
  | .ret a, Q, d, o => Q (.ok a) d o
  | .throw e, Q, d, o => Q (.error e) d o
  | .op c k, Q, d, o => S.after fails J I c (fun r d' o' => alone fails J I (k r) Q d' o') d o

section
variable {S} {fails : Bool} {J : X → Prop} {I : D → Prop} {d : D} {o : Open D}

theorem tried_mono {no yes no' yes' : Prop} (hn : no → no') (hy : yes → yes') (h : tried fails o no yes) :
    tried fails o no' yes' :=
  ⟨fun hf => hn (h.1 hf), fun hf => hy (h.2 hf)⟩

theorem after_mono {c : Prim D K W T ε E β} {Φ Φ' : Except ε β → D → Open D → Prop}
    (h : ∀ r d o, Φ r d o → Φ' r d o) (hc : S.after fails J I c Φ d o) : S.after fails J I c Φ' d o := by
  cases c with
  | read => exact tried_mono (h _ _ _) (h _ _ _) hc
  | fresh => exact ⟨fun hf => h _ _ _ (hc.1 hf), h _ _ _ hc.2⟩
  | forUpdate => exact tried_mono (h _ _ _) (h _ _ _) hc
  | skipLocked => exact tried_mono (h _ _ _) (h _ _ _) hc
  | stmt ks f =>
    refine tried_mono (h _ _ _) (fun hy => ?_) hc
    split at hy
    · exact h _ _ _ hy
    · exact h _ _ _ hy
  | commit => exact tried_mono (h _ _ _) (fun hy => ⟨hy.1, h _ _ _ hy.2⟩) hc
  | rollback => exact h _ _ _ hc
  | eff e => exact fun ch x hx => h _ _ _ (hc ch x hx)

theorem alone_mono {Q Q' : Except ε α → D → Open D → Prop} (h : ∀ r d o, Q r d o → Q' r d o) :
    ∀ {p : Prog (Prim D K W T ε E) ε α} {d o}, S.alone fails J I p Q d o → S.alone fails J I p Q' d o
  | .ret _, _, _, hp => h _ _ _ hp
  | .throw _, _, _, hp => h _ _ _ hp
  | .op _ _, _, _, hp => after_mono (fun _ _ _ hk => alone_mono h hk) hp

theorem after_imp {I' : D → Prop} (h : ∀ d, I d → I' d) {c : Prim D K W T ε E β}
    {Φ : Except ε β → D → Open D → Prop} (hc : S.after fails J I c Φ d o) : S.after fails J I' c Φ d o := by
  cases c with
  | commit => exact ⟨hc.1, fun hf => ⟨h _ (hc.2 hf).1, (hc.2 hf).2⟩⟩
  | _ => exact hc

theorem alone_imp {I' : D → Prop} (h : ∀ d, I d → I' d) {Q : Except ε α → D → Open D → Prop} :
    ∀ {p : Prog (Prim D K W T ε E) ε α} {d o}, S.alone fails J I p Q d o → S.alone fails J I' p Q d o
  | .ret _, _, _, hp => hp
  | .throw _, _, _, hp => hp
  | .op _ _, _, _, hp => after_imp h (after_mono (fun _ _ _ hk => alone_imp h hk) hp)

theorem after_outside {J' : X → Prop} (h : ∀ x, J x → J' x) {c : Prim D K W T ε E β}
    {Φ : Except ε β → D → Open D → Prop} (hc : S.after fails J' I c Φ d o) : S.after fails J I c Φ d o := by
  cases c with
  | eff e => exact fun ch x hx => hc ch x (h x hx)
  | _ => exact hc

theorem alone_outside {J' : X → Prop} (h : ∀ x, J x → J' x) {Q : Except ε α → D → Open D → Prop} :
    ∀ {p : Prog (Prim D K W T ε E) ε α} {d o}, S.alone fails J' I p Q d o → S.alone fails J I p Q d o
  | .ret _, _, _, hp => hp
  | .throw _, _, _, hp => hp
  | .op _ _, _, _, hp => after_outside h (after_mono (fun _ _ _ hk => alone_outside h hk) hp)

theorem alone_bind {f : α → Prog (Prim D K W T ε E) ε β} {Q : Except ε β → D → Open D → Prop} :
    ∀ {p : Prog (Prim D K W T ε E) ε α} {d o}, S.alone fails J I p (fun r d o => match r with
      | .ok a => S.alone fails J I (f a) Q d o
      | .error e => Q (.error e) d o) d o → S.alone fails J I (p.bind f) Q d o
  | .ret _, _, _, h => h
  | .throw _, _, _, h => h
  | .op _ _, _, _, h => after_mono (fun _ _ _ hk => alone_bind hk) h

theorem alone_of_bind {f : α → Prog (Prim D K W T ε E) ε β} {Q : Except ε β → D → Open D → Prop} :
    ∀ {p : Prog (Prim D K W T ε E) ε α} {d o}, S.alone fails J I (p.bind f) Q d o →
    S.alone fails J I p (fun r d o => match r with
      | .ok a => S.alone fails J I (f a) Q d o
      | .error e => Q (.error e) d o) d o
  | .ret _, _, _, h => h
  | .throw _, _, _, h => h
  | .op _ _, _, _, h => after_mono (fun _ _ _ hk => alone_of_bind hk) h

theorem alone_attempt {Q : Except ε (Except ε α) → D → Open D → Prop} :
    ∀ {p : Prog (Prim D K W T ε E) ε α} {d o}, S.alone fails J I p (fun r d o => Q (.ok r) d o) d o →
      S.alone fails J I p.attempt Q d o
  | .ret _, _, _, h => h
  | .throw _, _, _, h => h
  | .op _ _, _, _, h => after_mono (fun _ _ _ hk => alone_attempt hk) h

def Keeps : (β : Type) → Prim D K W T ε E β → Prop
  | _, .rollback => False
  | _, _ => True

/-- A failed transaction commits nothing until it is rolled back. -/
theorem alone_failed : ∀ {p : Prog (Prim D K W T ε E) ε α} {o}, p.All Keeps → o.failed = true →
    S.alone fails J I p (fun _ d' o' => d' = d ∧ o'.failed = true) d o
  | .ret _, _, _, ho => ⟨rfl, ho⟩
  | .throw _, _, _, ho => ⟨rfl, ho⟩
  | .op c k, o, hp, ho => by
    have hk : ∀ r, S.alone fails J I (k r) (fun _ d' o' => d' = d ∧ o'.failed = true) d o :=
      fun r => alone_failed (hp.2 r) ho
    have hf : ∀ r, S.alone fails J I (k r) (fun _ d' o' => d' = d ∧ o'.failed = true) d o.fail :=
      fun r => alone_failed (hp.2 r) rfl
    have hno : ∀ {r yes}, tried fails o (S.alone fails J I (k r) (fun _ d' o' => d' = d ∧
        o'.failed = true) d o.fail) yes :=
      fun {r _} => ⟨fun _ => hf r, fun h => by rw [ho] at h; cases h⟩
    cases c with
    | fresh => exact ⟨fun _ => hk _, hk _⟩
    | rollback => exact hp.1.elim
    | eff e => exact fun ch x _ => hk _
    | _ => exact hno

def Within : (β : Type) → Prim D K W T ε E β → Prop
  | _, .commit _ => False
  | _, .rollback => False
  | _, _ => True

theorem alone_within {Q : Except ε α → D → Open D → Prop} {φ : α → Prop} (hok : ∀ a o, φ a → Q (.ok a) d o)
    (herr : ∀ e o, Q (.error e) d o) : ∀ {p : Prog (Prim D K W T ε E) ε α} {o}, p.All Within → p.Rets φ →
      S.alone fails J I p Q d o
  | .ret a, o, _, hr => hok a o hr
  | .throw e, o, _, _ => herr e o
  | .op c k, o, hp, hr => by
    have hk : ∀ r o', S.alone fails J I (k r) Q d o' := fun r o' => alone_within hok herr (hp.2 r) (hr r)
    cases c with
    | fresh => exact ⟨fun _ => hk _ _, hk _ _⟩
    | stmt ks f => exact ⟨fun _ => hk _ _, fun _ => by split <;> exact hk _ _⟩
    | commit => exact hp.1.elim
    | rollback => exact hp.1.elim
    | eff e => exact fun _ _ _ => hk _ _
    | _ => exact ⟨fun _ => hk _ _, fun _ => hk _ _⟩

def Still : (β : Type) → Prim D K W T ε E β → Prop
  | _, .fresh _ _ => True
  | _, .eff _ => True
  | _, _ => False

theorem alone_still : ∀ {p : Prog (Prim D K W T ε E) ε α}, p.All Still →
    S.alone fails J I p (fun _ d' o' => d' = d ∧ o' = o) d o
  | .ret _, _ => ⟨rfl, rfl⟩
  | .throw _, _ => ⟨rfl, rfl⟩
  | .op c k, hp => by
    cases c with
    | fresh => exact ⟨fun _ => alone_still (hp.2 _), alone_still (hp.2 _)⟩
    | eff => exact fun _ _ _ => alone_still (hp.2 _)
    | _ => exact hp.1.elim

end

/-! ## Runs of one process -/

def Succeeds (ch : Bool) : {β : Type} → Prim D K W T ε E β → Prop
  | _, .eff _ => True
  | _, _ => ch = true

structure Matches (i : Nat) (w : World D X K W V) (d : D) (o : Open D) : Prop where
  db : w.sh.db = d
  view : S.view w i = o.view
  failed : (w.sess i).failed = o.failed
  locks : ∀ k j, w.locks k = some j → j = i ∧ o.locks = true

section
variable {S} {fails : Bool} {i : Nat} {w : World D X K W V} {d : D} {o : Open D}

theorem Matches.free (h : S.Matches i w d o) (k : K) : w.free i k = true := by
  unfold World.free
  split
  · rfl
  · rename_i j hj
    simpa using (h.locks k j hj).1

theorem Matches.of_label (h : S.Matches i w d o) (ok : Bool) (t : Option T) :
    S.Matches i (S.label w i ok t) d o := by
  cases t with
  | none => exact h
  | some t => exact ⟨h.db, h.view, h.failed, h.locks⟩

theorem Matches.fail (h : S.Matches i w d o) : S.Matches i (w.fail i) d o.fail :=
  ⟨h.db, by simpa [Sys.view, World.fail, World.setSess, Open.fail] using h.view,
    by simp [World.fail, World.setSess, Open.fail], h.locks⟩

theorem Matches.release (h : S.Matches i w d o) (d' : D) :
    S.Matches i ({ w with sh.db := d' }.release i) d' (.idle d') where
  db := rfl
  view := by simp [Sys.view, World.release, World.setSess, Open.idle]
  failed := by simp [World.release, World.setSess, Open.idle]
  locks k j hj := by
    simp only [World.release, World.setSess] at hj
    split at hj
    · cases hj
    · rename_i hk
      rw [(h.locks k j hj).1] at hj
      exact absurd hj hk

theorem tried_no {no yes : Prop} (h : tried fails o no yes) {ch : Bool} (hs : fails = true ∨ ch = true)
    (hf : o.failed = true ∨ ch = false) : no := by
  refine h.1 ?_
  rcases hf with hf | rfl
  · exact .inr hf
  · exact .inl (hs.resolve_right (by simp))

end

variable [DecidableEq K]

/-- Process `i` runs `p` from `w` to its end. -/
inductive Alone (fails : Bool) (i : Nat) : Prog (Prim D K W T ε E) ε α → World D X K W V → Except ε α →
    World D X K W V → Prop
  | ret {a w} : Alone fails i (.ret a) w (.ok a) w
  | throw {e w} : Alone fails i (.throw e) w (.error e) w
  | op {β : Type} {c : Prim D K W T ε E β} {k ch r a w w' w''} : fails = true ∨ Succeeds ch c →
      S.exec i ch c w = some (r, w') → Alone fails i (k r) w' a w'' → Alone fails i (.op c k) w a w''
  | env {p a w w' x} : S.env w.sh.db w.sh.ext x →
      Alone fails i p { w with sh.ext := x } a w' → Alone fails i p w a w'

/-- Process `i` runs `p` to its end, no statement of it fails, and what is outside
the store is in `J` at each of its steps. -/
inductive Calm (J : X → Prop) (i : Nat) : Prog (Prim D K W T ε E) ε α → World D X K W V → Except ε α →
    World D X K W V → Prop
  | ret {a w} : Calm J i (.ret a) w (.ok a) w
  | throw {e w} : Calm J i (.throw e) w (.error e) w
  | op {β : Type} {c : Prim D K W T ε E β} {k ch r a w w' w''} : J w.sh.ext → Succeeds ch c →
      S.exec i ch c w = some (r, w') → Calm J i (k r) w' a w'' → Calm J i (.op c k) w a w''
  | env {p a w w' x} : S.env w.sh.db w.sh.ext x → Calm J i p { w with sh.ext := x } a w' → Calm J i p w a w'

section
variable {S} {fails : Bool} {J : X → Prop} {I : D → Prop} {i : Nat} {w w' : World D X K W V} {d : D} {o : Open D}

theorem Matches.lockAll (h : S.Matches i w d o) (ks : List K) : S.Matches i (w.lockAll i ks) d o.lock where
  db := h.db
  view := h.view
  failed := h.failed
  locks k j hj := by
    simp only [World.lockAll] at hj
    split at hj
    · cases hj; exact ⟨rfl, rfl⟩
    · exact ⟨(h.locks k j hj).1, rfl⟩

theorem exec_after {ch : Bool} {c : Prim D K W T ε E β} {r} {Φ : Except ε β → D → Open D → Prop}
    (h : S.Matches i w d o) (hJ : J w.sh.ext) (hs : fails = true ∨ Succeeds ch c) (hc : S.after fails J I c Φ d o)
    (he : S.exec i ch c w = some (r, w')) : ∃ d' o', S.Matches i w' d' o' ∧ Φ r d' o' ∧ (d' = d ∨ I d') := by
  have hview := h.view
  have hgoes : ∀ {b : Bool}, (w.sess i).failed = b → o.failed = b := fun hf => h.failed.symm.trans hf
  cases exec_made he with
  | readFailed hf => exact ⟨d, o.fail, (h.of_label _ _).fail, tried_no hc hs (hf.imp_left hgoes), .inl rfl⟩
  | read hf =>
    rw [hview]
    exact ⟨d, o, h.of_label _ _, hc.2 (hgoes hf), .inl rfl⟩
  | freshFailed hch =>
    subst hch
    exact ⟨d, o, h.of_label _ _, hc.1 (hs.resolve_right nofun), .inl rfl⟩
  | fresh =>
    rw [h.db]
    exact ⟨d, o, h.of_label _ _, hc.2, .inl rfl⟩
  | forUpdate hf =>
    rw [hview]
    exact ⟨d, o.lock, (h.of_label _ _).lockAll _, hc.2 (hgoes hf), .inl rfl⟩
  | @skipLocked _ sel key n rows hf _ hrows =>
    have hall : (sel o.view).filter (w.free i ∘ key) = sel o.view :=
      List.filter_eq_self.mpr fun r _ => h.free (key r)
    rw [hview, hall] at hrows
    subst hrows
    exact ⟨d, o.lock, h.lockAll _, hc.2 (hgoes hf), .inl rfl⟩
  | @rejected _ _ e hf _ _ hfe =>
    have hyes := hc.2 (hgoes hf)
    rw [← hview, hfe] at hyes
    have h' : S.Matches i (w.say i [S.rejected e]) d o := ⟨h.db, h.view, h.failed, h.locks⟩
    exact ⟨d, o.fail, h'.fail, hyes, .inl rfl⟩
  | @stmt _ f ws _ hf _ hfw =>
    have hyes := hc.2 (hgoes hf)
    rw [← hview, hfw, hview] at hyes
    refine ⟨d, _, ⟨h.db, ?_, ?_, ?_⟩, hyes, .inl rfl⟩
    · simp only [Sys.view, World.setSess, if_true, applyAll_append, World.lockAll, ← hview, Open.seeing]
    · simp [World.setSess, Open.seeing]
    · exact (h.lockAll _).locks
  | commit hf =>
    have hyes := hc.2 (hgoes hf)
    rw [hview]
    exact ⟨o.view, _, (h.of_label _ _).release o.view, hyes.2, .inr hyes.1⟩
  | rollback =>
    have := h.release w.sh.db
    rw [h.db] at this
    refine ⟨d, _, ?_, hc, .inl rfl⟩
    simpa [← h.db] using this
  | eff => exact ⟨d, o, ⟨h.db, h.view, h.failed, h.locks⟩, hc ch w.sh.ext hJ, .inl rfl⟩
  | forUpdateFailed hf | skipLockedFailed hf | stmtFailed hf | commitFailed hf =>
    exact ⟨d, o.fail, h.fail, tried_no hc hs (hf.imp_left hgoes), .inl rfl⟩

theorem alone_sound {p : Prog (Prim D K W T ε E) ε α} {a} {Q : Except ε α → D → Open D → Prop}
    (h : S.Matches i w d o) (hp : S.alone fails (fun _ => True) I p Q d o) (hr : S.Alone fails i p w a w') :
    ∃ d' o', S.Matches i w' d' o' ∧ Q a d' o' := by
  induction hr generalizing d o with
  | ret => exact ⟨d, o, h, hp⟩
  | throw => exact ⟨d, o, h, hp⟩
  | op hs he _ ih =>
    obtain ⟨d', o', h', hk, -⟩ := exec_after h trivial hs hp he
    exact ih h' hk
  | env _ _ ih => exact ih ⟨h.db, h.view, h.failed, h.locks⟩ hp

theorem calm_sound {p : Prog (Prim D K W T ε E) ε α} {a} {Q : Except ε α → D → Open D → Prop}
    (h : S.Matches i w d o) (hp : S.alone false J I p Q d o) (hr : S.Calm J i p w a w') :
    ∃ d' o', S.Matches i w' d' o' ∧ Q a d' o' := by
  induction hr generalizing d o with
  | ret => exact ⟨d, o, h, hp⟩
  | throw => exact ⟨d, o, h, hp⟩
  | op hJ hs he _ ih =>
    obtain ⟨d', o', h', hk, -⟩ := exec_after h hJ (.inr hs) hp he
    exact ih h' hk
  | env _ _ ih => exact ih ⟨h.db, h.view, h.failed, h.locks⟩ hp

theorem Alone.calm {p : Prog (Prim D K W T ε E) ε α} {a} (h : S.Alone false i p w a w') :
    S.Calm (fun _ => True) i p w a w' := by
  induction h with
  | ret => exact .ret
  | throw => exact .throw
  | op hs he _ ih => exact .op trivial (hs.resolve_left (by simp)) he ih
  | env hx _ ih => exact .env hx ih

theorem Calm.imp {J' : X → Prop} {p : Prog (Prim D K W T ε E) ε α} {a} (hJ : ∀ x, J x → J' x)
    (h : S.Calm J i p w a w') :
    S.Calm J' i p w a w' := by
  induction h with
  | ret => exact .ret
  | throw => exact .throw
  | op hx hs he _ ih => exact .op (hJ _ hx) hs he ih
  | env hx _ ih => exact .env hx ih

/-- What neither the calls to the outside nor the environment end, holds at each
step of a run that starts with it. -/
theorem Calm.keep {J' : X → Prop} {p : Prog (Prim D K W T ε E) ε α} {a} (h : S.Calm J i p w a w')
    (hh : ∀ {β : Type} ch (e : E β) x, J' x → J' (S.handle ch e x).2.1)
    (henv : ∀ d x x', S.env d x x' → J' x → J' x')
    (hJ' : J' w.sh.ext) : S.Calm (fun x => J x ∧ J' x) i p w a w' := by
  induction h with
  | ret => exact .ret
  | throw => exact .throw
  | op hJ hs he _ ih =>
    refine .op ⟨hJ, hJ'⟩ hs he (ih ?_)
    rcases exec_outside he with hx | ⟨e, -, hx⟩
    · rw [hx]; exact hJ'
    · rw [hx]; exact hh _ e _ hJ'
  | env hx _ ih => exact .env hx (ih (henv _ _ _ hx hJ'))

def finish (i : Nat) : Prog (Prim D K W T ε E) ε α → World D X K W V → Option (Except ε α × World D X K W V)
  | .ret a, w => some (.ok a, w)
  | .throw e, w => some (.error e, w)
  | .op c k, w =>
    match S.exec i true c w with
    | some (r, w') => finish i (k r) w'
    | none => none

theorem finish_alone : ∀ {p : Prog (Prim D K W T ε E) ε α} {w : World D X K W V} {a},
    S.finish i p w = some (a, w') →
    S.Alone false i p w a w'
  | .ret a, w, _, h => by cases h; exact .ret
  | .throw e, w, _, h => by cases h; exact .throw
  | .op c k, w, a, h => by
    simp only [finish] at h
    split at h
    · rename_i r w₁ he
      exact .op (.inr (by cases c <;> trivial)) he (finish_alone h)
    · cases h

def finishIn (ok : X → Bool) (i : Nat) : Prog (Prim D K W T ε E) ε α → World D X K W V →
    Option (Except ε α × World D X K W V)
  | .ret a, w => some (.ok a, w)
  | .throw e, w => some (.error e, w)
  | .op c k, w =>
    if ok w.sh.ext then
      match S.exec i true c w with
      | some (r, w') => finishIn ok i (k r) w'
      | none => none
    else none

theorem finishIn_calm {ok : X → Bool} : ∀ {p : Prog (Prim D K W T ε E) ε α} {w : World D X K W V} {a},
    S.finishIn ok i p w = some (a, w') → S.Calm (fun x => ok x = true) i p w a w'
  | .ret a, w, _, h => by cases h; exact .ret
  | .throw e, w, _, h => by cases h; exact .throw
  | .op c k, w, a, h => by
    simp only [finishIn] at h
    split at h
    · rename_i hok
      split at h
      · rename_i r w₁ he
        exact .op hok (by cases c <;> trivial) he (finishIn_calm h)
      · cases h
    · cases h

theorem Alone.mono {p : Prog (Prim D K W T ε E) ε α} {a} (h : S.Alone false i p w a w') :
    S.Alone true i p w a w' := by
  induction h with
  | ret => exact .ret
  | throw => exact .throw
  | op _ he _ ih => exact .op (.inl rfl) he ih
  | env hx _ ih => exact .env hx ih

/-- Alone, no statement has to wait. -/
theorem exec_some (h : S.Matches i w d o) (ch : Bool) (c : Prim D K W T ε E β) :
    ∃ r w', S.exec i ch c w = some (r, w') := by
  have hfree : ∀ ks : List K, ks.all (w.free i) = true := fun ks => List.all_eq_true.mpr fun k _ => h.free k
  have hkeys : ∀ {ρ : Type} (l : List ρ) (key : ρ → K), l.all (w.free i ∘ key) = true :=
    fun l key => List.all_eq_true.mpr fun r _ => h.free (key r)
  cases c with
  | read => simp only [exec]; split <;> exact ⟨_, _, rfl⟩
  | fresh => simp only [exec]; split <;> exact ⟨_, _, rfl⟩
  | forUpdate => simp only [exec, hkeys, if_true]; split <;> exact ⟨_, _, rfl⟩
  | skipLocked => simp only [exec]; split <;> exact ⟨_, _, rfl⟩
  | stmt ks f =>
    simp only [exec, hfree, if_true]
    split
    · exact ⟨_, _, rfl⟩
    · split <;> exact ⟨_, _, rfl⟩
  | commit => simp only [exec]; split <;> exact ⟨_, _, rfl⟩
  | rollback => exact ⟨_, _, rfl⟩
  | eff => exact ⟨_, _, rfl⟩

/-- A program that runs alone comes to its end. -/
theorem alone_ends : ∀ {p : Prog (Prim D K W T ε E) ε α} {w : World D X K W V} {d o}, S.Matches i w d o →
    ∃ a w', S.Alone false i p w a w'
  | .ret a, w, _, _, _ => ⟨.ok a, w, .ret⟩
  | .throw e, w, _, _, _ => ⟨.error e, w, .throw⟩
  | .op c k, w, d, o, h => by
    obtain ⟨r, w', he⟩ := exec_some h true c
    have hs : Succeeds true c := by cases c <;> trivial
    have hc : S.after true (fun _ => True) (fun _ => True) c (fun _ _ _ => True) d o := by
      cases c with
      | stmt ks f => exact ⟨fun _ => trivial, fun _ => by split <;> trivial⟩
      | fresh => exact ⟨fun _ => trivial, trivial⟩
      | commit => exact ⟨fun _ => trivial, fun _ => ⟨trivial, trivial⟩⟩
      | rollback => trivial
      | eff => exact fun _ _ _ => trivial
      | _ => exact ⟨fun _ => trivial, fun _ => trivial⟩
    obtain ⟨d', o', h', -, -⟩ := exec_after h trivial (.inl rfl) hc he
    obtain ⟨a, w'', hr⟩ := alone_ends (p := k r) h'
    exact ⟨a, w'', .op (.inr hs) he hr⟩

end

/-! ## Serial runs -/

variable {S} in
theorem Step.ended {i : Nat} {p : Proc D K W T C ε E} (hs : S.Step c c') (hp : c.procs[i]? = some p)
    (he : p.prog.ended = true) : c'.procs[i]? = some p := by
  cases hs with
  | @run w w' ps j call β q k ch r hj _ =>
    by_cases hij : j = i
    · subst hij
      cases hj.symm.trans hp
      cases he
    · exact (List.getElem?_set_ne hij).trans hp
  | start => exact (List.getElem?_append_left (List.getElem?_eq_some_iff.mp hp).1).trans hp
  | env => exact hp

variable {S} in
theorem runs_ended {i : Nat} {p : Proc D K W T C ε E} (hr : ReflTransGen S.Step c c') (hp : c.procs[i]? = some p)
    (he : p.prog.ended = true) : c'.procs[i]? = some p := by
  induction hr with
  | refl => exact hp
  | tail _ hs ih => exact hs.ended ih he

/-- A step of a serial run: a call starts when all others have ended. -/
structure SerialStep (c c' : Config D X K W T V C ε E) : Prop where
  step : S.Step c c'
  serial : c'.procs.length = c.procs.length ∨ ∀ p ∈ c.procs, p.prog.ended = true

def Serial (init : D → X → Prop) (c : Config D X K W T V C ε E) : Prop :=
  ∃ c₀, Initial init c₀ ∧ ReflTransGen S.SerialStep c₀ c

/-- One process is running at most, and what is left of its program keeps `I`. -/
structure Sequential (I : D → Prop) (c : Config D X K W T V C ε E) : Prop where
  store : I c.world.sh.db
  unborn : ∀ j, c.procs.length ≤ j → c.world.sess j = ⟨[], false⟩
  procs : ((∀ p ∈ c.procs, p.prog.ended = true) ∧ ∀ k, c.world.locks k = none) ∨
    ∃ (i : Nat) (p : Proc D K W T C ε E) (o : Open D), c.procs[i]? = some p ∧
      (∀ j q, j ≠ i → c.procs[j]? = some q → q.prog.ended = true) ∧ S.Matches i c.world c.world.sh.db o ∧
      S.alone true (fun _ => True) I p.prog (fun _ d' o' => I d' ∧ o'.locks = false) c.world.sh.db o

structure SequentialIn (J : X → Prop) (I : D → Prop) (c : Config D X K W T V C ε E) : Prop where
  store : I c.world.sh.db
  unborn : ∀ j, c.procs.length ≤ j → c.world.sess j = ⟨[], false⟩
  procs : ((∀ p ∈ c.procs, p.prog.ended = true) ∧ ∀ k, c.world.locks k = none) ∨
    ∃ (i : Nat) (p : Proc D K W T C ε E) (o : Open D), c.procs[i]? = some p ∧
      (∀ j q, j ≠ i → c.procs[j]? = some q → q.prog.ended = true) ∧ S.Matches i c.world c.world.sh.db o ∧
      S.alone true J I p.prog (fun _ d' o' => I d' ∧ o'.locks = false) c.world.sh.db o

section
variable {S} {J : X → Prop} {I : D → Prop} {init : D → X → Prop} {c c' : Config D X K W T V C ε E}

omit [DecidableEq K] in
theorem sequential_iff : S.Sequential I c ↔ S.SequentialIn (fun _ => True) I c :=
  ⟨fun h => ⟨h.store, h.unborn, h.procs⟩, fun h => ⟨h.store, h.unborn, h.procs⟩⟩

theorem Serial.reachable (h : S.Serial init c) : S.Reachable init c := by
  obtain ⟨c₀, h₀, hr⟩ := h
  induction hr with
  | refl => exact .init h₀
  | tail _ hs ih => exact .step ih hs.step

omit [DecidableEq K] in
theorem SequentialIn.unlocked (h : S.SequentialIn J I c) (he : ∀ p ∈ c.procs, p.prog.ended = true) (k : K) :
    c.world.locks k = none := by
  rcases h.procs with ⟨-, hk⟩ | ⟨i, p, o, hp, -, hm, ha⟩
  · exact hk k
  · have hend := he p (List.mem_of_getElem? hp)
    obtain ⟨call, q⟩ := p
    cases hl : c.world.locks k with
    | none => rfl
    | some j =>
      have hlk := (hm.locks k j hl).2
      cases q with
      | ret => rw [ha.2] at hlk; cases hlk
      | throw => rw [ha.2] at hlk; cases hlk
      | op => cases hend

theorem SequentialIn.step (h : S.SequentialIn J I c) (hJ : J c.world.sh.ext)
    (hs : S.SerialStep c c') (hcode : ∀ call,
    c'.procs = c.procs ++ [⟨call, S.code call⟩] → S.admits c.world.sh.db c.world.sh.ext call →
    S.alone true J I (S.code call) (fun _ d' o' => I d' ∧ o'.locks = false) c.world.sh.db
      (.idle c.world.sh.db)) : S.SequentialIn J I c' := by
  cases hs.step with
  | @run w w' ps j call β q k ch r hj he =>
    rcases h.procs with ⟨hend, -⟩ | ⟨i, p, o, hp, hother, hm, ha⟩
    · have := hend _ (List.mem_of_getElem? hj)
      cases this
    have hij : j = i := by
      refine Classical.byContradiction fun hne => ?_
      have := hother j _ hne hj
      cases this
    subst hij
    rw [hj] at hp
    cases hp
    obtain ⟨d', o', hm', hk, hd'⟩ := exec_after hm hJ (.inl rfl) ha he
    have hdb : w'.sh.db = d' := hm'.db
    subst hdb
    have hlt := (List.getElem?_eq_some_iff.mp hj).1
    refine ⟨?_, fun n hn => ?_, .inr ⟨j, ⟨call, k r⟩, o', List.getElem?_set_self hlt, fun n q hn hq => ?_, hm', hk⟩⟩
    · rcases hd' with hd' | hd'
      · rw [hd']; exact h.store
      · exact hd'
    · simp only [List.length_set] at hn
      have hne : j ≠ n := by omega
      have hsess : w'.sess n = w.sess n := by
        cases exec_moved he with
        | quiet _ hs => exact hs n hne.symm
        | lock _ _ _ _ _ _ hs => exact hs n hne.symm
        | done u _ hs _ hu => rw [hu]; simp [World.release, World.setSess, hne.symm, hs]
      rw [hsess]
      exact h.unborn n hn
    · rw [List.getElem?_set_ne (Ne.symm hn)] at hq
      exact hother n q hn hq
  | @start w ps call hadm =>
    have hend : ∀ p ∈ ps, p.prog.ended = true := hs.serial.resolve_left (by simp)
    refine ⟨h.store, fun n hn => h.unborn n ?_,
      .inr ⟨ps.length, ⟨call, S.code call⟩, .idle w.sh.db, ?_, fun j q hj hq => ?_, ?_, hcode call rfl hadm⟩⟩
    · simp only [List.length_append, List.length_cons, List.length_nil] at hn; simp only; omega
    · exact List.getElem?_concat_length
    · rcases Nat.lt_or_ge j ps.length with hlt | hge
      · rw [List.getElem?_append_left hlt] at hq
        exact hend q (List.mem_of_getElem? hq)
      · have := (List.getElem?_eq_some_iff.mp hq).1
        simp only [List.length_append, List.length_cons, List.length_nil] at this
        omega
    · have hun : w.sess ps.length = ⟨[], false⟩ := h.unborn ps.length (Nat.le_refl _)
      refine ⟨rfl, by simp [Sys.view, hun, Open.idle], by simp [hun, Open.idle], fun k j hk => ?_⟩
      rw [h.unlocked hend k] at hk
      cases hk
  | env hx =>
    refine ⟨h.store, h.unborn, h.procs.imp (fun hp => hp) ?_⟩
    rintro ⟨i, p, o, hp, hother, hm, ha⟩
    exact ⟨i, p, o, hp, hother, ⟨hm.db, hm.view, hm.failed, hm.locks⟩, ha⟩

omit [DecidableEq K] in
theorem Sequential.unlocked (h : S.Sequential I c) (he : ∀ p ∈ c.procs, p.prog.ended = true)
    (k : K) : c.world.locks k = none :=
  (sequential_iff.mp h).unlocked he k

theorem Sequential.step (h : S.Sequential I c) (hs : S.SerialStep c c') (hcode : ∀ call,
    c'.procs = c.procs ++ [⟨call, S.code call⟩] → S.admits c.world.sh.db c.world.sh.ext call →
    S.alone true (fun _ => True) I (S.code call) (fun _ d' o' => I d' ∧ o'.locks = false) c.world.sh.db
      (.idle c.world.sh.db)) : S.Sequential I c' :=
  sequential_iff.mpr ((sequential_iff.mp h).step trivial hs hcode)

theorem serial_sequential (hinit : ∀ d x, init d x → I d)
    (hcode : ∀ (c : Config D X K W T V C ε E) call, S.Reachable init c →
      S.admits c.world.sh.db c.world.sh.ext call →
      I c.world.sh.db → S.alone true (fun _ => True) I (S.code call) (fun _ d' o' => I d' ∧ o'.locks = false)
        c.world.sh.db (.idle c.world.sh.db)) (h : S.Serial init c) : S.Sequential I c := by
  obtain ⟨c₀, h₀, hr⟩ := h
  induction hr with
  | refl =>
    exact ⟨hinit _ _ h₀.init, fun j _ => h₀.sess j, .inl ⟨by rw [h₀.procs]; simp, h₀.locks⟩⟩
  | @tail b c hb hs ih =>
    exact ih.step hs fun call _ ha => hcode b call (Serial.reachable ⟨c₀, h₀, hb⟩) ha ih.store

/-- What holds initially, and what every call keeps that runs alone, holds in
every state of a serial run. -/
theorem serial_induct (hinit : ∀ d x, init d x → I d)
    (hcode : ∀ (c : Config D X K W T V C ε E) call, S.Reachable init c →
      S.admits c.world.sh.db c.world.sh.ext call →
      I c.world.sh.db → S.alone true (fun _ => True) I (S.code call) (fun _ d' o' => I d' ∧ o'.locks = false)
        c.world.sh.db (.idle c.world.sh.db)) (h : S.Serial init c) : I c.world.sh.db :=
  (serial_sequential hinit hcode h).store

end

end Sys
