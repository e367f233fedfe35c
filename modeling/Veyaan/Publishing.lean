import Veyaan.Decisions
import Veyaan.Lib.Claims

/-!
# No event is published twice

A batch claims its events with `SKIP LOCKED` and keeps the locks until it
commits, so two batches never have the same event at hand; and once an event is
marked, no later batch selects it. What can go wrong is a batch that has
published something and is rolled back: the marks are lost, and the events are
published again.
-/

open Relation (ReflTransGen)

namespace Veyaan

open Sys

/-! ## Under its lock -/

def publishing : {β : Type} → Stmt β → Option OutboxEvent
  | _, .eff e => e.event
  | _, _ => none

/-- An event is published under its lock and before the batch commits; and what a
process that has published one commits first is the batch. -/
structure Covered (β : Type) (s : Stmt β) (L : List Key) (l : List Ev) : Prop where
  publish : ∀ e, publishing s = some e → Key.outbox e.id ∈ L ∧ Ev.committed .batch ∉ l
  commit : ∀ t, s.commits = some t → (∃ m e, Ev.published m (some e) ∈ l) →
    t = some (.commit .batch) ∨ Ev.committed .batch ∈ l

abbrev Covers (P : Params) {α : Type} (p : Op α) (post : Except Err α → List Key → List Ev → Prop) (L : List Key)
    (l : List Ev) : Prop := (sys P).Claims Covered p post L l

section
variable {P : Params} {α : Type} {L : List Key} {l : List Ev}

theorem of_publishing_none {β : Type} {s : Stmt β} {p : OutboxEvent → Prop} (h : publishing s = none) :
    ∀ e, publishing s = some e → p e := fun e he => by rw [h] at he; cases he

theorem covered_commit {t : Option Label} (h : (∃ m e, Ev.published m (some e) ∈ l) →
    t = some (.commit .batch) ∨ Ev.committed .batch ∈ l) : Covered Unit (.commit t) L l :=
  ⟨of_publishing_none rfl, fun _ ht hp => h hp |>.imp_left fun he => (Option.some.inj ht).symm.trans he⟩

theorem covered_of {β : Type} {s : Stmt β} (hp : publishing s = none) (hc : s.commits = none) : Covered β s L l :=
  ⟨of_publishing_none hp, fun t ht => by rw [hc] at ht; cases ht⟩

/-! ### Calls that publish no event -/

theorem quiet_unpublishing : Quiet fun β (s : Stmt β) => publishing s = none where
  read _ _ := rfl
  forUpdate _ _ _ := rfl
  skipLocked _ _ _ := rfl
  stmt _ _ _ := rfl
  now := rfl
  uuid4 := rfl
  token := rfl
  rollback := rfl
  fresh _ := rfl
  eff _ h := Eff.event_of_quiet h

theorem says_published {β : Type} {s : Stmt β} {w : Wd} {m : Msg} {e : OutboxEvent}
    (h : (sys P).Says w s (.published m (some e))) : publishing s = some e := by
  have hsee : ∀ (l : Label) ok d x, l.see ok d x ≠ .published m (some e) := by
    intro l ok d x
    cases l <;> simp [Label.see]
  obtain ⟨x, ch, rfl, hv⟩ := Sys.says_effect hsee (fun _ he => by cases he) h
  cases x <;> cases ch <;> simp_all [sys, Eff.handle, publishing, Eff.event]

theorem covers_unpublishing {p : Op α} (h : p.All fun β (s : Stmt β) => publishing s = none)
    (hl : ∀ v ∈ l, ∀ m e, v ≠ .published m (some e)) :
    Covers P p (fun _ _ _ => True) L l := by
  refine Claims.mono (fun _ _ _ _ => trivial)
    (claims_of_all (φ := fun β (s : Stmt β) => publishing s = none) (N := [])
    (J := fun v => ∀ m e, v ≠ .published m (some e)) (fun hs _ hl => ⟨of_publishing_none hs, ?_⟩) (by simp)
    (fun hs hv m e he => by subst he; rw [says_published hv] at hs; cases hs) h (by simp) hl)
  rintro t - ⟨m, e, hm⟩
  exact absurd rfl (hl _ hm m e)

/-! ### The batch -/

structure InBatch (P : Params) (es : List OutboxEvent) (β : Type) (s : Stmt β) : Prop where
  publish : ∀ e, publishing s = some e → e ∈ es
  within : s.ends = false
  entries : ∀ w v, (sys P).Says w s v → v ≠ .committed .batch

theorem see_ne_committed {lb : Label} (h : ∀ t, lb ≠ .commit t) (ok : Bool) (d : DB) (x : Ext) (t : Tag) :
    lb.see ok d x ≠ .committed t := by
  cases lb with
  | commit t => exact absurd rfl (h t)
  | _ => simp [Label.see]

theorem plain_inBatch {es : List OutboxEvent} : Plain (InBatch P es) where
  read _ hl :=
    ⟨of_publishing_none rfl, rfl, by
      rintro w v ⟨lb, ok, rfl, rfl⟩
      exact see_ne_committed (fun t ht => hl t (by rw [ht])) _ _ _ _⟩
  forUpdate _ _ hl :=
    ⟨of_publishing_none rfl, rfl, by
      rintro w v ⟨lb, ok, rfl, rfl⟩
      exact see_ne_committed (fun t ht => hl t (by rw [ht])) _ _ _ _⟩
  skipLocked _ _ _ := ⟨of_publishing_none rfl, rfl, fun _ _ h => h.elim⟩
  stmt _ _ _ := ⟨of_publishing_none rfl, rfl, by rintro w v ⟨e, rfl⟩; simp [sys]⟩
  now := ⟨of_publishing_none rfl, rfl, by rintro w v ⟨ch, hv⟩; simp [sys, Eff.handle] at hv⟩
  uuid4 := ⟨of_publishing_none rfl, rfl, by rintro w v ⟨ch, hv⟩; simp [sys, Eff.handle] at hv⟩
  token := ⟨of_publishing_none rfl, rfl, by rintro w v ⟨ch, hv⟩; simp [sys, Eff.handle] at hv⟩

theorem all_inBatch {es : List OutboxEvent} : (processEvents P es).All (InBatch P es) := by
  refine all_processEvents plain_inBatch (fun e _ o => all_isActive ⟨of_publishing_none rfl, rfl, ?_⟩
    ⟨of_publishing_none rfl, rfl, ?_⟩ fun v => ⟨of_publishing_none rfl, rfl, ?_⟩)
    fun e he => ⟨fun x hx => ?_, rfl, ?_⟩
  · rintro w v ⟨ch, hv⟩; cases ch <;> simp [sys, Eff.handle] at hv; simp [hv]
  · rintro w v ⟨lb, ok, ht, rfl⟩; cases ht; simp [sys, Label.see]
  · rintro w v ⟨ch, hv⟩; cases ch <;> simp [sys, Eff.handle] at hv; simp [hv]
  · cases hx; exact he
  · rintro w v ⟨ch, hv⟩; cases ch <;> simp [sys, Eff.handle] at hv <;> simp [hv]

theorem claims_withSession {M : ∀ β, Stmt β → List Key → List Ev → Prop} {body : Op α}
    (hroll : ∀ L l, M Unit .rollback L l)
    (h : (sys P).Claims M body (fun r L l => ∀ a, r = .ok a → M Unit (.commit none) L l) L l) :
    (sys P).Claims M (withSession body) (fun _ _ _ => True) L l := by
  have hroll : ∀ {e L l}, (sys P).Claims M ((Prog.call Prim.rollback).bind fun _ => (raise e : Op α))
      (fun _ _ _ => True) L l :=
    ⟨hroll _ _, fun _ _ r _ _ _ _ _ => by cases r <;> trivial⟩
  refine claims_bind (claims_attempt (claims_bind (h.mono fun r L l hr => ?_)))
  cases r with
  | error e => exact hroll
  | ok a =>
    refine claims_bind (claims_call (hr a rfl) fun i ch r vs w w' he ht => ?_)
    cases r with
    | ok => trivial
    | error e => exact hroll

theorem covers_processBatch : Covers P (processBatch P) (fun _ _ _ => True) [] [] := by
  refine claims_withSession (fun _ _ => covered_of rfl rfl)
    (claims_bind (claims_bind (claims_silent (covered_of rfl rfl) ?_ fun r => ?_)))
  · rintro w v ⟨ch, hv⟩; simp [sys, Eff.handle] at hv
  cases r with
  | error e => intro a ha; cases ha
  | ok now =>
    refine claims_silent (covered_of rfl rfl) (fun _ _ h => h) fun r => ?_
    cases r with
    | error e => intro a ha; cases ha
    | ok rows =>
      dsimp only
      split
      · intro _ _; exact covered_commit (by simp)
      refine claims_bind (Claims.mono (fun r L l hr => ?_) (claims_of_all (φ := InBatch P rows)
        (N := rows.map fun e => Key.outbox e.id) (J := fun v => v ≠ .committed .batch)
        (fun hs hL hl => ⟨fun e he => ?_, ?_⟩)
        (fun r hs hL x hx => Prim.claimed_of_not_ends hs.within r x (hL x hx))
        (fun hs => hs.entries _ _) all_inBatch
        (by simp [Prim.claimed]) (by simp)))
      · cases r with
        | error e => intro a ha; cases ha
        | ok n =>
          refine claims_bind (claims_commit (covered_commit fun _ => .inl rfl)
            (fun e a ha => by cases ha) fun d x => ?_)
          intro a _
          exact covered_commit fun _ => .inr (by simp [sys, Label.see])
      · exact ⟨hL _ (List.mem_map_of_mem (hs.publish e he)), fun hm => hl _ hm rfl⟩
      · intro t ht
        have := hs.within
        cases ‹Stmt _› with
        | commit => cases this
        | _ => cases ht

theorem covers_code (call : Call) : Covers P (call.code P) (fun _ _ _ => True) [] [] := by
  by_cases hb : call = .batch
  · subst hb
    exact claims_bind (covers_processBatch.mono fun r _ _ _ => by cases r <;> trivial)
  · exact covers_unpublishing (quiet_unpublishing.code (fun _ _ => rfl) (fun _ _ _ => rfl) (fun _ _ _ => rfl)
      (fun h => absurd h hb) (fun _ _ _ => ⟨rfl, rfl⟩) fun _ _ _ _ _ _ => rfl) (by simp)

end

/-! ## Marks stay -/

section
variable {P : Params} {c c' : Conf} {s : St} {i : Nat} {d : DB} {k : UUID} {e : OutboxEvent}

theorem Tx.keeps_marked {t : Tag} (h : Tx P s i t d) (hf : s.db.outbox.find k = some e) (hs : e.status ≠ .pending) :
    d.outbox.find k = some e := by
  have hput : ∀ {x : OutboxEvent}, s.db.outbox.find x.id = none →
      (s.db.outbox.put x).find k = some e := fun hn => by
    rw [Table.find_put_ne _ (by rintro rfl; rw [key_outbox, hn] at hf; cases hf)]
    exact hf
  cases h with
  | create h =>
    rcases h.form with ⟨-, -, hout, -⟩ | ⟨-, -, -, x, hn, -, -, -, -, hout⟩
    · rw [hout]; exact hf
    · rw [hout]; exact hput hn
  | approve _ h => rw [h.outbox]; exact hput h.new
  | chain h =>
    refine h.keeps (I := fun d => d.outbox.find k = some e) (fun d w hw hI => ?_) hf
    cases hw with
    | @notice x hn =>
      refine (Table.find_put_ne _ ?_).trans hI
      rintro rfl
      rw [key_outbox, hn] at hI
      cases hI
    | @outbox x x' hx _ _ hp =>
      refine (Table.find_put_ne _ ?_).trans hI
      rintro rfl
      rw [key_outbox, hx] at hI
      cases hI
      exact hs hp
    | _ => exact hI

theorem step_keeps_marked (h : Reachable P c) (hs : (sys P).Step c c') (hf : c.world.sh.db.outbox.find k = some e)
    (hst : e.status ≠ .pending) : c'.world.sh.db.outbox.find k = some e := by
  rcases step_tx h hs with hd | ⟨i, t, s, -, hd, -, htx⟩
  · rw [hd]; exact hf
  · exact htx.keeps_marked (by rw [hd]; exact hf) hst

theorem step_keeps_published (h : Reachable P c) (hs : (sys P).Step c c') (hp : c.world.sh.db.Published k) :
    c'.world.sh.db.Published k := by
  obtain ⟨e, hf, hst⟩ := hp
  exact ⟨e, step_keeps_marked h hs hf (by rw [hst]; simp), hst⟩

/-! ## Handing an event to `publish_js` -/

/-- `publish_js` returned for the event. -/
def publishes (k : UUID) : Nat × Ev → Bool
  | (_, .published _ (some e)) => e.id == k
  | _ => false

/-- The event was handed to `publish_js`, which returned or raised. -/
def handed (k : UUID) : Nat × Ev → Bool
  | (_, .published _ (some e)) => e.id == k
  | (_, .publishFailed _ (some e)) => e.id == k
  | _ => false

theorem exists_of_publishes {x : Nat × Ev} (h : publishes k x = true) :
    ∃ i m e, x = (i, .published m (some e)) ∧ e.id = k := by
  obtain ⟨i, v⟩ := x
  unfold publishes at h
  split at h
  · rename_i m e hx
    cases hx
    exact ⟨_, _, _, rfl, by simpa using h⟩
  · cases h

theorem step_handed (h : Reachable P c) (hs : (sys P).Step c c') {x : Nat × Ev}
    (ht : c'.world.sh.trace = c.world.sh.trace ++ [x]) (hx : handed k x = true) :
    ∃ e, c.world.sh.db.outbox.find k = some e ∧ e.status = .pending := by
  obtain ⟨j, v⟩ := x
  obtain ⟨s₁, -, hd, hv⟩ := step_says h hs ht
  rw [← hd]
  unfold handed at hx
  split at hx
  · rename_i m e he
    cases he
    obtain rfl : e.id = k := by simpa using hx
    rcases hv with hv | ⟨_, _, he, hp⟩ | ⟨_, he, -⟩
    · exact hv.elim
    · cases he
      exact ⟨e, hp.event.1, hp.event.2.2.1⟩
    · cases he
  · rename_i m e he
    cases he
    obtain rfl : e.id = k := by simpa using hx
    rcases hv with hv | ⟨_, _, he, hp⟩ | ⟨_, he, -⟩
    · exact ⟨e, hv e rfl⟩
    · cases he
    · cases he
  · cases hx

/-- An event that is no longer pending is never handed over again. -/
theorem runs_handed (h : Reachable P c) (hr : Runs P c c') (hf : c.world.sh.db.outbox.find k = some e)
    (hst : e.status ≠ .pending) : c'.world.sh.db.outbox.find k = some e ∧
      c'.world.sh.trace.countP (handed k) = c.world.sh.trace.countP (handed k) := by
  induction hr with
  | refl => exact ⟨hf, rfl⟩
  | @tail a b ha hs ih =>
    obtain ⟨hfa, hca⟩ := ih
    have hra := h.runs ha
    refine ⟨step_keeps_marked hra hs hfa hst, ?_⟩
    rcases step_entry handle_one hs with ht | ⟨j, v, ht, -⟩
    · rw [ht]; exact hca
    · have hno : ¬ handed k (j, v) = true := fun hx => by
        obtain ⟨e', he', hp⟩ := step_handed hra hs ht hx
        rw [hfa] at he'
        cases he'
        exact hst hp
      rw [ht, List.countP_append, List.countP_singleton, if_neg hno, Nat.add_zero]
      exact hca

/-! ## Runs in which no batch is rolled back -/

def Unsettled (t : List (Nat × Ev)) (i : Nat) : Prop :=
  (∃ m e, (i, Ev.published m (some e)) ∈ t) ∧ (i, Ev.committed .batch) ∉ t

def RollsBack (i : Nat) (c c' : Conf) : Prop :=
  ∃ call k, c.procs[i]? = some ⟨call, .op .rollback k⟩ ∧ c' = ⟨c.world.release i, c.procs.set i ⟨call, k (.ok ())⟩⟩

theorem step_keeps_lock {key : Key} (h : Reachable P c) (hs : (sys P).Step c c') (hl : c.world.locks key = some i)
    (hr : ¬ RollsBack i c c') : c'.world.locks key = some i ∨
      ∃ call t f, c.procs[i]? = some ⟨call, .op (.commit t) f⟩ ∧ c'.world.sh.trace =
        c.world.sh.trace ++ (t.map fun l => (i, l.see true c.world.sh.db c.world.sh.ext)).toList := by
  cases hs with
  | start => exact .inl hl
  | env => exact .inl hl
  | @run w w' ps j call β q f ch r hp hex =>
    by_cases hij : j = i
    swap
    · exact .inl (((exec_moved hex).leaves h.lockOk hij).2.1 _ hl)
    subst hij
    have hclaim : key ∈ q.claimed r [key] → w'.locks key = some j := exec_claimed hex (by simpa using hl) _
    cases q with
    | rollback =>
      simp only [exec] at hex
      cases hex
      exact absurd ⟨call, f, hp, rfl⟩ hr
    | commit t =>
      cases r with
      | error => exact .inl (hclaim (List.mem_singleton.mpr rfl))
      | ok =>
        refine .inr ⟨call, t, f, hp, ?_⟩
        simp only [exec] at hex
        split at hex <;> cases hex
        cases t with
        | none => exact (List.append_nil _).symm
        | some l => rfl
    | _ => exact .inl (hclaim (Prim.claimed_of_not_ends rfl r _ (List.mem_singleton.mpr rfl)))

/-- A step that does not roll back a batch that has published something. -/
structure Unbroken (P : Params) (c c' : Conf) : Prop where
  step : (sys P).Step c c'
  kept : ∀ i, Unsettled c.world.sh.trace i → ¬ RollsBack i c c'

/-- Who has published an event has marked it, or keeps it locked. -/
structure Exclusive (c : Conf) : Prop where
  locked : ∀ i m e, (i, Ev.published m (some e)) ∈ c.world.sh.trace →
    c.world.sh.db.Published e.id ∨ c.world.locks (.outbox e.id) = some i
  committed : ∀ i m e, (i, Ev.published m (some e)) ∈ c.world.sh.trace →
    (i, Ev.committed .batch) ∈ c.world.sh.trace → c.world.sh.db.Published e.id
  once : ∀ k, c.world.sh.trace.countP (publishes k) ≤ 1

theorem Tx.marks (h : Tx P s i .batch d) {m : Msg} (he : (i, Ev.published m (some e)) ∈ s.trace) :
    d.Published e.id := by
  cases h with
  | chain _ hcl => exact hcl m e he

/-- The commit of a batch marks all events that it has published. -/
theorem step_batch (h : Reachable P c) (hs : (sys P).Step c c')
    (ht : c'.world.sh.trace = c.world.sh.trace ++ [(i, .committed .batch)]) {m : Msg}
    (he : (i, Ev.published m (some e)) ∈ c.world.sh.trace) : c'.world.sh.db.Published e.id := by
  obtain ⟨s₁, ht₁, -, -, htx⟩ := step_commits h hs ht
  exact htx.marks (ht₁ ▸ he)

/-- An event is published by the process that has locked it, for the first time in
its name, and before its batch commits. -/
theorem step_publishes (h : Reachable P c) (hs : (sys P).Step c c') {m : Msg}
    (ht : c'.world.sh.trace = c.world.sh.trace ++ [(i, .published m (some e))]) :
    c.world.locks (.outbox e.id) = some i ∧ c'.world.locks (.outbox e.id) = some i ∧
      c.world.sh.db.outbox.find e.id = some e ∧ e.status = .pending ∧ (i, Ev.committed .batch) ∉ c.world.sh.trace ∧
      ∀ m' x, (i, Ev.published m' (some x)) ∈ c.world.sh.trace → x.id ≠ e.id := by
  obtain ⟨s₁, ht₁, hd₁, hv | ⟨_, _, hv, hp⟩ | ⟨t, hv, -⟩⟩ := step_says h hs ht
  · exact hv.elim
  · cases hv
    obtain ⟨hf, -, hst, hfirst, -⟩ := hp.event
    rw [hd₁] at hf
    rw [ht₁] at hfirst
    obtain ⟨call, β, q, f, ch, r, hp, he, hq⟩ := step_speaker hs ht
    obtain ⟨L, hL, hcov, -⟩ := Reachable.claims covers_code h hp
    obtain ⟨hm, hno⟩ := hcov.publish e (says_published hq)
    refine ⟨hL _ hm, exec_claimed he hL _ (Prim.claimed_of_not_ends ?_ r _ hm), hf, hst,
      fun hc => hno (mem_own.mpr hc), hfirst⟩
    cases q with
    | eff => rfl
    | _ => cases says_published hq
  · cases hv

/-- A batch keeps the events that it has published locked until it commits. -/
theorem Unbroken.keeps_lock (h : Reachable P c) (hs : Unbroken P c c') {m : Msg}
    (he : (i, Ev.published m (some e)) ∈ c.world.sh.trace) (hl : c.world.locks (.outbox e.id) = some i)
    (hc : (i, Ev.committed .batch) ∉ c.world.sh.trace) : c'.world.locks (.outbox e.id) = some i ∨
      c'.world.sh.trace = c.world.sh.trace ++ [(i, .committed .batch)] := by
  rcases step_keeps_lock h hs.step hl (hs.kept i ⟨⟨m, e, he⟩, hc⟩) with hl' | ⟨call, t, f, hp, ht⟩
  · exact .inl hl'
  obtain ⟨L, -, hcov, -⟩ := Reachable.claims covers_code h hp
  rcases hcov.commit t rfl ⟨m, e, mem_own.mpr he⟩ with rfl | hcom
  · exact .inr ht
  · exact absurd (mem_own.mp hcom) hc

theorem Unbroken.exclusive (h : Reachable P c) (hs : Unbroken P c c') (hx : Exclusive c) : Exclusive c' := by
  have hkeep : ∀ {k}, c.world.sh.db.Published k → c'.world.sh.db.Published k := step_keeps_published h hs.step
  -- an entry that was there before
  have hlocked : ∀ i m e, (i, Ev.published m (some e)) ∈ c.world.sh.trace →
      c'.world.sh.db.Published e.id ∨ c'.world.locks (.outbox e.id) = some i := by
    intro i m e he
    rcases hx.locked i m e he with hp | hl
    · exact .inl (hkeep hp)
    by_cases hc : (i, Ev.committed .batch) ∈ c.world.sh.trace
    · exact .inl (hkeep (hx.committed i m e he hc))
    rcases hs.keeps_lock h he hl hc with hl' | ht
    · exact .inr hl'
    · exact .inl (step_batch h hs.step ht he)
  rcases step_entry handle_one hs.step with ht | ⟨j, v, ht, -⟩
  · refine ⟨?_, ?_, ?_⟩
    · rw [ht]; exact hlocked
    · rw [ht]; exact fun i m e he hc => hkeep (hx.committed i m e he hc)
    · rw [ht]; exact hx.once
  have hnew : ∀ {x}, x ∈ c'.world.sh.trace → x ∈ c.world.sh.trace ∨ x = (j, v) := fun hm => by
    rw [ht] at hm
    simpa using hm
  refine ⟨fun i m e he => ?_, fun i m e he hc => ?_, fun k => ?_⟩
  · rcases hnew he with he | he
    · exact hlocked i m e he
    · cases he
      exact .inr (step_publishes h hs.step ht).2.1
  · rcases hnew he with he | he
    · rcases hnew hc with hc | hc
      · exact hkeep (hx.committed i m e he hc)
      · cases hc
        exact step_batch h hs.step ht he
    · cases he
      rcases hnew hc with hc | hc
      · exact absurd hc (step_publishes h hs.step ht).2.2.2.2.1
      · cases hc
  · rw [ht, List.countP_append, List.countP_singleton]
    split
    swap
    · exact hx.once k
    · rename_i hk
      obtain ⟨i, m, e, hv, rfl⟩ := exists_of_publishes hk
      cases hv
      obtain ⟨hl, -, hf, hst, -, hfirst⟩ := step_publishes h hs.step ht
      -- nobody has published the event before
      have hzero : c.world.sh.trace.countP (publishes e.id) = 0 := by
        rw [List.countP_eq_zero]
        intro x hm hp
        obtain ⟨i, m', e', rfl, hid⟩ := exists_of_publishes hp
        rcases hx.locked i m' e' hm with ⟨r, hr, hs⟩ | hl'
        · rw [hid, hf] at hr
          cases hr
          rw [hst] at hs; cases hs
        · rw [hid, hl] at hl'
          cases hl'
          exact hfirst m' e' hm hid
      omega

theorem Unbroken.runs {c₀ : Conf} (h₀ : Initial Init c₀) (h : ReflTransGen (Unbroken P) c₀ c) :
    Reachable P c ∧ Exclusive c := by
  induction h with
  | refl => exact ⟨.init h₀, by constructor <;> simp [h₀.trace]⟩
  | tail _ hs ih => exact ⟨.step ih.1 hs.step, hs.exclusive ih.1 ih.2⟩

/-- **No event is published twice** in a run in which no batch that has published
something is rolled back; a batch marks in its commit what it has published; and
an event that is marked is never handed to `publish_js` again. -/
theorem published_once {c₀ : Conf} (h₀ : Initial Init c₀) (h : ReflTransGen (Unbroken P) c₀ c) (k : UUID) :
    c.world.sh.trace.countP (publishes k) ≤ 1 ∧
    (∀ i c', (sys P).Step c c' → c'.world.sh.trace = c.world.sh.trace ++ [(i, .committed .batch)] →
      ∀ m e, (i, Ev.published m (some e)) ∈ c.world.sh.trace → c'.world.sh.db.Published e.id) ∧
    ∀ e c', c.world.sh.db.outbox.find k = some e → e.status = .published ∨ e.status = .failed → Runs P c c' →
      c'.world.sh.trace.countP (handed k) = c.world.sh.trace.countP (handed k) := by
  obtain ⟨hr, hx⟩ := Unbroken.runs h₀ h
  refine ⟨hx.once k, fun i c' hs ht m e he => step_batch hr hs ht he, fun e c' hf hst hrun => ?_⟩
  refine (runs_handed hr hrun hf ?_).2
  rcases hst with hst | hst <;> rw [hst] <;> simp

def unsettled (t : List (Nat × Ev)) (i : Nat) : Bool :=
  t.any (fun | (j, .published _ (some _)) => j == i | _ => false) &&
    !t.any fun | (j, .committed .batch) => j == i | _ => false

theorem unsettled_of {t : List (Nat × Ev)} (h : Unsettled t i) : unsettled t i = true := by
  obtain ⟨⟨m, e, he⟩, hc⟩ := h
  rw [unsettled, Bool.and_eq_true, Bool.not_eq_true', List.any_eq_true, List.any_eq_false]
  refine ⟨⟨_, he, by simp⟩, fun x hx hi => ?_⟩
  split at hi
  · rw [beq_iff_eq] at hi
    exact hc (hi ▸ hx)
  · cases hi

def unbroken (c : Conf) (_ : Turn Move) : Bool :=
  (List.range c.procs.length).all fun i =>
    match c.procs[i]? with
    | some ⟨_, .op .rollback _⟩ => !unsettled c.world.sh.trace i
    | _ => true

theorem unbroken_step {u : Turn Move} (hu : unbroken c u = true) (h : turn (moves P) c u = some c') :
    Unbroken P c c' := by
  refine ⟨turn_step _ h, ?_⟩
  rintro i hi ⟨call, k, hp, -⟩
  have := List.all_eq_true.mp hu i (List.mem_range.mpr (List.getElem?_eq_some_iff.mp hp).1)
  rw [hp, unsettled_of hi] at this
  cases this

def twoBatches : List (Turn Move) :=
  .other (.call (.create (ping false) 7)) :: steps 0 26 ++ .other (.call .batch) ::
    .other (.call .batch) :: steps 1 2 ++
    steps 2 3 ++ steps 1 9

theorem published_once_two_batches : ∃ c₀ c e, Initial Init c₀ ∧ ReflTransGen (Unbroken demo) c₀ c ∧
    c.world.sh.db.outbox.find 12 = some e ∧ e.status = .published ∧
    ∀ c', Runs demo c c' → c'.world.sh.trace.countP (handed 12) = 1 := by
  have hplay : (playIf (moves demo) unbroken twoBatches demoStart).any (fun c =>
      (c.world.sh.db.outbox.find 12).any (·.status == .published) &&
          c.world.sh.trace.countP (handed 12) == 1) = true := by
    decide +kernel
  obtain ⟨c, hc, hφ⟩ := (Option.any_eq_true _ _).mp hplay
  simp only [Bool.and_eq_true, Option.any_eq_true, beq_iff_eq] at hφ
  obtain ⟨⟨e, he, hst⟩, hone⟩ := hφ
  have hr : ReflTransGen (Unbroken demo) demoStart c := playIf_runs _ (Q := Unbroken demo) unbroken_step hc
  exact ⟨demoStart, c, e, demo_initial, hr, he, hst, fun c' hrun =>
    ((published_once demo_initial hr 12).2.2 e c' he (.inl hst) hrun).trans hone⟩

end

end Veyaan
