import Veyaan.Refine.Stops

/-!
# `OutboxPublisher` follows the protocol

The batch is one transaction. The loop keeps that the events still to come are
locked and untouched, and that their commands have not been written either: no
command has two `command.queued` events.
-/

open Relation (ReflTransGen)

namespace Veyaan

open Sys

section
variable {P : Params} {i : Nat} {w w' : Wd} {L L' : List (Key × Row)} {ws us : List Write}
variable {e : OutboxEvent} {es : List OutboxEvent}

/-- The loop invariant: the events `es` are still to come. -/
structure Batch (P : Params) (i : Nat) (w : Wd) (L : List (Key × Row)) (ws : List Write) (es : List OutboxEvent) :
    Prop where
  ready : Rdy P .batch i w L ws
  rows : ∀ e ∈ es, (Key.outbox e.id, Row.outbox (some e)) ∈ L
  pending : ∀ e ∈ es, e.status = .pending
  outbox : ∀ e ∈ es, ∀ d, ((sys P).applyAll ws d).outbox.find e.id = d.outbox.find e.id
  commands : ∀ e ∈ es, e.isQueued = true → ∀ d,
    ((sys P).applyAll ws d).commands.find e.aggregateId = d.commands.find e.aggregateId
  distinct : es.Pairwise fun e e' =>
    e.id ≠ e'.id ∧ (e.isQueued = true → e'.isQueued = true → e.aggregateId ≠ e'.aggregateId)
  done : ∀ m x, Ev.published m (some x) ∈ own i w.sh.trace →
    (∀ d, ((sys P).applyAll ws d).Published x.id) ∧ ∀ e ∈ es, x.id ≠ e.id

def Unpublished (vs : List Ev) : Prop := ∀ m x, Ev.published m (some x) ∉ vs

theorem Batch.since {vs : List Ev} (h : Batch P i w L ws es) (hs : After P i vs w w') (h' : Holds P i w' L ws)
    (hv : Unpublished vs := by simp [Unpublished]) : Batch P i w' L ws es := by
  refine ⟨h.ready.since hs.shared h', h.rows, h.pending, h.outbox, h.commands, h.distinct, fun m x hx => ?_⟩
  rw [hs.trace] at hx
  rcases List.mem_append.mp hx with hx | hx
  · exact h.done m x hx
  · exact absurd hx (hv m x)

theorem Batch.find (h : Batch P i w L ws (e :: es)) {d : DB} (hd : (sys P).Agrees L d) :
    ((sys P).applyAll ws d).outbox.find e.id = some e := by
  rw [h.outbox e (List.mem_cons_self ..)]
  simpa [sys, DB.row] using hd _ (h.rows e (List.mem_cons_self ..))

structure Concerns (P : Params) (e : OutboxEvent) (us : List Write) : Prop where
  outbox : ∀ d k, e.id ≠ k → ((sys P).applyAll us d).outbox.find k = d.outbox.find k
  commands : ∀ d k, (e.isQueued = true → e.aggregateId ≠ k) →
    ((sys P).applyAll us d).commands.find k = d.commands.find k

def Marks (P : Params) (e : OutboxEvent) (ws : List Write) (vs : List Ev) : Prop :=
  ∀ m x, Ev.published m (some x) ∈ vs → x.id = e.id ∧ ∀ d, ((sys P).applyAll ws d).Published e.id

theorem Batch.next {vs : List Ev} (h : Batch P i w L ws (e :: es)) (hs : After P i vs w w')
    (hr : Rdy P .batch i w' L' (ws ++ us)) (hL : ∀ p ∈ L, p ∈ L') (hu : Concerns P e us)
    (hv : Marks P e (ws ++ us) vs) : Batch P i w' L' (ws ++ us) es := by
  obtain ⟨hd, hd'⟩ := List.pairwise_cons.mp h.distinct
  refine ⟨hr, fun x hx => hL _ (h.rows x (List.mem_cons_of_mem _ hx)),
    fun x hx => h.pending x (List.mem_cons_of_mem _ hx),
    fun x hx d => ?_, fun x hx hq d => ?_, hd', fun m x hx => ?_⟩
  · rw [applyAll_append, hu.outbox _ _ (hd x hx).1]
    exact h.outbox x (List.mem_cons_of_mem _ hx) d
  · rw [applyAll_append, hu.commands _ _ fun hq' => (hd x hx).2 hq' hq]
    exact h.commands x (List.mem_cons_of_mem _ hx) hq d
  · rw [hs.trace] at hx
    rcases List.mem_append.mp hx with hx | hx
    · obtain ⟨hpub, hne⟩ := h.done m x hx
      refine ⟨fun d => ?_, fun y hy => hne y (List.mem_cons_of_mem _ hy)⟩
      rw [DB.Published, applyAll_append, hu.outbox _ _ (Ne.symm (hne e (List.mem_cons_self ..)))]
      exact hpub d
    · obtain ⟨hid, hpub⟩ := hv m x hx
      exact ⟨by rw [hid]; exact hpub, fun y hy => by rw [hid]; exact (hd y hy).1⟩

theorem unpublished_lock {loaded : Option Command} {id : UUID} {new : CommandState} {source : Source} {s : St} :
    Unpublished [lockEntry loaded id new source s] := by
  simp [Unpublished, lockEntry]

theorem marks_of_unpublished {vs : List Ev} (h : Unpublished vs := by simp [Unpublished]) : Marks P e ws vs :=
  fun m x hx => absurd hx (h m x)

/-! ## Marking the event -/

def Markable (i : Nat) (s : St) (d : DB) (e : OutboxEvent) : Prop :=
  e.status = .pending ∨ e.status = .published ∨ e.status = .failed ∧
    (e.isQueued = true → d.Settled e.aggregateId ∨ Exhausted s.trace i e.id)

theorem wps_mark {α : Type} {Q : Except Err α → Wd → Prop} {f : OutboxEvent → OutboxEvent} {g : Nat → Op α}
    (h : Rdy P .batch i w L ws)
    (hv : ∀ d, (sys P).Agrees L d → ((sys P).applyAll ws d).outbox.find e.id = some e) (hs : e.Same (f e))
    (hpend : e.status = .pending)
    (hm : ∀ s, ReflTransGen (Act P) w.sh s → (sys P).Agrees L s.db → Markable i s ((sys P).applyAll ws s.db) (f e))
    (hE : ∀ w' vs x, After P i vs w w' → (w'.sess i).failed = true → Q (.error x) w')
    (hk : ∀ w', After P i [] w w' → Rdy P .batch i w' L (ws ++ [.outbox (f e)]) → wps P i (g 1) Q w') :
    wps P i ((execute [.outbox e.id] (updateOutbox e.id f)).bind g) Q w := by
  have heta : ({ f e with id := e.id } : OutboxEvent) = f e := by rw [← hs.id]
  refine wps_execute h.toHeld hE (fun w₁ x s₁ h₁ hfn => ?_) fun w₁ us s₁ hfn h₁ => ?_
  · simp [updateOutbox, hv _ h₁.agrees] at hfn
  · have h₁' : Holds P i w₁ L (ws ++ us) := h₁.mono fun p hp => List.mem_append_right _ hp
    simp only [updateOutbox, hv _ h₁'.agrees, heta] at hfn
    cases hfn
    refine hk w₁ s₁ (h.append s₁.shared h₁' fun s hg hL => ⟨.outbox (e := e) ?_ hs ?_ hpend, trivial⟩)
    · rw [hs.id]; exact hv _ hL
    · exact hm s (s₁.shared.trans hg) hL

theorem concerns_mark {e' : OutboxEvent} (hs : e.Same e') : Concerns P e [.outbox e'] := by
  refine ⟨fun d k hk => ?_, fun d k _ => rfl⟩
  simp [Write.apply, Table.find_put, hs.id, hk]

/-! ## Publishing it -/

/-- What the `try` around an event leaves: the event is marked; or it is as it
was, and if it is given up now then its last attempt has raised; or the session
has failed, or the logger will raise. -/
def Tried (P : Params) (i : Nat) (e : OutboxEvent) (es : List OutboxEvent) (r : Except Err Bool) (w : Wd) : Prop :=
  match r with
  | .ok _ => Real P w ∧ ∃ L ws, Batch P i w L ws es
  | .error _ => (w.sess i).failed = true ∨ P.loggerRaises = true ∨ Real P w ∧ ∃ L ws, Batch P i w L ws (e :: es) ∧
      (e.isQueued = true → 3 ≤ e.attemptCount → Exhausted w.sh.trace i e.id)

/-- `is_active` has answered for the owner of the event's command. -/
def Unstopped (i : Nat) (s : St) (e : OutboxEvent) : Prop :=
  e.isQueued = true → ∃ c o, s.db.commands.find e.aggregateId = some c ∧ s.db.ownerOf c.deviceId = some o ∧
    (i, Ev.stopRead (.publish e) o (some false)) ∈ s.trace

theorem Unstopped.later {s s' : St} (h : Unstopped i s e) (hl : Later s s') : Unstopped i s' e := by
  intro hq
  obtain ⟨c, o, hc, ho, ht⟩ := h hq
  obtain ⟨c', hc', hs⟩ := hl.db.command _ c hc
  exact ⟨c', o, hc', by rw [hs.deviceId]; exact hl.db.ownerOf ho, hl.trace.subset ht⟩

theorem publishable_event {s : St} (hi : Inv P s) (hf : s.db.outbox.find e.id = some e) (hp : e.status = .pending)
    (hn : ∀ m x, (i, Ev.published m (some x)) ∈ s.trace → x.id ≠ e.id) (hu : Unstopped i s e) :
    Publishable s i (some e) e.msg := by
  have hm := hi.db.message e.id e hf
  cases hmsg : e.msg with
  | lifecycle k c p => exact absurd hmsg (hm k c p)
  | _ => intro ev hev; cases hev; exact ⟨hf, hmsg, hp, hn, hu⟩

theorem Batch.committed (h : Batch P i w L ws (e :: es)) (hL : (sys P).Agrees L w.sh.db) :
    w.sh.db.outbox.find e.id = some e := by
  simpa [sys, DB.row] using hL _ (h.rows e (List.mem_cons_self ..))

theorem wps_publishReady (hr : Real P w) (h : Batch P i w L ws (e :: es)) (hu : Unstopped i w.sh e) :
    wps P i (publishReady e) (Tried P i e es) w := by
  unfold publishReady
  refine wps_publishJs h.ready.toHeld (fun w₁ s₁ h₁ => ?_) (fun w₁ s₁ h₁ => ?_) fun w₁ s₁ h₁ => ?_
  · have hb := h.since s₁ h₁
    refine publishable_event (Real.inv (After.real s₁ hr)) (hb.committed h₁.agrees)
      (h.pending e (List.mem_cons_self ..))
      (fun m x hx => ?_) (hu.later (After.later s₁))
    exact (hb.done m x (mem_own.mpr hx)).2 e (List.mem_cons_self ..)
  · refine .inr (.inr ⟨After.real s₁ hr, L, ws, h.since s₁ h₁, fun hq ha => ⟨e, rfl, hq, ha, .inl ?_⟩⟩)
    rw [← mem_own, s₁.trace]; simp
  · unfold markPublished
    simp only [Prog.bind_eq, Prog.pure_eq, Prog.bind_assoc, Prog.ret_bind]
    refine wps_now h₁ fun w₂ s₂ h₂ => ?_
    refine wps_mark (h.ready.since (s₁.shared.trans s₂.shared) h₂) (fun d hd => h.find hd) ⟨rfl, rfl, rfl, rfl, rfl⟩
      (h.pending e (List.mem_cons_self ..)) (fun s _ _ => .inr (.inl rfl))
      (fun w' vs x _ hf => .inl hf) fun w₃ s₃ h₃ => ?_
    refine ⟨After.real s₃ (After.real s₂ (After.real s₁ hr)), L, _,
      h.next (s₁.trans (s₂.then s₃)) h₃ (fun _ hp => hp)
      (concerns_mark ⟨rfl, rfl, rfl, rfl, rfl⟩) fun m x hx => ?_⟩
    simp only [List.append_nil, List.mem_singleton, Ev.published.injEq, Option.some.injEq] at hx
    rw [hx.2]
    refine ⟨rfl, fun d => ?_⟩
    simp [DB.Published, applyAll_append, Write.apply, Table.find_put]

theorem wps_giveUp {vs : List Ev} (h₀ : Batch P i w' L ws (e :: es))
    (hs₀ : After P i vs w' w) (hvs : Unpublished vs) (hr : Real P w) (h : Rdy P .batch i w L' (ws ++ us))
    (hL : ∀ p ∈ L, p ∈ L') (hu : Concerns P e us)
    (hv : ∀ d, ((sys P).applyAll us d).outbox.find e.id = d.outbox.find e.id)
    (hset : ∀ d, (sys P).Agrees L' d → ((sys P).applyAll (ws ++ us) d).Settled e.aggregateId) :
    wps P i ((markFailed e.id).bind fun _ => .ret false) (Tried P i e es) w := by
  unfold markFailed
  simp only [Prog.bind_eq, Prog.pure_eq, Prog.bind_assoc, Prog.ret_bind]
  have hs : e.Same { e with status := .failed } := ⟨rfl, rfl, rfl, rfl, rfl⟩
  refine wps_mark (f := fun e => { e with status := .failed }) h (fun d hd => ?_) hs
    (h₀.pending e (List.mem_cons_self ..)) (fun s _ hd => .inr (.inr ⟨rfl, fun _ => .inl (hset s.db hd)⟩))
    (fun w' vs x _ hf => .inl hf) fun w₁ s₁ h₁ => ?_
  · rw [applyAll_append, hv]
    exact h₀.find fun p hp => hd p (hL p hp)
  · refine ⟨After.real s₁ hr, L', ws ++ (us ++ [.outbox { e with status := .failed }]),
      h₀.next (hs₀.trans s₁) ?_ hL ?_ (marks_of_unpublished (by simpa using hvs))⟩
    · rw [← List.append_assoc]; exact h₁
    · have hc := concerns_mark (P := P) hs
      refine ⟨fun d k hk => ?_, fun d k hk => ?_⟩
      · rw [applyAll_append, hc.outbox _ k hk, hu.outbox _ k hk]
      · rw [applyAll_append, hc.commands _ k hk, hu.commands _ k hk]

theorem settled_congr {d d' : DB} {id : UUID} (h : d'.commands.find id = d.commands.find id) (hs : d.Settled id) :
    d'.Settled id := by
  obtain ⟨c, hc, hst⟩ := hs
  exact ⟨c, by rw [h]; exact hc, hst⟩

/-- The emergency-stop branch leaves no queued command with a failed event. The
instance it decides on may be old; but a command that had left `QUEUED` when it
was loaded has left it for good. -/
theorem wps_enforceStop {command : Command} (hr : Real P w)
    (h : Batch P i w L ws (e :: es)) (hq : e.isQueued = true)
    (hcid : command.id = e.aggregateId) (hex : ∃ c, w.sh.db.commands.find e.aggregateId = some c)
    (hstale : command.state ≠ .queued → w.sh.db.Settled e.aggregateId) :
    wps P i ((enforceStop P e command).bind fun _ => .ret false) (Tried P i e es) w := by
  have hview := h.commands e (List.mem_cons_self ..) hq
  unfold enforceStop
  simp only [Prog.bind_eq, Prog.bind_assoc]
  rw [hcid]
  refine wps_tryTransition h.ready.toHeld (by simp [hcid]) (fun w₁ vs x s₁ hf => ?_) (fun w₁ _ s₁ h₁ hf => ?_)
    (fun w₁ row s₁ h₁ hf hacc => ?_) (fun w₁ _ row s₁ h₁ hf hacc hne hval => ?_)
    fun w₁ row u n s₁ hf hacc hval h₁ => ?_
  · -- the session has failed: so does the mark
    by_cases hlog : P.loggerRaises = true
    · simp only [logKeywords, hlog, if_true]; exact .inr (.inl hlog)
    · simp only [logKeywords, hlog]
      refine wp_dead (Φ := fun r => ∃ x, r = .error x) (fun r w₂ hr hf => ?_) ⟨.db, rfl⟩ hf
      obtain ⟨x, rfl⟩ := hr
      exact .inl hf
  · obtain ⟨c, hc⟩ := hex
    obtain ⟨c', hc', -⟩ := (After.later s₁).db.command _ c hc
    rw [hview, hc'] at hf; cases hf
  · have hset : w₁.sh.db.Settled e.aggregateId := by
      refine (After.later s₁).db.settled _ (hstale fun hst => ?_)
      rw [Option.getD_some, hst, queued_accepts] at hacc; cases hacc
    have hb := h.since s₁ (h₁.mono fun p hp => List.mem_cons_of_mem _ hp) unpublished_lock
    by_cases hlog : P.loggerRaises = true
    · simp only [logKeywords, hlog, if_true]; exact .inr (.inl hlog)
    · simp only [logKeywords, hlog]
      have hrdy := hb.ready.mono (fun p hp => List.mem_cons_of_mem _ hp) h₁
      rw [← List.append_nil ws] at hrdy
      refine wps_giveUp hb (.refl ..) (by simp [Unpublished]) (After.real s₁ hr) hrdy
        (fun p hp => List.mem_cons_of_mem _ hp)
        ⟨fun _ _ _ => rfl, fun _ _ _ => rfl⟩ (fun _ => rfl) fun d hd => ?_
      · have he : d.row (.command e.aggregateId) = w₁.sh.db.row (.command e.aggregateId) :=
          hd _ (List.mem_cons_self ..)
        simp only [DB.row, Row.command.injEq] at he
        rw [List.append_nil]
        exact settled_congr ((hview d).trans he) hset
  · intro hold
    have hb := h.ready.since s₁.shared (h₁.mono fun p hp => List.mem_cons_of_mem _ hp)
    simp only [Option.getD_some] at hold hacc
    rw [hold] at hacc
    rw [validated_of_accepts hacc (Rdy.live hb (After.real s₁ hr) hf).2 (by decide)] at hval
    cases hval
  · have hrow : row.id = e.aggregateId := by simpa using Table.key_of_find hf
    have hs := command.flushed_same .blockedByEmergencyStop u n none row
    have hs₁ := s₁
    simp only [Option.getD_some] at hacc hval h₁ ⊢
    have hrdy : Rdy P .batch i w₁ ((.command e.aggregateId, w₁.sh.db.row (.command e.aggregateId)) :: L)
        (ws ++ transitionWrites command row .blockedByEmergencyStop u n .outboxEnforcement none) := by
      have hcom := (hview w₁.sh.db).symm.trans hf
      rw [← hcid] at s₁ hf h₁ hcom ⊢
      exact Rdy.transition h.ready s₁.shared hf (LockedAt.of_after s₁ ⟨row, hcom, rfl⟩ hacc) h₁ trivial
        (hval.imp_right fun hv => ⟨rfl, hv⟩) (by simp)
    have hset : (command.flushed .blockedByEmergencyStop u n none row).state ≠ .awaitingApproval ∧
        (command.flushed .blockedByEmergencyStop u n none row).state ≠ .queued := by
      by_cases hst : command.state = .blockedByEmergencyStop
      · obtain ⟨c, hc, hset⟩ := (After.later s₁).db.settled _ (hstale (by rw [hst]; decide))
        rw [hview, hc] at hf; cases hf
        simpa [Command.flushed, hst] using hset
      · simp [Command.flushed, hst]
    refine wps_giveUp h hs₁ unpublished_lock (After.real s₁ hr) hrdy (fun p hp => List.mem_cons_of_mem _ hp)
      ⟨fun _ _ _ => rfl, fun d k hk => ?_⟩ (fun _ => rfl) fun d hd => ⟨_, ?_, hset⟩
    · simp [transitionWrites, Write.apply, Table.find_put, hs.id, hrow, hk hq]
    · simp [transitionWrites, applyAll_append, Write.apply, Table.find_put, hs.id, hrow]

theorem wps_publishEvent (hr : Real P w) (h : Batch P i w L ws (e :: es)) :
    wps P i (publishEvent P e) (Tried P i e es) w := by
  unfold publishEvent
  split
  case isFalse hq => exact wps_publishReady hr h fun hq' => absurd hq' hq
  case isTrue hq =>
  have hview := h.commands e (List.mem_cons_self ..) hq
  refine wps_select h.ready.toHeld (fun w₁ _ hf => .inl hf) fun w₁ s₁ h₁ => ?_
  have hb₁ := h.since s₁ h₁
  rw [hview]
  have hi := Real.inv (After.real s₁ hr)
  obtain ⟨command, hc, hawait⟩ := hi.db.event e.aggregateId e.id ⟨e, hb₁.committed h₁.agrees, hq, rfl⟩
  obtain ⟨o, ho⟩ := hi.db.device _ command hc
  rw [hc]
  refine wps_select h₁ (fun w₂ _ hf => .inl hf) fun w₂ s₂ h₂ => ?_
  have hb₂ := hb₁.since s₂ h₂
  have hr₂ := After.real s₂ (After.real s₁ hr)
  obtain ⟨device, hd, rfl⟩ := Option.map_eq_some_iff.mp
    ((Rdy.later hb₂.ready).ownerOf ((After.later s₂).db.ownerOf ho))
  rw [hd]
  refine wps_isActive hr₂ h₂ (fun w₃ vs x hvs s₃ h₃ => ?_) (fun w₃ vs s₃ hvs h₃ => ?_) fun w₃ s₃ h₃ => ?_
  · have hvs' : Unpublished vs := by rcases hvs with rfl | rfl | rfl <;> simp [Unpublished]
    refine .inr (.inr ⟨After.real s₃ hr₂, L, ws, hb₂.since s₃ h₃ hvs', fun _ ha =>
      ⟨e, rfl, hq, ha, .inr ⟨device.ownerId, ?_⟩⟩⟩)
    rw [← mem_own, ← mem_own, s₃.trace]
    rcases hvs with rfl | rfl | rfl <;> simp
  · have hl := After.later (s₂.then s₃)
    have hvs : Unpublished vs := by rcases hvs with rfl | rfl <;> simp [Unpublished]
    refine wps_enforceStop (After.real s₃ hr₂) (hb₂.since s₃ h₃ hvs) hq (by simpa using Table.key_of_find hc) ?_
      fun hst => hl.db.settled _ ⟨command, hc, hawait, hst⟩
    obtain ⟨c, hc', -⟩ := hl.db.command _ command hc
    exact ⟨c, hc'⟩
  · refine wps_publishReady (After.real s₃ hr₂) (hb₂.since s₃ h₃) fun _ => ?_
    have hl := After.later (s₂.then s₃)
    obtain ⟨c, hc', hs⟩ := hl.db.command _ command hc
    refine ⟨c, device.ownerId, hc', by rw [hs.deviceId]; exact hl.db.ownerOf ho, ?_⟩
    rw [← mem_own, s₃.trace]; simp

/-! ## The loop -/

theorem wps_retryEvent {α : Type} {f : Nat → Op α} {x : Err} (h : Tried P i e es (.error x) w)
    (hk : ∀ w' L' ws' n, Real P w' → Batch P i w' L' ws' es → wps P i (f n) (Done P i) w') :
    wps P i ((retryEvent P e).bind f) (Done P i) w := by
  have hs : ∀ st n, e.Same { e with status := st, attemptCount := n } := fun _ _ => ⟨rfl, rfl, rfl, rfl, rfl⟩
  unfold retryEvent logKeywords
  simp only [Prog.bind_eq, Prog.pure_eq, Prog.bind_assoc]
  by_cases hlog : P.loggerRaises = true
  · rw [if_pos hlog]; exact done_error
  rw [if_neg hlog]
  by_cases hn : 3 ≤ e.attemptCount
  · simp only [if_pos hn, markFailed, Prog.bind_eq, Prog.pure_eq, Prog.bind_assoc, Prog.ret_bind]
    rcases h with hf | hl | ⟨hr, L, ws, hb, hex⟩
    · exact wps_dead trivial hf
    · exact absurd hl hlog
    refine wps_mark (f := fun e => { e with status := .failed }) hb.ready (fun d hd => hb.find hd) (hs _ _)
      (hb.pending e (List.mem_cons_self ..)) (fun s hg _ => .inr (.inr ⟨rfl, fun hq => .inr ?_⟩))
      (fun _ _ _ _ _ => done_error) fun w₁ s₁ h₁ => ?_
    · obtain ⟨e', hid, hq', hn', hm⟩ := hex hq hn
      have hsub := (acts_later hg).trace.subset
      exact ⟨e', hid, hq', hn', hm.imp (fun h => hsub h) fun ⟨o, h⟩ => ⟨o, h.imp (fun h => hsub h) fun h => hsub h⟩⟩
    · exact hk w₁ L _ 0 (After.real s₁ hr) (hb.next s₁ h₁ (fun _ hp => hp)
        (concerns_mark (hs _ _)) marks_of_unpublished)
  · simp only [if_neg hn, incrementAttempt, Prog.bind_eq, Prog.pure_eq, Prog.bind_assoc, Prog.ret_bind]
    rcases h with hf | hl | ⟨hr, L, ws, hb, -⟩
    · exact wps_dead trivial hf
    · exact absurd hl hlog
    refine wps_mark (f := fun e => { e with attemptCount := e.attemptCount + 1, status := .pending }) hb.ready
      (fun d hd => hb.find hd) (hs _ _) (hb.pending e (List.mem_cons_self ..)) (fun _ _ _ => .inl rfl)
      (fun _ _ _ _ _ => done_error) fun w₁ s₁ h₁ => ?_
    exact hk w₁ L _ 0 (After.real s₁ hr) (hb.next s₁ h₁ (fun _ hp => hp)
      (concerns_mark (hs _ _)) marks_of_unpublished)

theorem wps_processEvent {α : Type} {f : Nat → Op α} (hr : Real P w) (h : Batch P i w L ws (e :: es))
    (hk : ∀ w' L' ws' n, Real P w' → Batch P i w' L' ws' es → wps P i (f n) (Done P i) w') :
    wps P i ((processEvent P e).bind f) (Done P i) w := by
  unfold processEvent
  simp only [Prog.bind_eq, Prog.bind_assoc]
  refine wp_bind (wp_attempt (wp_mono (fun r w₁ h₁ => ?_) (wps_publishEvent hr h)))
  cases r with
  | ok b =>
    obtain ⟨hr₁, L₁, ws₁, hb⟩ := h₁
    exact hk w₁ L₁ ws₁ b.toNat hr₁ hb
  | error x => exact wps_retryEvent h₁ hk

theorem wps_processEvents {α : Type} : ∀ {es : List OutboxEvent} {f : Nat → Op α} {w : Wd} {L : List (Key × Row)}
    {ws : List Write}, Real P w → Batch P i w L ws es →
    (∀ w' L' ws' n, Batch P i w' L' ws' [] → wps P i (f n) (Done P i) w') →
    wps P i ((processEvents P es).bind f) (Done P i) w
  | [], f, w, L, ws, _, h, hk => hk w L ws 0 h
  | e :: es, f, w, L, ws, hr, h, hk => by
    unfold processEvents
    simp only [Prog.bind_eq, Prog.pure_eq, Prog.bind_assoc, Prog.ret_bind]
    refine wps_processEvent hr h fun w₁ L₁ ws₁ m hr₁ hb => ?_
    exact wps_processEvents hr₁ hb fun w₂ L₂ ws₂ n h₂ => hk w₂ L₂ ws₂ (m + n) h₂

/-- The events of a batch are different, and so are their commands. -/
theorem batch_distinct {d : DB} {n : UUID → Nat} (hi : DBInv d n) {rows : List OutboxEvent}
    (hs : rows.Sublist d.outbox.rows) : rows.Pairwise fun e e' =>
      e.id ≠ e'.id ∧ (e.isQueued = true → e'.isQueued = true → e.aggregateId ≠ e'.aggregateId) := by
  have hmem : ∀ e ∈ rows, d.outbox.find e.id = some e := fun e he => Table.find_of_mem (hs.subset he)
  have hnd : rows.Pairwise fun e e' => e.id ≠ e'.id := by
    have := (d.outbox.nodup).sublist (hs.map key)
    rwa [List.Nodup, List.pairwise_map] at this
  refine hnd.imp_of_mem fun {e e'} he he' hne => ⟨hne, fun hq hq' ha => hne ?_⟩
  exact hi.unique e.aggregateId e.id e'.id ⟨e, hmem e he, hq, rfl⟩ ⟨e', hmem e' he', hq', ha.symm⟩

theorem refines_processBatch (hr : Real P w) (h : Holds P i w [] []) (ht : own i w.sh.trace = []) :
    wps P i (processBatch P) (fun _ w' => Holds P i w' [] []) w := by
  refine wps_withSession ?_
  unfold getUnpublished
  simp only [Prog.bind_eq, Prog.bind_assoc]
  refine wps_now h fun w₁ s₁ h₁ => ?_
  refine wp_skipLocked h₁ (fun _ _ _ => done_error) fun w₂ rows s₂ h₂ hsub hl => ?_
  have hr₂ := After.real (s₁.then s₂) hr
  have hpend : ∀ e ∈ rows, e.status = .pending := fun e he => by
    have := (List.mem_filter.mp (hsub.subset he)).2
    simp only [Bool.and_eq_true, beq_iff_eq] at this
    exact this.1
  have hown : own i w₂.sh.trace = [] := by rw [(s₁.then s₂).trace, ht]; rfl
  have hsub : rows.Sublist w₂.sh.db.outbox.rows := hsub.trans List.filter_sublist
  split
  · exact done_ok h₂
  · -- every event of the batch is locked
    have hheld : Holds P i w₂ (rows.map fun e => (Key.outbox e.id, Row.outbox (some e))) [] := by
      refine ⟨h₂.sess, fun p hp => ?_, fun p hp => ?_⟩
      · obtain ⟨e, he, rfl⟩ := List.mem_map.mp hp
        exact hl e he
      · obtain ⟨e, he, rfl⟩ := List.mem_map.mp hp
        have hf : w₂.sh.db.outbox.find e.id = some e := Table.find_of_mem (hsub.subset he)
        simp [sys, DB.row, hf]
    refine wps_processEvents hr₂ ⟨hheld.ready, fun e he => List.mem_map_of_mem he, hpend, fun _ _ _ => rfl,
      fun _ _ _ _ => rfl, batch_distinct (Real.inv hr₂).db hsub, by simp [hown]⟩ fun w₃ L₃ ws₃ n h₃ => ?_
    refine wps_commitChain h₃.ready (fun _ _ _ _ _ => done_error) (fun w' s' h' m e he => ?_)
      fun w₄ _ h₄ => done_ok h₄
    exact ((h₃.since s' h').done m e (mem_own.mpr he)).1 _

end

end Veyaan
