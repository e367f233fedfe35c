import Veyaan.Protocol

/-!
# What the protocol keeps

First what no step takes back (`Later`): rows keep their identity, the trace
and the stream grow, and a command that is settled stays so. Then the
invariants of the tables (`DBInv`) and of the shared state (`Inv`), proved for
one write, for one transaction and for one step.
-/

open Relation (ReflTransGen)

namespace Veyaan

/-! ## Moves of a command -/

def started : List CommandState :=
  [.queued, .delivered, .acknowledged, .running, .succeeded, .failed, .timedOut, .blockedByEmergencyStop]

theorem Lifecycle.target_mem (k : Lifecycle) (p : LifecyclePayload) :
    k.target p ∈ [CommandState.delivered, .acknowledged, .running, .succeeded, .failed] := by
  cases k with
  | delivered => simp [Lifecycle.target]
  | acknowledged => simp only [Lifecycle.target]; split <;> decide
  | progress => simp [Lifecycle.target]
  | result => simp only [Lifecycle.target]; split <;> decide

theorem Tag.Moves.mem {t : Tag} {id : UUID} {new : CommandState} (h : t.Moves id new) :
    new ∈ [CommandState.delivered, .acknowledged, .running, .succeeded, .failed, .cancelled, .rejected, .expired,
      .blockedByEmergencyStop] := by
  cases t with
  | cancel c => rw [h.2]; decide
  | decide d => rw [h.2.2]; decide
  | activate o => rw [show new = .blockedByEmergencyStop from h]; decide
  | batch => rw [show new = .blockedByEmergencyStop from h]; decide
  | expire => rw [show new = .expired from h]; decide
  | handle k p =>
    rw [show new = k.target p from h]
    exact List.mem_append_left [.cancelled, .rejected, .expired, .blockedByEmergencyStop] (k.target_mem p)
  | _ => exact h.elim

theorem validate_started {s t : CommandState} (h : validateCommandStateTransition s t = true)
    (ht : t ∈ started) (hq : t ≠ .queued) : s ∈ started := by
  cases s <;> cases t <;> simp_all [validateCommandStateTransition, started]

theorem Tag.Moves.ne {t : Tag} {id : UUID} {new : CommandState} (h : t.Moves id new) :
    new ≠ .received ∧ new ≠ .validated ∧ new ≠ .approved ∧ new ≠ .awaitingApproval ∧ new ≠ .queued := by
  have := h.mem
  cases new <;> simp_all

/-! ## What no step takes back -/

structure DB.Later (d d' : DB) : Prop where
  device : ∀ id r, d.devices.find id = some r → ∃ r', d'.devices.find id = some r' ∧ r.Same r'
  command : ∀ id c, d.commands.find id = some c → ∃ c', d'.commands.find id = some c' ∧ c.Same c'
  settled : ∀ id, d.Settled id → d'.Settled id
  outbox : ∀ id e, d.outbox.find id = some e → ∃ e', d'.outbox.find id = some e' ∧ e.Same e'
  approval : ∀ id a, d.approvals.find id = some a → ∃ a', d'.approvals.find id = some a' ∧ a.Same a'

theorem OutboxEvent.Same.refl (e : OutboxEvent) : e.Same e := ⟨rfl, rfl, rfl, rfl, rfl⟩

theorem OutboxEvent.Same.trans {a b c : OutboxEvent} (h : a.Same b) (h' : b.Same c) : a.Same c :=
  ⟨h'.id.trans h.id, h'.aggregateType.trans h.aggregateType, h'.aggregateId.trans h.aggregateId,
    h'.eventType.trans h.eventType, h'.msg.trans h.msg⟩

theorem OutboxEvent.Same.isQueued {e e' : OutboxEvent} (h : e.Same e') : e'.isQueued = e.isQueued := by
  unfold OutboxEvent.isQueued; rw [h.aggregateType, h.eventType]

theorem Approval.Same.refl (a : Approval) : a.Same a := ⟨rfl, rfl, rfl, rfl, rfl⟩

theorem Approval.Same.trans {a b c : Approval} (h : a.Same b) (h' : b.Same c) : a.Same c :=
  ⟨h'.id.trans h.id, h'.commandId.trans h.commandId, h'.ownerId.trans h.ownerId,
    h'.decisionNonceHash.trans h.decisionNonceHash, h'.expiresAt.trans h.expiresAt⟩

theorem Device.Same.refl (r : Device) : r.Same r := ⟨rfl, rfl, fun h => h⟩

theorem Device.Same.trans {a b c : Device} (h : a.Same b) (h' : b.Same c) : a.Same c :=
  ⟨h'.ownerId.trans h.ownerId, h'.info.trans h.info, fun hr => h'.revoked (h.revoked hr)⟩

theorem DB.Later.refl (d : DB) : d.Later d :=
  ⟨fun _ r h => ⟨r, h, .refl r⟩, fun _ c h => ⟨c, h, .refl c⟩, fun _ h => h, fun _ e h => ⟨e, h, .refl e⟩,
    fun _ a h => ⟨a, h, .refl a⟩⟩

theorem DB.Later.trans {a b c : DB} (h : a.Later b) (h' : b.Later c) : a.Later c where
  device := Table.find_trans .trans h.device h'.device
  command := Table.find_trans .trans h.command h'.command
  settled id hx := h'.settled id (h.settled id hx)
  outbox := Table.find_trans .trans h.outbox h'.outbox
  approval := Table.find_trans .trans h.approval h'.approval

/-- A device keeps its owner. -/
theorem DB.Later.ownerOf {d d' : DB} (h : d.Later d') {id o : UUID} (ho : d.ownerOf id = some o) :
    d'.ownerOf id = some o := by
  obtain ⟨r, hr, rfl⟩ := Option.map_eq_some_iff.mp ho
  obtain ⟨r', hr', he⟩ := h.device id r hr
  simp [DB.ownerOf, hr', he.ownerId]

/-- A flush as a step of the row it writes: the row keeps its state, or moves. -/
theorem Tag.Moves.flushed {t : Tag} {l c : Command} {new : CommandState} {u n : Time} {m : Option Metadata} {d : DB}
    (hf : d.commands.find l.id = some c)
    (hm : l.state = new ∨ t.Moves l.id new ∧ validateCommandStateTransition c.state new = true) :
    (l.flushed new u n m c).id = l.id ∧ ((l.flushed new u n m c).state = c.state ∨
      t.Moves l.id (l.flushed new u n m c).state ∧
        validateCommandStateTransition c.state (l.flushed new u n m c).state = true) := by
  have hc : c.id = l.id := by simpa using Table.key_of_find hf
  refine ⟨(l.flushed_same new u n m c).id.trans hc, ?_⟩
  by_cases hn : l.state = new
  · exact .inl (by simp [Command.flushed, hn])
  · refine .inr ?_
    simpa [Command.flushed, hn] using hm.resolve_left hn

theorem Write.Allowed.later {i : Nat} {t : Tag} {s : St} {d : DB} {w : Write} (h : w.Allowed i t s d) :
    d.Later (w.apply d) := by
  have hd := DB.Later.refl d
  cases h with
  | @command l c new u n m _ hf _ _ hm =>
    have hs := l.flushed_same new u n m c
    obtain ⟨hid, hm⟩ := Tag.Moves.flushed (u := u) (n := n) (m := m) hf hm
    rw [← hid] at hf
    generalize l.flushed new u n m c = c' at hf hs hm hid
    refine ⟨hd.device, fun id x hx => ?_, fun id hx => ?_, hd.outbox, hd.approval⟩
    · exact Table.put_related Command.Same.refl
        (fun a ha => by rw [key_command, hf] at ha; cases ha; exact hs) id x hx
    · obtain ⟨x, hx, ha, hq⟩ := hx
      by_cases hid : c'.id = id
      · subst hid
        rw [hf] at hx; cases hx
        refine ⟨c', by simp [Write.apply, Table.find_put], ?_⟩
        rcases hm with hm | hm
        · rw [hm]; exact ⟨ha, hq⟩
        · exact ⟨hm.1.ne.2.2.2.1, hm.1.ne.2.2.2.2⟩
      · exact ⟨x, by simp [Write.apply, Table.find_put, hid, hx], ha, hq⟩
  | task => exact ⟨hd.device, hd.command, hd.settled, hd.outbox, hd.approval⟩
  | event => exact ⟨hd.device, hd.command, hd.settled, hd.outbox, hd.approval⟩
  | @approval a a' hf hs =>
    refine ⟨hd.device, hd.command, hd.settled, hd.outbox, fun id x hx => ?_⟩
    exact Table.put_related Approval.Same.refl
      (fun b hb => by rw [key_approval, hf] at hb; cases hb; exact hs) id x hx
  | stop => exact ⟨hd.device, hd.command, hd.settled, hd.outbox, hd.approval⟩
  | @notice e hf =>
    refine ⟨hd.device, hd.command, hd.settled, fun id x hx => ?_, hd.approval⟩
    exact Table.put_related OutboxEvent.Same.refl (fun b hb => by rw [key_outbox, hf] at hb; cases hb) id x hx
  | @outbox e e' hf hs =>
    refine ⟨hd.device, hd.command, hd.settled, fun id x hx => ?_, hd.approval⟩
    exact Table.put_related OutboxEvent.Same.refl
      (fun b hb => by rw [key_outbox, hf] at hb; cases hb; exact hs) id x hx
  | @device r r' hf ho =>
    refine ⟨fun id x hx => ?_, hd.command, hd.settled, hd.outbox, hd.approval⟩
    exact Table.put_related Device.Same.refl (fun b hb => by rw [key_device, hf] at hb; cases hb; exact ho) id x hx
  | @newDevice r a hf =>
    refine ⟨fun id x hx => ?_, hd.command, hd.settled, hd.outbox, hd.approval⟩
    exact Table.put_related Device.Same.refl (fun b hb => by rw [key_device, hf] at hb; cases hb) id x hx
  | credential => exact ⟨hd.device, hd.command, hd.settled, hd.outbox, hd.approval⟩
  | newCredential => exact ⟨hd.device, hd.command, hd.settled, hd.outbox, hd.approval⟩
  | newPairing => exact ⟨hd.device, hd.command, hd.settled, hd.outbox, hd.approval⟩
  | pairing => exact ⟨hd.device, hd.command, hd.settled, hd.outbox, hd.approval⟩
  | audit => exact ⟨hd.device, hd.command, hd.settled, hd.outbox, hd.approval⟩

theorem Tx.later {P : Params} {s : St} {i : Nat} {t : Tag} {d : DB} (h : Tx P s i t d) : s.db.Later d := by
  have hd := DB.Later.refl s.db
  cases h with
  | @create _ q c r o h =>
    refine ⟨by rw [h.devices]; exact hd.device, fun id x hx => ?_, fun id hx => ?_,
      fun id x hx => ?_, fun id x hx => ?_⟩
    · rw [h.commands]
      exact Table.put_related Command.Same.refl (fun a ha => by rw [key_command, h.new] at ha; cases ha) id x hx
    · obtain ⟨x, hx, hne⟩ := hx
      have hid : c.id ≠ id := by rintro rfl; rw [h.new] at hx; cases hx
      exact ⟨x, by rw [h.commands, Table.find_put_ne _ hid]; exact hx, hne⟩
    · rcases h.form with ⟨-, -, ho, -⟩ | ⟨-, -, -, e, hn, -, -, -, -, ho⟩
      · rw [ho]; exact hd.outbox id x hx
      · rw [ho]
        exact Table.put_related OutboxEvent.Same.refl (fun a ha => by rw [key_outbox, hn] at ha; cases ha) id x hx
    · rcases h.form with ⟨-, -, -, a, hn, -, -, -, ha⟩ | ⟨-, -, ha, -⟩
      · rw [ha]
        exact Table.put_related Approval.Same.refl (fun a ha => by rw [key_approval, hn] at ha; cases ha) id x hx
      · rw [ha]; exact hd.approval id x hx
  | @approve x _ c c' e a a' _ h =>
    have hc : c.id = x.read.commandId := by simpa using Table.key_of_find h.find
    have ha : a.id = x.approvalId := by simpa using Table.key_of_find h.approval
    refine ⟨by rw [h.devices]; exact hd.device, fun id y hy => ?_, fun id hy => ?_,
      fun id y hy => ?_, fun id y hy => ?_⟩
    · rw [h.commands]
      refine Table.put_related Command.Same.refl (fun z hz => ?_) id y hy
      rw [key_command, h.same.id, hc, h.find] at hz
      cases hz; exact h.same
    · obtain ⟨y, hy, hne⟩ := hy
      have hid : c'.id ≠ id := by
        rintro rfl
        rw [h.same.id, hc, h.find] at hy
        cases hy; exact hne.1 h.awaiting
      exact ⟨y, by rw [h.commands, Table.find_put_ne _ hid]; exact hy, hne⟩
    · rw [h.outbox]
      exact Table.put_related OutboxEvent.Same.refl (fun z hz => by rw [key_outbox, h.new] at hz; cases hz) id y hy
    · rw [h.approvals]
      refine Table.put_related Approval.Same.refl (fun z hz => ?_) id y hy
      rw [key_approval, h.sameApproval.id, ha, h.approval] at hz
      cases hz; exact h.sameApproval
  | chain hc _ => exact hc.keeps (fun d w hw hl => hl.trans hw.later) hd

structure Later (s s' : St) : Prop where
  db : s.db.Later s'.db
  trace : s.trace <+: s'.trace
  stream : ∀ m ∈ s.ext.stream, m ∈ s'.ext.stream
  conns : ∀ c ∈ s.ext.conns, c ∈ s'.ext.conns
  clock : s.ext.clock ≤ s'.ext.clock

theorem Later.refl (s : St) : Later s s :=
  ⟨.refl _, List.prefix_rfl, fun _ h => h, fun _ h => h, Nat.le_refl _⟩

theorem Later.trans {a b c : St} (h : Later a b) (h' : Later b c) : Later a c :=
  ⟨h.db.trans h'.db, h.trace.trans h'.trace, fun m hm => h'.stream m (h.stream m hm),
    fun m hm => h'.conns m (h.conns m hm), Nat.le_trans h.clock h'.clock⟩

theorem Act.later {P : Params} {s s' : St} (h : Act P s s') : Later s s' := by
  have hs := Later.refl s
  cases h with
  | env h =>
    cases h with
    | clock hc => exact ⟨hs.db, hs.trace, hs.stream, hs.conns, hc⟩
    | connect => exact ⟨hs.db, hs.trace, hs.stream, fun c hc => List.mem_append_left _ hc, hs.clock⟩
    | _ => exact ⟨hs.db, hs.trace, hs.stream, hs.conns, hs.clock⟩
  | cache => exact ⟨hs.db, hs.trace, hs.stream, hs.conns, hs.clock⟩
  | presence => exact ⟨hs.db, hs.trace, hs.stream, hs.conns, hs.clock⟩
  | say => exact ⟨hs.db, List.prefix_append .., hs.stream, hs.conns, hs.clock⟩
  | publish => exact ⟨hs.db, List.prefix_append .., fun m hm => List.mem_append_left _ hm, hs.conns, hs.clock⟩
  | commit h => exact ⟨h.later, List.prefix_append .., hs.stream, hs.conns, hs.clock⟩

theorem acts_later {P : Params} {s s' : St} (h : ReflTransGen (Act P) s s') : Later s s' := by
  induction h with
  | refl => exact .refl s
  | tail _ h ih => exact ih.trans h.later

/-! ## Invariants of the tables -/

def granted (commandId : UUID) : Nat × Ev → Bool
  | (_, .committed (.decide d)) => d.approve && d.read.commandId == commandId
  | _ => false

/-- The tables are consistent; `n id` is how often an approval of the command
`id` has been granted. -/
structure DBInv (d : DB) (n : UUID → Nat) : Prop where
  device : ∀ id c, d.commands.find id = some c → ∃ o, d.ownerOf c.deviceId = some o
  task : ∀ id c, d.commands.find id = some c → ∃ r, d.tasks.find id = some r
  live : ∀ id c, d.commands.find id = some c → c.state ≠ .received ∧ c.state ≠ .validated ∧ c.state ≠ .approved
  approval : ∀ id a, d.approvals.find id = some a →
    ∃ c, d.commands.find a.commandId = some c ∧ d.ownerOf c.deviceId = some a.ownerId
  message : ∀ id e, d.outbox.find id = some e → ∀ k c p, e.msg ≠ .lifecycle k c p
  event : ∀ id k, d.QueuedEvent id k → ∃ c, d.commands.find id = some c ∧ c.state ≠ .awaitingApproval
  unique : ∀ id k k', d.QueuedEvent id k → d.QueuedEvent id k' → k = k'
  queued : ∀ id c, d.commands.find id = some c → c.state ∈ started → ∃ k, d.QueuedEvent id k
  gate : ∀ id c, d.commands.find id = some c → c.requiresApproval = true →
    (n id = 0 ∧ ∀ k, ¬ d.QueuedEvent id k) ∨ (n id = 1 ∧ ∃ k, d.QueuedEvent id k)
  known : ∀ id, n id ≠ 0 → ∃ c, d.commands.find id = some c
  dedup : ∀ e ∈ d.events, (e.eventMetadata.bind Metadata.dedupKey).isSome → d.Settled e.commandId

theorem Write.Allowed.queuedEvent {i : Nat} {t : Tag} {s : St} {d : DB} {w : Write} (h : w.Allowed i t s d)
    (id k : UUID) : (w.apply d).QueuedEvent id k ↔ d.QueuedEvent id k := by
  cases h with
  | @notice e hf hq hm =>
    simp only [Write.apply, DB.QueuedEvent, Table.find_put, key_outbox]
    by_cases hk : e.id = k
    · subst hk; simp [hf, hq]
    · simp [hk]
  | @outbox e e' hf hs hc =>
    simp only [Write.apply, DB.QueuedEvent, Table.find_put, key_outbox]
    by_cases hk : e'.id = k
    · subst hk; simp [hf, hs.isQueued, hs.aggregateId]
    · simp [hk]
  | _ => exact Iff.rfl

theorem Write.Allowed.command_find {i : Nat} {t : Tag} {s : St} {d : DB} {w : Write} (h : w.Allowed i t s d)
    {id : UUID} {c' : Command} (hc : (w.apply d).commands.find id = some c') :
    ∃ c, d.commands.find id = some c ∧ c.Same c' ∧ (c'.state = c.state ∨
      t.Moves id c'.state ∧ t.Touches id ∧ validateCommandStateTransition c.state c'.state = true) := by
  cases h with
  | @command l x new u n m _ hf _ ht hm =>
    have hs := l.flushed_same new u n m x
    obtain ⟨hlid, hm⟩ := Tag.Moves.flushed (u := u) (n := n) (m := m) hf hm
    simp only [Write.apply, Table.find_put, key_command, hlid] at hc
    by_cases hid : l.id = id
    · simp only [hid, ite_true, Option.some.injEq] at hc
      subst hc hid
      exact ⟨x, hf, hs, hm.imp_right fun hm => ⟨hm.1, ht, hm.2⟩⟩
    · simp only [hid, ite_false] at hc
      exact ⟨c', hc, .refl c', .inl rfl⟩
  | _ => exact ⟨c', hc, .refl c', .inl rfl⟩

theorem Write.Allowed.inv {i : Nat} {t : Tag} {s : St} {d : DB} {w : Write} {n : UUID → Nat}
    (h : w.Allowed i t s d) (hi : DBInv d n) : DBInv (w.apply d) n := by
  have hl := h.later
  have hq := h.queuedEvent
  constructor
  case device =>
    intro id c' hc
    obtain ⟨c, hf, hs, -⟩ := h.command_find hc
    obtain ⟨o, ho⟩ := hi.device id c hf
    exact ⟨o, by rw [hs.deviceId]; exact hl.ownerOf ho⟩
  case task =>
    intro id c' hc
    obtain ⟨c, hf, -, -⟩ := h.command_find hc
    obtain ⟨r, hr⟩ := hi.task id c hf
    cases h with
    | @task _ x hf' =>
      by_cases hid : x.commandId = id
      · exact ⟨x, by simp [Write.apply, Table.find_put, hid]⟩
      · exact ⟨r, by simp [Write.apply, Table.find_put, hid, hr]⟩
    | _ => exact ⟨r, hr⟩
  case live =>
    intro id c' hc
    obtain ⟨c, hf, -, hm | hm⟩ := h.command_find hc
    · rw [hm]; exact hi.live id c hf
    · have := hm.1.ne; exact ⟨this.1, this.2.1, this.2.2.1⟩
  case approval =>
    intro id a' ha
    have : ∃ a, d.approvals.find id = some a ∧ a.Same a' := by
      cases h with
      | @approval x x' hf hs =>
        simp only [Write.apply, Table.find_put, key_approval] at ha
        by_cases hid : x'.id = id
        · simp only [hid, ite_true, Option.some.injEq] at ha
          subst ha hid; exact ⟨x, hf, hs⟩
        · simp only [hid, ite_false] at ha; exact ⟨a', ha, .refl a'⟩
      | _ => exact ⟨a', ha, .refl a'⟩
    obtain ⟨a, hf, hs⟩ := this
    obtain ⟨c, hc, ho⟩ := hi.approval id a hf
    obtain ⟨c', hc', hcs⟩ := hl.command _ c hc
    exact ⟨c', by rw [hs.commandId]; exact hc', by rw [hcs.deviceId, hs.ownerId]; exact hl.ownerOf ho⟩
  case message =>
    intro id e' he
    cases h with
    | @notice x hf _ hm =>
      simp only [Write.apply, Table.find_put, key_outbox] at he
      split at he
      · cases he; exact hm
      · exact hi.message id e' he
    | @outbox x x' hf hs =>
      simp only [Write.apply, Table.find_put, key_outbox] at he
      split at he
      · cases he; rw [hs.msg]; exact hi.message _ x hf
      · exact hi.message id e' he
    | _ => exact hi.message id e' he
  case event =>
    intro id k hk
    obtain ⟨c, hc, ha⟩ := hi.event id k ((hq id k).mp hk)
    obtain ⟨c', hc', -⟩ := hl.command id c hc
    refine ⟨c', hc', ?_⟩
    obtain ⟨c₀, hf, -, hm | hm⟩ := h.command_find hc'
    · rw [hc] at hf; cases hf; rw [hm]; exact ha
    · exact hm.1.ne.2.2.2.1
  case unique => intro id k k' hk hk'; exact hi.unique id k k' ((hq id k).mp hk) ((hq id k').mp hk')
  case queued =>
    intro id c' hc hst
    obtain ⟨c, hf, -, hm⟩ := h.command_find hc
    have : c.state ∈ started := by
      rcases hm with hm | hm
      · rw [← hm]; exact hst
      · exact validate_started hm.2.2 hst hm.1.ne.2.2.2.2
    obtain ⟨k, hk⟩ := hi.queued id c hf this
    exact ⟨k, (hq id k).mpr hk⟩
  case gate =>
    intro id c' hc hr
    obtain ⟨c, hf, hs, -⟩ := h.command_find hc
    simp only [hq]
    exact hi.gate id c hf (by rw [← hs.requiresApproval]; exact hr)
  case known =>
    intro id hn
    obtain ⟨c, hc⟩ := hi.known id hn
    obtain ⟨c', hc', -⟩ := hl.command id c hc
    exact ⟨c', hc'⟩
  case dedup =>
    intro e he hd
    cases h with
    | @event l new source m _ _ hx =>
      simp only [Write.apply, List.mem_append, List.mem_singleton] at he
      rcases he with he | rfl
      · exact hi.dedup e he hd
      · exact hx hd
    | _ => exact hl.settled _ (hi.dedup e he hd)

theorem queuedEvent_put {d d' : DB} {e : OutboxEvent} (hn : d.outbox.find e.id = none) (hq : e.isQueued = true)
    (ho : d'.outbox = d.outbox.put e) (id k : UUID) :
    d'.QueuedEvent id k ↔ d.QueuedEvent id k ∨ (k = e.id ∧ id = e.aggregateId) := by
  simp only [DB.QueuedEvent, ho, Table.find_put, key_outbox]
  by_cases hk : e.id = k
  · subst hk
    simp only [ite_true, Option.some.injEq, exists_eq_left', hq, true_and, hn, reduceCtorEq, false_and,
      exists_false, false_or, true_and, eq_comm]
  · simp [hk, Ne.symm hk]

theorem Created.inv {s : St} {i : Nat} {d : DB} {q : CreateCommandRequest} {c : Command} {r : Task} {o : UUID}
    {n : UUID → Nat} (h : Created s i d q c r o) (hl : s.db.Later d) (hi : DBInv s.db n) : DBInv d n := by
  have hfind : ∀ id x, d.commands.find id = some x → (id = c.id ∧ x = c) ∨
      (id ≠ c.id ∧ s.db.commands.find id = some x) := by
    intro id x hx
    rw [h.commands, Table.find_put, key_command] at hx
    by_cases hid : c.id = id
    · simp only [hid, ite_true, Option.some.injEq] at hx; exact .inl ⟨hid.symm, hx.symm⟩
    · simp only [hid, ite_false] at hx; exact .inr ⟨Ne.symm hid, hx⟩
  have hself : d.commands.find c.id = some c := by rw [h.commands, Table.find_put]; simp
  have hold : ∀ k, ¬ s.db.QueuedEvent c.id k := by
    intro k hk
    obtain ⟨x, hx, -⟩ := hi.event _ k hk
    rw [h.new] at hx; cases hx
  have hn0 : n c.id = 0 := by
    refine Classical.byContradiction fun hn => ?_
    obtain ⟨x, hx⟩ := hi.known _ hn
    rw [h.new] at hx; cases hx
  -- the events of the other commands are as before, and the new one has none or one
  have hev : (∀ id k, id ≠ c.id → (d.QueuedEvent id k ↔ s.db.QueuedEvent id k)) ∧
      ((c.requiresApproval = true ∧ c.state = .awaitingApproval ∧ ∀ k, ¬ d.QueuedEvent c.id k) ∨
        (c.requiresApproval = false ∧ c.state = .queued ∧ ∃ k, ∀ k', d.QueuedEvent c.id k' ↔ k' = k)) := by
    rcases h.form with ⟨hr, hst, ho, -⟩ | ⟨hr, hst, -, e, hn, hq, ha, -, -, ho⟩
    · have : ∀ id k, d.QueuedEvent id k ↔ s.db.QueuedEvent id k := fun id k => by simp only [DB.QueuedEvent, ho]
      exact ⟨fun id k _ => this id k, .inl ⟨hr, hst, fun k hk => hold k ((this _ k).mp hk)⟩⟩
    · have := queuedEvent_put hn hq ho
      refine ⟨fun id k hid => ?_, .inr ⟨hr, hst, e.id, fun k => ?_⟩⟩
      · rw [this, ha]; simp [hid]
      · rw [this, ha]; simp [hold]
  obtain ⟨hev, hform⟩ := hev
  constructor
  case device =>
    intro id x hx
    rcases hfind id x hx with ⟨-, rfl⟩ | ⟨-, hx⟩
    · exact ⟨o, hl.ownerOf h.owner⟩
    · obtain ⟨o, ho⟩ := hi.device id x hx
      exact ⟨o, hl.ownerOf ho⟩
  case task =>
    intro id x hx
    rcases hfind id x hx with ⟨rfl, -⟩ | ⟨hid, hx⟩
    · exact ⟨r, by rw [h.tasks, ← h.task]; exact Table.find_put_self ..⟩
    · obtain ⟨y, hy⟩ := hi.task id x hx
      exact ⟨y, by rw [h.tasks, Table.find_put_ne _ (by rw [key_task, h.task]; exact Ne.symm hid)]; exact hy⟩
  case live =>
    intro id x hx
    rcases hfind id x hx with ⟨-, rfl⟩ | ⟨-, hx⟩
    · rcases hform with ⟨-, hst, -⟩ | ⟨-, hst, -⟩ <;> rw [hst] <;> decide
    · exact hi.live id x hx
  case approval =>
    intro id a ha
    have hkeep : s.db.approvals.find id = some a →
        ∃ c, d.commands.find a.commandId = some c ∧ d.ownerOf c.deviceId = some a.ownerId := by
      intro ha
      obtain ⟨x, hx, ho⟩ := hi.approval id a ha
      obtain ⟨y, hy, hs⟩ := hl.command _ x hx
      exact ⟨y, hy, by rw [hs.deviceId]; exact hl.ownerOf ho⟩
    rcases h.form with ⟨-, -, -, b, -, hb, hbo, -, hput⟩ | ⟨-, -, hput, -⟩
    · rw [hput, Table.find_put] at ha
      split at ha
      · cases ha
        exact ⟨c, by rw [hb]; exact hself, by rw [hbo]; exact hl.ownerOf h.owner⟩
      · exact hkeep ha
    · rw [hput] at ha; exact hkeep ha
  case message =>
    intro id e he
    rcases h.form with ⟨-, -, ho, -⟩ | ⟨-, -, -, x, -, -, -, -, hm, ho⟩
    · rw [ho] at he; exact hi.message id e he
    · rw [ho, Table.find_put] at he
      split at he
      · cases he; rw [hm]; intro k c p hmsg; cases hmsg
      · exact hi.message id e he
  case event =>
    intro id k hk
    by_cases hid : id = c.id
    · subst hid
      rcases hform with ⟨-, -, hno⟩ | ⟨-, hst, -⟩
      · exact (hno k hk).elim
      · exact ⟨c, hself, by rw [hst]; decide⟩
    · obtain ⟨x, hx, ha⟩ := hi.event id k ((hev id k hid).mp hk)
      exact ⟨x, by rw [h.commands, Table.find_put_ne _ (Ne.symm hid)]; exact hx, ha⟩
  case unique =>
    intro id k k' hk hk'
    by_cases hid : id = c.id
    · subst hid
      rcases hform with ⟨-, -, hno⟩ | ⟨-, -, k₀, hall⟩
      · exact (hno k hk).elim
      · rw [(hall k).mp hk, (hall k').mp hk']
    · exact hi.unique id k k' ((hev id k hid).mp hk) ((hev id k' hid).mp hk')
  case queued =>
    intro id x hx hst
    rcases hfind id x hx with ⟨rfl, rfl⟩ | ⟨hid, hx⟩
    · rcases hform with ⟨-, ha, -⟩ | ⟨-, -, k₀, hall⟩
      · rw [ha] at hst; exact absurd hst (by decide)
      · exact ⟨k₀, (hall k₀).mpr rfl⟩
    · obtain ⟨k, hk⟩ := hi.queued id x hx hst
      exact ⟨k, (hev id k hid).mpr hk⟩
  case gate =>
    intro id x hx hr
    rcases hfind id x hx with ⟨rfl, rfl⟩ | ⟨hid, hx⟩
    · rcases hform with ⟨-, -, hno⟩ | ⟨hr', -⟩
      · exact .inl ⟨hn0, hno⟩
      · rw [hr'] at hr; cases hr
    · have := hi.gate id x hx hr
      simpa only [hev id _ hid] using this
  case known =>
    intro id hn
    obtain ⟨x, hx⟩ := hi.known id hn
    obtain ⟨y, hy, -⟩ := hl.command id x hx
    exact ⟨y, hy⟩
  case dedup =>
    intro e he hd
    rw [h.events] at he
    rcases List.mem_append.mp he with he | he
    · exact hl.settled _ (hi.dedup e he hd)
    · rw [(createdEvents_own e he).2] at hd; cases hd

theorem Approved.inv {P : Params} {s : St} {i : Nat} {x : Decision} {d : DB} {c c' : Command} {e : OutboxEvent}
    {a a' : Approval} {n : UUID → Nat} (h : Approved P s i x d c c' e a a') (hl : s.db.Later d)
    (hi : DBInv s.db n) : DBInv d (fun id => if id = x.read.commandId then n id + 1 else n id) := by
  have hc : c.id = x.read.commandId := by simpa using Table.key_of_find h.find
  have hfind : ∀ id y, d.commands.find id = some y →
      (id = c.id ∧ y = c') ∨ (id ≠ c.id ∧ s.db.commands.find id = some y) := by
    intro id y hy
    rw [h.commands, Table.find_put, key_command, h.same.id] at hy
    by_cases hid : c.id = id
    · simp only [hid, ite_true, Option.some.injEq] at hy; exact .inl ⟨hid.symm, hy.symm⟩
    · simp only [hid, ite_false] at hy; exact .inr ⟨Ne.symm hid, hy⟩
  have hself : d.commands.find c.id = some c' := by
    rw [h.commands, Table.find_put, key_command, h.same.id]; simp
  have hfc : s.db.commands.find c.id = some c := by rw [hc]; exact h.find
  have hold : ∀ k, ¬ s.db.QueuedEvent c.id k := by
    intro k hk
    obtain ⟨y, hy, ha⟩ := hi.event _ k hk
    rw [hfc] at hy; cases hy; exact ha h.awaiting
  have hput := queuedEvent_put h.new h.isQueued h.outbox
  rw [h.aggregateId] at hput
  have hev : ∀ id k, id ≠ c.id → (d.QueuedEvent id k ↔ s.db.QueuedEvent id k) := by
    intro id k hid; rw [hput]; simp [hid]
  have hone : ∀ k, d.QueuedEvent c.id k ↔ k = e.id := by intro k; rw [hput]; simp [hold]
  constructor
  case device =>
    intro id y hy
    rcases hfind id y hy with ⟨-, rfl⟩ | ⟨-, hy⟩
    · exact ⟨x.ownerId, by rw [h.same.deviceId]; exact hl.ownerOf h.owner⟩
    · obtain ⟨o, ho⟩ := hi.device id y hy
      exact ⟨o, hl.ownerOf ho⟩
  case task =>
    intro id y hy
    rw [h.tasks]
    rcases hfind id y hy with ⟨rfl, -⟩ | ⟨-, hy⟩
    · exact hi.task _ c hfc
    · exact hi.task id y hy
  case live =>
    intro id y hy
    rcases hfind id y hy with ⟨-, rfl⟩ | ⟨-, hy⟩
    · rw [h.queued]; decide
    · exact hi.live id y hy
  case approval =>
    intro id b hb
    have : ∃ b₀, s.db.approvals.find id = some b₀ ∧ b₀.Same b := by
      rw [h.approvals, Table.find_put, key_approval] at hb
      split at hb
      · rename_i hid
        cases hb
        have ha : a.id = x.approvalId := by simpa using Table.key_of_find h.approval
        rw [h.sameApproval.id, ha] at hid
        exact ⟨a, by rw [← hid]; exact h.approval, h.sameApproval⟩
      · exact ⟨b, hb, .refl b⟩
    obtain ⟨b₀, hb₀, hs⟩ := this
    obtain ⟨y, hy, ho⟩ := hi.approval id b₀ hb₀
    obtain ⟨z, hz, hzs⟩ := hl.command _ y hy
    exact ⟨z, by rw [hs.commandId]; exact hz, by rw [hzs.deviceId, hs.ownerId]; exact hl.ownerOf ho⟩
  case message =>
    intro id v hv
    rw [h.outbox, Table.find_put] at hv
    split at hv
    · cases hv; rw [h.msg]; intro k c p hmsg; cases hmsg
    · exact hi.message id v hv
  case event =>
    intro id k hk
    by_cases hid : id = c.id
    · subst hid; exact ⟨c', hself, by rw [h.queued]; decide⟩
    · obtain ⟨y, hy, ha⟩ := hi.event id k ((hev id k hid).mp hk)
      refine ⟨y, ?_, ha⟩
      rw [h.commands, Table.find_put_ne _ (by rw [key_command, h.same.id]; exact Ne.symm hid)]
      exact hy
  case unique =>
    intro id k k' hk hk'
    by_cases hid : id = c.id
    · subst hid; rw [(hone k).mp hk, (hone k').mp hk']
    · exact hi.unique id k k' ((hev id k hid).mp hk) ((hev id k' hid).mp hk')
  case queued =>
    intro id y hy hst
    rcases hfind id y hy with ⟨rfl, -⟩ | ⟨hid, hy⟩
    · exact ⟨e.id, (hone e.id).mpr rfl⟩
    · obtain ⟨k, hk⟩ := hi.queued id y hy hst
      exact ⟨k, (hev id k hid).mpr hk⟩
  case gate =>
    intro id y hy hr
    rcases hfind id y hy with ⟨rfl, rfl⟩ | ⟨hid, hy⟩
    · refine .inr ⟨?_, e.id, (hone e.id).mpr rfl⟩
      rcases hi.gate _ c hfc (by rw [← h.same.requiresApproval]; exact hr) with ⟨hn, -⟩ | ⟨-, k, hk⟩
      · simp only [if_pos hc, hn]
      · exact (hold k hk).elim
    · have := hi.gate id y hy hr
      simpa only [hev id _ hid, if_neg (hc ▸ hid)] using this
  case known =>
    intro id hn
    by_cases hid : id = c.id
    · subst hid; exact ⟨c', hself⟩
    · simp only [if_neg (hc ▸ hid)] at hn
      obtain ⟨y, hy⟩ := hi.known id hn
      obtain ⟨z, hz, -⟩ := hl.command id y hy
      exact ⟨z, hz⟩
  case dedup =>
    intro v hv hd
    obtain ⟨es, hes, hnone⟩ := h.events
    rw [hes] at hv
    rcases List.mem_append.mp hv with hv | hv
    · exact hl.settled _ (hi.dedup v hv hd)
    · rw [(hnone v hv).2] at hd; cases hd

/-! ## Invariants of the shared state -/

def Requested (t : List (Nat × Ev)) (c : Command) : Prop :=
  ∃ i q df, (i, Ev.committed (.create c.id q)) ∈ t ∧ commandRegistry q.commandType = some df ∧
    c.requiresApproval = (df.requiresApproval || q.requiresApproval)

structure Inv (P : Params) (s : St) : Prop where
  db : DBInv s.db fun id => s.trace.countP (granted id)
  cache : ∀ o v, s.ext.cache o = some v → ∃ t, v = .dict (some true) t
  conns : ∀ conn ∈ s.ext.conns, s.db.ownerOf conn.deviceId = some conn.ownerId
  decisions : ∀ i x, (i, Ev.committed (.decide x)) ∈ s.trace → x.approve = true → x.Valid P ∧
    ∃ c a, s.db.commands.find x.read.commandId = some c ∧ s.db.ownerOf c.deviceId = some x.ownerId ∧
      s.db.approvals.find x.approvalId = some a ∧ x.read.Same a
  requested : ∀ id c, s.db.commands.find id = some c → Requested s.trace c

theorem Init.inv {P : Params} {d : DB} {x : Ext} (h : Init d x) : Inv P ⟨d, x, []⟩ where
  db := by
    constructor <;>
      simp [h.commands, h.approvals, h.outbox, h.events, DB.QueuedEvent]
  cache o v hv := by rw [h.cache o] at hv; cases hv
  conns conn hc := by rw [h.conns] at hc; cases hc
  decisions i x hx := by cases hx
  requested id c hc := by rw [h.commands] at hc; cases hc

theorem Inv.decisions_later {P : Params} {s : St} {d : DB} (hi : Inv P s)
    (hl : s.db.Later d) {i : Nat} {x : Decision}
    (hx : (i, Ev.committed (.decide x)) ∈ s.trace) (ha : x.approve = true) : x.Valid P ∧
    ∃ c a, d.commands.find x.read.commandId = some c ∧ d.ownerOf c.deviceId = some x.ownerId ∧
      d.approvals.find x.approvalId = some a ∧ x.read.Same a := by
  obtain ⟨hv, c, a, hc, ho, hf, hs⟩ := hi.decisions i x hx ha
  obtain ⟨c', hc', hcs⟩ := hl.command _ c hc
  obtain ⟨a', hf', has⟩ := hl.approval _ a hf
  exact ⟨hv, c', a', hc', by rw [hcs.deviceId]; exact hl.ownerOf ho, hf', hs.trans has⟩

theorem countP_say {id : UUID} {s : St} {i : Nat} {v : Ev} (h : granted id (i, v) = false) :
    (s.say i [v]).trace.countP (granted id) = s.trace.countP (granted id) := by
  simp [Shared.say, h]

theorem Requested.mono {t t' : List (Nat × Ev)} {c c' : Command} (h : Requested t c) (ht : ∀ x ∈ t, x ∈ t')
    (hs : c.Same c') : Requested t' c' := by
  obtain ⟨i, q, df, hm, hdf, hr⟩ := h
  exact ⟨i, q, df, by rw [hs.id]; exact ht _ hm, hdf, hs.requiresApproval.trans hr⟩

/-- The command rows after a transaction: old ones, which have moved or not, and
the one that it has created or approved. -/
theorem Tx.command_find {P : Params} {s : St} {i : Nat} {t : Tag} {d : DB}
    (h : Tx P s i t d) {id : UUID} {c : Command} (hc : d.commands.find id = some c) :
    (∃ c₀, s.db.commands.find id = some c₀ ∧ c₀.Same c ∧
      (c.state = c₀.state ∨ c.state = .queued ∨ t.Moves id c.state ∧ t.Touches id ∧ t.Closes P s i d)) ∨
    Requested [(i, .committed t)] c ∧ (c.state = .awaitingApproval ∨ c.state = .queued) := by
  cases h with
  | @create _ q x r o h =>
    rw [h.commands, Table.find_put] at hc
    split at hc
    · cases hc
      obtain ⟨df, hdf, hr⟩ := h.request
      exact .inr ⟨⟨i, q, df, List.mem_singleton.mpr rfl, hdf, hr⟩, h.form.imp (fun h => h.2.1) fun h => h.2.1⟩
    · exact .inl ⟨c, hc, .refl c, .inl rfl⟩
  | @approve x _ y y' e a a' _ h =>
    rw [h.commands, Table.find_put] at hc
    split at hc
    · rename_i hid
      cases hc
      have hy : y.id = x.read.commandId := by simpa using Table.key_of_find h.find
      rw [key_command, h.same.id, hy] at hid
      exact .inl ⟨y, hid ▸ h.find, h.same, .inr (.inl h.queued)⟩
    · exact .inl ⟨c, hc, .refl c, .inl rfl⟩
  | chain hch hcl =>
    have hkeep := hch.keeps (I := fun d => ∀ c, d.commands.find id = some c →
      ∃ c₀, s.db.commands.find id = some c₀ ∧ c₀.Same c ∧
          (c.state = c₀.state ∨ t.Moves id c.state ∧ t.Touches id)) (by
        intro d w hw hd c hc
        obtain ⟨c₁, hc₁, hs, hm⟩ := hw.command_find hc
        obtain ⟨c₀, hc₀, hs₀, hm₀⟩ := hd c₁ hc₁
        refine ⟨c₀, hc₀, hs₀.trans hs, ?_⟩
        rcases hm with hm | hm
        · rw [hm]; exact hm₀
        · exact .inr ⟨hm.1, hm.2.1⟩) fun c hc => ⟨c, hc, .refl c, .inl rfl⟩
    obtain ⟨c₀, hc₀, hs, hm⟩ := hkeep c hc
    exact .inl ⟨c₀, hc₀, hs, hm.imp_right fun hm => .inr ⟨hm.1, hm.2, hcl⟩⟩

theorem Tx.inv {P : Params} {s : St} {i : Nat} {t : Tag} {d : DB} (h : Tx P s i t d) (hi : Inv P s) :
    Inv P { s.say i [.committed t] with db := d } := by
  have hl := h.later
  have hconns : ∀ conn ∈ s.ext.conns, d.ownerOf conn.deviceId = some conn.ownerId := fun conn hc => by
    exact hl.ownerOf (hi.conns conn hc)
  have hold : ∀ j x, (j, Ev.committed (.decide x)) ∈ s.trace → x.approve = true → _ :=
    fun j x hx => hi.decisions_later hl hx
  have hmem : ∀ {j x}, (j, Ev.committed (.decide x)) ∈ (s.say i [.committed t]).trace →
      (j, Ev.committed (.decide x)) ∈ s.trace ∨ .decide x = t := by
    intro j x hx
    rcases List.mem_append.mp hx with hx | hx
    · exact .inl hx
    · simp only [List.map_cons, List.map_nil, List.mem_singleton, Prod.mk.injEq, Ev.committed.injEq] at hx
      exact .inr hx.2
  have hreq : ∀ id c, d.commands.find id = some c → Requested (s.say i [.committed t]).trace c := by
    intro id c hc
    rcases h.command_find hc with ⟨c₀, hc₀, hs, -⟩ | hreq
    · exact (hi.requested id c₀ hc₀).mono (fun x hx => List.mem_append_left _ hx) hs
    · exact hreq.1.mono (fun x hx => List.mem_append_right _ hx) (.refl c)
  cases h with
  | create h =>
    refine ⟨?_, hi.cache, hconns, fun j x hx ha => ?_, hreq⟩
    · simpa [Shared.say, granted] using h.inv hl hi.db
    · rcases hmem hx with hx | hx
      · exact hold j x hx ha
      · cases hx
  | @approve x _ c c' e a a' hap h =>
    refine ⟨?_, hi.cache, hconns, fun j y hy ha => ?_, hreq⟩
    · have := h.inv hl hi.db
      have hcount : (fun id => (s.say i [.committed (.decide x)]).trace.countP (granted id)) =
          fun id => if id = x.read.commandId then s.trace.countP (granted id) +
              1 else s.trace.countP (granted id) := by
        funext id
        simp only [Shared.say, List.map_cons, List.map_nil, List.countP_append, List.countP_singleton, granted, hap,
          Bool.true_and]
        by_cases hid : id = x.read.commandId
        · simp [hid]
        · simp [hid, Ne.symm hid]
      rw [hcount]
      exact this
    · rcases hmem hy with hy | hy
      · exact hold j y hy ha
      · cases hy
        obtain ⟨z, hz, hzs⟩ := hl.command _ c h.find
        obtain ⟨b, hb, hbs⟩ := hl.approval _ a h.approval
        exact ⟨h.valid, z, b, hz, by rw [hzs.deviceId]; exact hl.ownerOf h.owner, hb, h.read.trans hbs⟩
  | @chain t ws hc hcl =>
    have hnot : ∀ x, t = .decide x → x.approve = false := by rintro x rfl; exact hcl.reject
    refine ⟨?_, hi.cache, hconns, fun j x hx ha => ?_, hreq⟩
    · have hcount : (fun id => (s.say i [.committed t]).trace.countP (granted id)) =
          fun id => s.trace.countP (granted id) := by
        funext id
        refine countP_say ?_
        cases t with
        | decide x => simp [granted, hnot x rfl]
        | _ => rfl
      rw [hcount]
      exact hc.keeps (fun d w hw hd => hw.inv hd) hi.db
    · rcases hmem hx with hx | hx
      · exact hold j x hx ha
      · rw [hnot x hx.symm] at ha; cases ha

theorem Act.inv {P : Params} {s s' : St} (h : Act P s s') (hi : Inv P s) : Inv P s' := by
  cases h with
  | env h =>
    refine ⟨hi.db, ?_, ?_, hi.decisions, hi.requested⟩
    · cases h with
      | cacheExpire =>
        intro o v hv
        simp only [Ext.setCache] at hv
        split at hv
        · cases hv
        · exact hi.cache o v hv
      | _ => exact hi.cache
    · cases h with
      | @connect dev conn hf _ _ hd ho =>
        intro c hc
        rcases List.mem_append.mp hc with hc | hc
        · exact hi.conns c hc
        · rw [List.mem_singleton.mp hc, hd]
          simp [DB.ownerOf, hf, ho]
      | _ => exact hi.conns
  | @cache o t =>
    refine ⟨hi.db, fun p v hv => ?_, hi.conns, hi.decisions, hi.requested⟩
    simp only [Ext.setCache] at hv
    split at hv
    · cases hv; exact ⟨t, rfl⟩
    · exact hi.cache p v hv
  | presence => exact ⟨hi.db, hi.cache, hi.conns, hi.decisions, hi.requested⟩
  | @say i v hv =>
    have hg : ∀ id, granted id (i, v) = false := by
      intro id
      cases v with
      | committed t => exact hv.elim
      | _ => rfl
    refine ⟨?_, hi.cache, hi.conns, fun j x hx ha => ?_,
      fun id c hc => (hi.requested id c hc).mono (fun x hx => List.mem_append_left _ hx) (.refl c)⟩
    · simp only [countP_say (hg _)]; exact hi.db
    rcases List.mem_append.mp hx with hx | hx
    · exact hi.decisions j x hx ha
    · simp only [List.map_cons, List.map_nil, List.mem_singleton, Prod.mk.injEq] at hx
      rw [← hx.2] at hv
      exact hv.elim
  | @publish i m e =>
    refine ⟨?_, hi.cache, hi.conns, fun j x hx ha => ?_,
      fun id c hc => (hi.requested id c hc).mono (fun x hx => List.mem_append_left _ hx) (.refl c)⟩
    · have := hi.db
      simpa [Shared.say, granted] using this
    · rcases List.mem_append.mp hx with hx | hx
      · exact hi.decisions j x hx ha
      · simp at hx
  | commit h => exact h.inv hi

/-! ## What one step can add -/

section
variable {P : Params} {s s' : St}

/-- A new trace entry: what it says is true, or it reports a publication or a
commit that was allowed. -/
theorem Act.entry (h : Act P s s') {j : Nat} {v : Ev} (hv : (j, v) ∈ s'.trace) :
    (j, v) ∈ s.trace ∨ SayOk P s j v ∨ (∃ m e, v = .published m e ∧ Publishable s j e m) ∨
      ∃ t, v = .committed t ∧ Tx P s j t s'.db := by
  cases h with
  | env => exact .inl hv
  | cache => exact .inl hv
  | presence => exact .inl hv
  | say h =>
    rcases List.mem_append.mp hv with hv | hv
    · exact .inl hv
    · cases List.mem_singleton.mp hv; exact .inr (.inl h)
  | @publish i m e h =>
    rcases List.mem_append.mp hv with hv | hv
    · exact .inl hv
    · cases List.mem_singleton.mp hv; exact .inr (.inr (.inl ⟨m, e, rfl, h⟩))
  | @commit i t d h =>
    rcases List.mem_append.mp hv with hv | hv
    · exact .inl hv
    · cases List.mem_singleton.mp hv; exact .inr (.inr (.inr ⟨t, rfl, h⟩))

theorem Act.says_new (h : Act P s s') {j : Nat} {v : Ev} (ht : s'.trace = s.trace ++ [(j, v)]) :
    SayOk P s j v ∨ (∃ m e, v = .published m e ∧ Publishable s j e m) ∨
    ∃ t, v = .committed t ∧ Tx P s j t s'.db := by
  cases h with
  | env => simp at ht
  | cache => simp at ht
  | presence => simp at ht
  | say h => cases List.append_cancel_left ht; exact .inl h
  | @publish i m e h => cases List.append_cancel_left ht; exact .inr (.inl ⟨m, e, rfl, h⟩)
  | @commit i t d h => cases List.append_cancel_left ht; exact .inr (.inr ⟨t, rfl, h⟩)

theorem Act.message (h : Act P s s') {m : Msg} (hm : m ∈ s'.ext.stream) :
    m ∈ s.ext.stream ∨ ∃ i e, Publishable s i e m := by
  cases h with
  | env h => cases h <;> exact .inl hm
  | cache => exact .inl hm
  | presence => exact .inl hm
  | say => exact .inl hm
  | @publish i m' e h =>
    rcases List.mem_append.mp hm with hm | hm
    · exact .inl hm
    · cases List.mem_singleton.mp hm; exact .inr ⟨i, e, h⟩
  | commit => exact .inl hm

theorem Act.store (h : Act P s s') : s'.db = s.db ∨
    ∃ i t, Tx P s i t s'.db ∧ s'.trace = s.trace ++ [(i, .committed t)] ∧ s'.ext = s.ext := by
  cases h with
  | @commit i t d h => exact .inr ⟨i, t, h, rfl, rfl⟩
  | _ => exact .inl rfl

/-- Steps without a commit in the trace leave the store and the stream as they are. -/
theorem acts_quiet (h : ReflTransGen (Act P) s s') (ht : s'.trace = s.trace) :
    s'.db = s.db ∧ s'.ext.stream = s.ext.stream := by
  induction h with
  | refl => exact ⟨rfl, rfl⟩
  | @tail b c hb hs ih =>
    have hbt : b.trace = s.trace := by
      refine List.IsPrefix.eq_of_length_le ?_ (acts_later hb).trace.length_le
      rw [← ht]; exact hs.later.trace
    obtain ⟨hd, hx⟩ := ih hbt
    rw [← hd, ← hx]
    cases hs with
    | env h => cases h <;> exact ⟨rfl, rfl⟩
    | cache => exact ⟨rfl, rfl⟩
    | presence => exact ⟨rfl, rfl⟩
    | say => rw [← hbt] at ht; simp [Shared.say] at ht
    | publish => rw [← hbt] at ht; simp [Shared.say] at ht
    | commit => rw [← hbt] at ht; simp [Shared.say] at ht

/-- Steps that have added one entry to the trace: one of them has, and only that one
has changed the store. -/
theorem acts_growth {x : Nat × Ev} (h : ReflTransGen (Act P) s s') (ht : s'.trace = s.trace ++ [x]) :
    ∃ s₁ s₂, ReflTransGen (Act P) s s₁ ∧ Act P s₁ s₂ ∧ ReflTransGen (Act P) s₂ s' ∧ s₁.trace = s.trace ∧
      s₁.db = s.db ∧ s₂.trace = s'.trace ∧ s₂.db = s'.db := by
  induction h with
  | refl => simp at ht
  | @tail b c hb hs ih =>
    have hsb := (acts_later hb).trace
    by_cases hlen : b.trace.length = s.trace.length
    · have hbt : b.trace = s.trace := (hsb.eq_of_length hlen.symm).symm
      exact ⟨b, c, hb, hs, .refl, hbt, (acts_quiet hb hbt).1, rfl, rfl⟩
    · -- the entry was there before the last step
      have hbc := hs.later.trace
      have hct : c.trace = b.trace := by
        refine (hbc.eq_of_length_le ?_).symm
        have := hsb.length_le
        rw [ht, List.length_append, List.length_singleton]
        omega
      obtain ⟨s₁, s₂, h₁, ha, h₂, ht₁, hd₁, ht₂, hd₂⟩ := ih (hct ▸ ht)
      exact ⟨s₁, s₂, h₁, ha, h₂.tail hs, ht₁, hd₁, ht₂.trans hct.symm,
        hd₂.trans (acts_quiet (.single hs) hct).1.symm⟩

theorem acts_one {i : Nat} {v : Ev} (h : ReflTransGen (Act P) s s') (ht : s'.trace = s.trace ++ [(i, v)]) :
    s'.db = s.db ∨ ∃ s₁ t, v = .committed t ∧ s₁.db = s.db ∧ ReflTransGen (Act P) s s₁ ∧
      ReflTransGen (Act P) s₁ s' ∧ Tx P s₁ i t s'.db := by
  obtain ⟨s₁, s₂, h₁, ha, h₂, ht₁, hd₁, ht₂, hd₂⟩ := acts_growth h ht
  rcases ha.store with hd | ⟨j, t, htx, htr, -⟩
  · exact .inl (hd₂.symm.trans (hd.trans hd₁))
  · rw [ht₂, ht, ht₁] at htr
    cases List.append_cancel_left htr
    exact .inr ⟨s₁, t, rfl, hd₁, h₁, .head ha h₂, hd₂ ▸ htx⟩

end

/-- The invariants hold in every state that the protocol reaches. -/
theorem reach_inv {P : Params} {s : St} (h : Sys.Reach (Act P) Init s) : Inv P s := by
  obtain ⟨d, x, hi, hg⟩ := h
  induction hg with
  | refl => exact hi.inv
  | tail _ h ih => exact h.inv ih

/-- What holds initially and what every step keeps, given the invariants, holds
in every state that the protocol reaches. -/
theorem reach_induct {P : Params} {I : St → Prop} (hinit : ∀ d x, Init d x → I ⟨d, x, []⟩)
    (hstep : ∀ s s', Inv P s → I s → Act P s s' → I s') {s : St} (h : Sys.Reach (Act P) Init s) : I s := by
  obtain ⟨d, x, hi, hg⟩ := h
  induction hg with
  | refl => exact hinit d x hi
  | tail hg h ih => exact hstep _ _ (reach_inv ⟨d, x, hi, hg⟩) ih h

end Veyaan
