import Veyaan.Lib.Runs
import Veyaan.Refine.Sound
import Veyaan.Schedule

/-!
# What the gateway sends, and what it acknowledges

A ready message can outlive the state it was made in. What protects the device
is the check right before the send, together with the fact that a command that
has left `QUEUED` never comes back. What loses a command is the same check: a
query that fails reads as a refusal, and the message is acknowledged.
-/

open Relation (ReflTransGen)

namespace Veyaan

open Sys

abbrev IsRun (P : Params) (r : Nat → Conf) (n : Nat) : Prop := (sys P).IsRun Init r n

/-- The pre-delivery check reports the row and the clock of the moment. -/
theorem entry_preDelivery {P : Params} {w : Wd} {id dev : UUID} {row : Option Command} {t : Time} {ok : Bool}
    (h : (sys P).Entry w (.preDelivery id dev row t ok)) : row = w.sh.db.commands.find id ∧ t = w.sh.ext.clock := by
  rcases h with ⟨l, ok', hl⟩ | ⟨e, he⟩ | ⟨β, e, ch, he⟩
  · cases l <;> cases hl
    exact ⟨rfl, rfl⟩
  · cases he
  · cases e <;> cases ch <;> simp [sys, Eff.handle] at he

section
variable {P : Params} {s s' : St} {r : Nat → Conf} {n : Nat}

theorem Sendable.later {i : Nat} {conn : DeviceConnection} {id : UUID}
    (h : Sendable s i conn id) (hl : Later s s') :
    Sendable s' i conn id := by
  obtain ⟨q, row, t, hq, hs, hrow⟩ := h
  obtain ⟨u, hu⟩ := hl.trace
  refine ⟨q, row, t, hq, hs.trans ?_, hrow⟩
  rw [← hu, own_append]
  exact List.sublist_append_left ..

def SendsChecked (s : St) : Prop := ∀ i conn m, (i, Ev.sent conn m) ∈ s.trace →
  (i, Ev.stopRead .deliver conn.ownerId (some false)) ∈ s.trace ∧ Sendable s i conn m.commandId

theorem reach_sendsChecked (h : Reach (Act P) Init s) : SendsChecked s := by
  refine reach_induct (I := SendsChecked) (fun _ _ _ _ _ _ hm => by cases hm) (fun s s' _ hi ha i conn m hm => ?_) h
  have hl := ha.later
  rcases ha.entry hm with hm | hm | ⟨_, _, hv, -⟩ | ⟨_, hv, -⟩
  · exact ⟨hl.trace.subset (hi i conn m hm).1, (hi i conn m hm).2.later hl⟩
  · exact ⟨hl.trace.subset hm.2.1, hm.2.2.later hl⟩
  · cases hv
  · cases hv

def givenUp : List CommandState := [.cancelled, .expired, .rejected, .failed, .blockedByEmergencyStop]

/-- **Delivery precondition.** A command that is sent on a connection at step
`n` belonged to the device, was queued and was not overdue at some moment `b`
between the fetch of its message and the send; and if it was ever given up,
that was after the fetch. -/
theorem delivery_precondition (h : IsRun P r (n + 1)) {i : Nat} {conn : DeviceConnection}
    {m : CommandRequestMessage}
    (hold : (i, Ev.sent conn m) ∉ (r n).world.sh.trace) (hnew : (i, Ev.sent conn m) ∈ (r (n + 1)).world.sh.trace) :
    ∃ q : ReadyPayload, q.commandId = m.commandId ∧
      (∃ b ≤ n, ∃ row, (i, Ev.fetched conn (.commandReady conn.deviceId q)) ∈ (r b).world.sh.trace ∧
        (r b).world.sh.db.commands.find m.commandId = some row ∧
        row.deviceId = conn.deviceId ∧ row.state = .queued ∧
        ∀ e, row.expiresAt = some e → ¬ e < (r b).world.sh.ext.clock) ∧
      ∀ a ≤ n + 1, ∀ row, (r a).world.sh.db.commands.find m.commandId = some row → row.state ∈ givenUp →
        (i, Ev.fetched conn (.commandReady conn.deviceId q)) ∈ (r a).world.sh.trace := by
  obtain ⟨-, q, row, t, hq, hs, hdev, hst, htime⟩ :=
    reach_sendsChecked (reachable_real (h.reachable (Nat.le_refl _))) i conn m hnew
  -- the step itself only adds the send
  have hs : [Ev.fetched conn (.commandReady conn.deviceId q),
      .preDelivery m.commandId conn.deviceId (some row) t true].Sublist (own i (r n).world.sh.trace) := by
    rcases step_entry handle_one (h.step n (Nat.lt_succ_self n)) with ht | ⟨j, v, ht, -⟩
    · rw [ht] at hnew; exact absurd hnew hold
    · rw [ht] at hnew hs
      rcases List.mem_append.mp hnew with hm | hm
      · exact absurd hm hold
      · cases List.mem_singleton.mp hm
        rw [own_append, own_self] at hs
        exact sublist_of_concat_ne (l := [_]) hs (by simp)
  obtain ⟨b, hb, hf, he⟩ := (h.mono (Nat.le_succ n)).pair handle_one hs
  obtain ⟨hrow, hclock⟩ := entry_preDelivery he
  refine ⟨q, hq, ⟨b, Nat.le_of_lt hb, row, hf, hrow.symm, hdev, hst, by rw [← hclock]; exact htime⟩,
    fun a ha x hx hgive => ?_⟩
  -- at `b` it was still queued, so it was given up after `b`
  rcases Nat.lt_or_ge b a with hlt | hge
  · exact (runs_later (h.reachable (by omega)) (h.runs (Nat.le_of_lt hlt) ha)).trace.subset hf
  · have hset : (r a).world.sh.db.Settled m.commandId :=
      ⟨x, hx, by rintro he; rw [he] at hgive; simp [givenUp] at hgive,
        by rintro he; rw [he] at hgive; simp [givenUp] at hgive⟩
    obtain ⟨y, hy, -, hne⟩ := (runs_later (h.reachable ha) (h.runs hge (by omega))).db.settled _ hset
    rw [← hrow] at hy
    cases hy
    exact absurd hst hne

end

def hasSent (i : Nat) (c : Conf) : Bool := c.world.sh.trace.any fun p =>
  match p.2 with
  | .sent .. => p.1 == i
  | _ => false

theorem exists_sent {i : Nat} {c : Conf} (h : hasSent i c = true) :
    ∃ conn m, (i, Ev.sent conn m) ∈ c.world.sh.trace := by
  obtain ⟨⟨j, v⟩, hm, hv⟩ := List.any_eq_true.mp h
  cases v with
  | sent conn m =>
    have hj : j = i := by simpa using hv
    exact ⟨conn, m, hj ▸ hm⟩
  | _ => cases hv

theorem not_sent {i : Nat} {c : Conf} (h : hasSent i c = false) (conn : DeviceConnection)
    (m : CommandRequestMessage) :
    (i, Ev.sent conn m) ∉ c.world.sh.trace := fun hm => by
  have : hasSent i c = true := List.any_eq_true.mpr ⟨_, hm, by simp⟩
  rw [h] at this; cases this

/-- A ping is delivered. -/
theorem delivery_precondition_ping : ∃ r n conn m, IsRun demo r (n + 1) ∧
    (2, Ev.sent conn m) ∈ (r (n + 1)).world.sh.trace ∧
    ∃ b ≤ n, ∃ row, (r b).world.sh.db.commands.find m.commandId = some row ∧ row.deviceId = conn.deviceId ∧
      row.state = .queued := by
  obtain ⟨c, hr, hc⟩ := played (P := demo) (c := demoStart) (t := publishedRun ++ .other (.listen 0 0) :: steps 2 6)
    (φ := fun c => !hasSent 2 c && (turn (moves demo) c (.run 2 true)).any (hasSent 2)) (by decide +kernel)
  simp only [Bool.and_eq_true, Bool.not_eq_true'] at hc
  obtain ⟨c', hturn, hsent⟩ := (Option.any_eq_true _ _).mp hc.2
  obtain ⟨conn, m, hm⟩ := exists_sent hsent
  obtain ⟨r, n, hrun, rfl⟩ := (Reachable.runs demo_reachable hr).exists_run
  obtain ⟨r', hrun', hn, rfl⟩ := hrun.extend (turn_step _ hturn)
  have hold : (2, Ev.sent conn m) ∉ (r' n).world.sh.trace := by rw [hn]; exact not_sent hc.1 conn m
  obtain ⟨q, -, ⟨b, hb, row, -, hrow, hdev, hst, -⟩, -⟩ := delivery_precondition hrun' hold hm
  exact ⟨r', n, conn, m, hrun', hm, b, hb, row, hrow, hdev, hst⟩

/-! ## Acknowledgements -/

def Delivered (conn : DeviceConnection) (p : ReadyPayload) (t : List Ev) : Prop :=
  (∃ m, m.commandId = p.commandId ∧ .sent conn m ∈ t) ∧ .published (deliveredMsg conn p.commandId) none ∈ t

/-- What is promised of a round of the listener, of whose events `t` this is
the end: it has acknowledged the message only if the command was delivered or
its row, when it was queried, was not deliverable; in every other case it has
answered with a negative acknowledgement. -/
def NothingDropped (conn : DeviceConnection) (p : ReadyPayload) (now : Time) (t : List Ev) : Prop :=
  (.acked (.commandReady conn.deviceId p) ∈ t → Delivered conn p t ∨
    ∃ row u ok, .preDelivery p.commandId conn.deviceId row u ok ∈ t ∧ Undeliverable row conn.deviceId now) ∧
  (.acked (.commandReady conn.deviceId p) ∉ t → .nacked (.commandReady conn.deviceId p) ∈ t)

/-- The query of `_pre_delivery_check` failed on a row that it would have let pass. -/
def CheckFailed (conn : DeviceConnection) (p : ReadyPayload) (now : Time) (t : List Ev) : Prop :=
  ∃ row u, .preDelivery p.commandId conn.deviceId row u false ∈ t ∧ ¬ Undeliverable row conn.deviceId now

theorem Round.mem {conn : DeviceConnection} {p : ReadyPayload} {t rest : List Ev} {v : Ev} (h : Round conn p t rest)
    (hf : ∀ c m, v ≠ .fetched c m) (hs : ∀ site o b, v ≠ .stopRead site o b)
    (hc : ∀ site o, v ≠ .cacheFailed site o) :
    v ∈ t ↔ v ∈ rest := by
  obtain ⟨s, rfl, hall⟩ := h.split
  refine ⟨fun hv => ?_, fun hv => List.mem_append_right _ hv⟩
  rcases List.mem_append.mp hv with hv | hv
  · rcases List.mem_cons.mp hv with rfl | hv
    · exact absurd rfl (hf _ _)
    · rcases hall v hv with ⟨b, rfl⟩ | rfl
      · exact absurd rfl (hs _ _ _)
      · exact absurd rfl (hc _ _)
  · exact hv

theorem Listened.nothingDropped {conn : DeviceConnection} {p : ReadyPayload} {now : Time} {t : List Ev}
    (h : Listened conn p now t) : NothingDropped conn p now t ↔ ¬ CheckFailed conn p now t := by
  unfold NothingDropped CheckFailed Delivered
  cases h with
  | stopped => simp
  | @refused row u ok hok =>
    cases ok with
    | true => simp [hok rfl]
    | false => simp
  | invalid => simp
  | sendFailed => simp
  | publishFailed => simp
  | @delivered row u x hx => simp [hx]

/-- **What the listener drops.** A round keeps its promise exactly when the query
of its pre-delivery check has not failed on a deliverable command. -/
theorem nothing_dropped_iff {P : Params} {c : Conf} (h : Reachable P c) {i : Nat} {conn : DeviceConnection}
    {p : ReadyPayload} {q : Op Unit} (hp : c.procs[i]? = some ⟨.listen conn p, q⟩)
    (hq : q = .ret () ∨ ∃ e, q = .throw e) :
    NothingDropped conn p c.world.sh.ext.clock (own i c.world.sh.trace) ↔
      ¬ CheckFailed conn p c.world.sh.ext.clock (own i c.world.sh.trace) := by
  obtain ⟨rest, hr, hl⟩ := reachable_round h hp hq
  have key := hl.nothingDropped
  unfold NothingDropped CheckFailed Delivered at key ⊢
  have hmem : ∀ v : Ev, (∀ c m, v ≠ .fetched c m) → (∀ site o b, v ≠ .stopRead site o b) →
      (∀ site o, v ≠ .cacheFailed site o) → (v ∈ own i c.world.sh.trace ↔ v ∈ rest) := fun v => hr.mem
  have hacked := hmem (.acked (.commandReady conn.deviceId p)) (by simp) (by simp) (by simp)
  have hnacked := hmem (.nacked (.commandReady conn.deviceId p)) (by simp) (by simp) (by simp)
  have hpub := hmem (.published (deliveredMsg conn p.commandId) none) (by simp) (by simp) (by simp)
  have hsent := fun m => hmem (.sent conn m) (by simp) (by simp) (by simp)
  have hpre := fun row u ok => hmem (.preDelivery p.commandId conn.deviceId row u ok) (by simp) (by simp) (by simp)
  simpa only [hacked, hnacked, hpub, hsent, hpre] using key

def roundEnded (i : Nat) (φ : DeviceConnection → ReadyPayload → Time → List Ev → Bool) (c : Conf) : Bool :=
  match c.procs[i]? with
  | some ⟨.listen conn p, .ret ()⟩ => φ conn p c.world.sh.ext.clock (own i c.world.sh.trace)
  | _ => false

theorem exists_round {i : Nat} {φ : DeviceConnection → ReadyPayload → Time → List Ev → Bool} {c : Conf}
    (h : roundEnded i φ c = true) : ∃ conn p, c.procs[i]? = some ⟨.listen conn p, .ret ()⟩ ∧
      φ conn p c.world.sh.ext.clock (own i c.world.sh.trace) = true := by
  unfold roundEnded at h
  split at h
  · rename_i conn p hp; exact ⟨conn, p, hp, h⟩
  · cases h

/-- The ready message of a ping is delivered to its device. -/
theorem nothing_dropped_ping : ∃ c conn p, Reachable demo c ∧ c.procs[2]? = some ⟨.listen conn p, .ret ()⟩ ∧
    NothingDropped conn p c.world.sh.ext.clock (own 2 c.world.sh.trace) := by
  obtain ⟨c, hr, hc⟩ := played (P := demo) (c := demoStart) (t := publishedRun ++ .other (.listen 0 0) :: steps 2 9)
    (φ := roundEnded 2 fun _ _ _ t => t.all fun
      | .preDelivery _ _ _ _ ok => ok
      | _ => true) (by decide +kernel)
  obtain ⟨conn, p, hp, hall⟩ := exists_round hc
  refine ⟨c, conn, p, Reachable.runs demo_reachable hr, hp,
    (nothing_dropped_iff (Reachable.runs demo_reachable hr) hp (.inl rfl)).mpr ?_⟩
  rintro ⟨row, u, hm, -⟩
  have := List.all_eq_true.mp hall _ hm
  cases this

/-- The query of the pre-delivery check fails once, and the message of a command
that waits for its delivery is acknowledged. -/
theorem ready_message_dropped : ∃ c conn p, Reachable demo c ∧ c.procs[2]? = some ⟨.listen conn p, .ret ()⟩ ∧
    ¬ NothingDropped conn p c.world.sh.ext.clock (own 2 c.world.sh.trace) := by
  obtain ⟨c, hr, hc⟩ := played (P := demo) (c := demoStart)
    (t := publishedRun ++ .other (.listen 0 0) :: steps 2 3 ++ .run 2 false :: steps 2 1)
    (φ := roundEnded 2 fun conn _ now t => t.all fun
      | .sent .. => false
      | .nacked .. => false
      | .preDelivery _ _ row _ _ => row.any fun row =>
        row.deviceId == conn.deviceId && row.state == .queued && row.expiresAt.all (now ≤ ·)
      | _ => true) (by decide +kernel)
  obtain ⟨conn, p, hp, hall⟩ := exists_round hc
  have hall := List.all_eq_true.mp hall
  refine ⟨c, conn, p, Reachable.runs demo_reachable hr, hp, fun ⟨hdrop, hnack⟩ => ?_⟩
  by_cases hacked : .acked (.commandReady conn.deviceId p) ∈ own 2 c.world.sh.trace
  · rcases hdrop hacked with ⟨⟨m, -, hs⟩, -⟩ | ⟨row, u, ok, hpre, hun⟩
    · have := hall _ hs
      cases this
    · obtain ⟨row, rfl, hrow⟩ := (Option.any_eq_true _ _).mp (hall _ hpre)
      simp only [Bool.and_eq_true, beq_iff_eq] at hrow
      rcases hun row rfl with hd | hq | ⟨e, he, hlt⟩
      · exact hd hrow.1.1
      · exact hq hrow.1.2
      · rw [he] at hrow
        exact absurd hlt (Nat.not_lt.mpr (by simpa using hrow.2))
  · have := hall _ (hnack hacked)
    cases this

end Veyaan
