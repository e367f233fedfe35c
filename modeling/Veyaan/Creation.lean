import Veyaan.Constraints
import Veyaan.Serial.Steps
import Veyaan.Stops

/-!
# Creating a command

What `create_command` commits for a request that it accepts, whatever the
database was, and what it answers to a later request with the same key.
-/

open Relation (ReflTransGen)

namespace Veyaan

open Sys

/-! ## The rows of an accepted request -/

/-- What an accepted request adds to the database, with the answer `a`. -/
structure CreateCommandRequest.Accepted (P : Params) (r : CreateCommandRequest)
    (def' : CommandDefinition) (dev : Device) (a : CreateCommandResponse) (c : Command) (d d' : DB) : Prop where
  commands : d'.commands.rows = d.commands.rows ++ [c]
  command : c.id = a.commandId ∧ c.deviceId = dev.id ∧ c.commandType = r.commandType ∧ c.parameters = r.parameters ∧
    c.expiresAt = r.expiresAt ∧ c.idempotencyKey = r.idempotencyKey
  requiresApproval : c.requiresApproval = (def'.requiresApproval || r.requiresApproval)
  delayedExecutionAllowed : c.delayedExecutionAllowed = (r.delayedExecutionAllowed || def'.delayedExecutionAllowed)
  riskLevel : c.riskLevel = def'.riskLevel
  state : c.state = if c.requiresApproval then .awaitingApproval else .queued
  answer : a.state = c.state ∧ a.requiresApproval = c.requiresApproval
  tasks : d'.tasks.rows = d.tasks.rows ++ [⟨a.taskId, c.id, .pending, none, none, none⟩]
  events : d'.events = d.events ++ [⟨c.id, none, .received, .api, none⟩,
    ⟨c.id, some .received, .validated, .api, none⟩, ⟨c.id, some .validated, c.state, .api, none⟩]
  awaiting : c.requiresApproval = true → d'.outbox = d.outbox ∧ ∃ ap nonce,
    d'.approvals.rows = d.approvals.rows ++ [ap] ∧
    a.approvalId = some ap.id ∧ a.decisionNonce = some nonce ∧ ap.commandId = c.id ∧ ap.ownerId = dev.ownerId ∧
    ap.status = .pending ∧ ap.decisionNonceHash = P.sha256 nonce
  queued : c.requiresApproval = false → d'.approvals = d.approvals ∧ ∃ e, d'.outbox.rows = d.outbox.rows ++ [e] ∧
    e.eventType = .commandQueued ∧ e.aggregateType = .command ∧ e.aggregateId = c.id ∧ e.status = .pending ∧
    e.msg = .commandReady dev.id ⟨c.id, dev.id, c.commandType, c.parameters, c.expiresAt, c.riskLevel⟩
  rest : d'.users = d.users ∧ d'.devices = d.devices ∧ d'.credentials = d.credentials ∧ d'.pairings = d.pairings ∧
    d'.stops = d.stops ∧ d'.audits = d.audits

section
variable {P : Params} {d : DB} {r : CreateCommandRequest} {owner : UUID}
    {a : CreateCommandResponse} {ws : List Write}

theorem write_createRows {c : Command} {tid : UUID} {new : CommandState} {u₁ n₁ u₂ n₂ : Time}
    (hn : new = .awaitingApproval ∨ new = .queued) (hs : c.state = .received) :
    d.write (createRows c tid new u₁ n₁ u₂ n₂) = { d with
        commands := d.commands.put { c with state := new, updatedAt := u₂ }
        tasks := d.tasks.put ⟨tid, c.id, .pending, none, none, none⟩
        events := d.events ++ [⟨c.id, none, .received, .api, none⟩, ⟨c.id, some .received, .validated, .api, none⟩,
          ⟨c.id, some .validated, new, .api, none⟩] } := by
  have hmove : ∀ u n, c.transition .validated u n none = { c with state := .validated, updatedAt := u } :=
    fun _ _ => rfl
  have hmove' : ∀ (c : Command) u n, c.transition new u n none = { c with state := new, updatedAt := u } := by
    intro c u n
    rcases hn with rfl | rfl <;> rfl
  simp only [createRows, insertRows, moveRows, hmove, hmove', hs, List.cons_append, List.nil_append, DB.write_cons,
    DB.write_nil, Write.apply, List.append_assoc]
  rw [Table.put_put _ (by rfl), Table.put_put _ (by rfl)]

theorem CreatedRows.accepted (h : CreatedRows P d r owner a ws) :
    ∃ df dev c, commandRegistry r.commandType = some df ∧
    d.devices.find r.deviceId = some dev ∧ dev.ownerId = owner ∧ r.Accepted P df dev a c d (d.write ws) := by
  cases h with
  | @awaiting df c tid aid now nonce u₁ n₁ u₂ n₂ dev hdf hc hra hn _ ht hdev ho ha =>
    obtain ⟨id, t, rfl⟩ : ∃ id t, c = r.command df id t := ⟨_, _, hc⟩
    have hid : dev.id = r.deviceId := by simpa using Table.key_of_find hdev
    refine ⟨df, dev, { r.command df id t with state := .awaitingApproval, updatedAt := u₂ }, hdf, hdev, ho, ?_⟩
    rw [DB.write_append, write_createRows (.inl rfl) rfl]
    refine ⟨Table.rows_put_new hn, ⟨rfl, hid.symm, rfl, rfl, rfl, rfl⟩, rfl, rfl, rfl,
      (if_pos hra).symm, ⟨rfl, hra.symm⟩,
      Table.rows_put_new ht, rfl, fun _ => ⟨rfl, ?_⟩, fun hq => ?_, ⟨rfl, rfl, rfl, rfl, rfl, rfl⟩⟩
    · exact ⟨_, nonce, Table.rows_put_new ha, rfl, rfl, rfl, ho.symm, rfl, rfl⟩
    · cases hra.symm.trans hq
  | @queued df c tid eid now u₁ n₁ u₂ n₂ dev hdf hc hra hn _ ht hdev ho he =>
    obtain ⟨id, t, rfl⟩ : ∃ id t, c = r.command df id t := ⟨_, _, hc⟩
    have hid : dev.id = r.deviceId := by simpa using Table.key_of_find hdev
    have hno : ¬ (r.command df id t).requiresApproval = true := by rw [hra]; simp
    refine ⟨df, dev, { r.command df id t with state := .queued, updatedAt := u₂ }, hdf, hdev, ho, ?_⟩
    rw [DB.write_append, write_createRows (.inr rfl) rfl]
    refine ⟨Table.rows_put_new hn, ⟨rfl, hid.symm, rfl, rfl, rfl, rfl⟩, rfl, rfl, rfl,
      (if_neg hno).symm, ⟨rfl, hra.symm⟩,
      Table.rows_put_new ht, rfl, fun hq => (hno hq).elim, fun _ => ⟨rfl, ?_⟩, ⟨rfl, rfl, rfl, rfl, rfl, rfl⟩⟩
    exact ⟨_, Table.rows_put_new he, rfl, rfl, rfl, rfl, rfl⟩

/-- **Postcondition of `create_command`.** Whatever the database was, a request that the
call accepts has added these rows and no others. -/
theorem create_command_accepted {i : Nat} {w w' : Wd} (hw : (sys P).Matches i w d (.idle d))
    (hrun : (sys P).Alone true i (createCommand P r owner) w (.ok a) w') :
    ∃ df dev c, commandRegistry r.commandType = some df ∧
    d.devices.find r.deviceId = some dev ∧ dev.ownerId = owner ∧
      r.Accepted P df dev a c d w'.sh.db := by
  have hsolo : solo P true (fun _ => True) (createCommand P r owner) (fun x d' _ => ∀ a, x = .ok a →
      ∃ ws, CreatedRows P d r owner a ws ∧ d' = d.write ws) d (.idle d) := by
    refine solo_creates (fun _ _ hx => by cases hx) fun a ws h =>
      ⟨trivial, fun a' ha => ?_, fun _ hx => by cases hx⟩
    cases ha
    exact ⟨ws, h, rfl⟩
  obtain ⟨d', o', hm, hpost⟩ := alone_sound hw hsolo hrun
  obtain ⟨ws, hrows, hd⟩ := hpost a rfl
  rw [hm.db, hd]
  exact hrows.accepted

/-- A ping that needs an approval, and its answer. -/
theorem create_command_accepted_ping : ∃ a w',
    (sys demo).Alone true 0 (createCommand demo (ping true) 7) demoStart.world (.ok a) w' ∧
    ∃ df dev c, commandRegistry "system.ping" = some df ∧ demoDB.devices.find 1 = some dev ∧ dev.ownerId = 7 ∧
      (ping true).Accepted demo df dev a c demoDB w'.sh.db := by
  have h : ((sys demo).finish 0 (createCommand demo (ping true) 7) demoStart.world).any
      (fun x => match x.1 with | .ok _ => true | .error _ => false) = true := by decide +kernel
  obtain ⟨⟨x, w'⟩, hx, hok⟩ := (Option.any_eq_true _ _).mp h
  cases x with
  | error e => cases hok
  | ok a =>
    have hrun := (finish_alone hx).mono
    exact ⟨a, w', hrun, create_command_accepted (fresh_matches demoDB demoExt 0) hrun⟩

end

/-! ## A later request with the same key -/

/-- The answer that the key calls for: to the same request the answer it has had, to any
other one a conflict. -/
def Replays (r r' : CreateCommandRequest) (commandId taskId : UUID) (d : DB)
    (x : Except Err CreateCommandResponse) (d' : DB) : Prop :=
  (r' = r → (∃ a, x = .ok a ∧ a.commandId = commandId ∧ a.taskId = taskId) ∧
    d'.commands = d.commands ∧ d'.tasks = d.tasks ∧
    d'.events = d.events ∧ d'.approvals = d.approvals ∧ d'.outbox = d.outbox) ∧
  (r'.commandType ≠ r.commandType ∨ r'.parameters ≠ r.parameters ∨ r'.expiresAt ≠ r.expiresAt ∨
    r'.requiresApproval ≠ r.requiresApproval ∨ r'.delayedExecutionAllowed ≠ r.delayedExecutionAllowed →
      (∃ text, x = .error (.api .idempotencyConflict text 409)) ∧ d' = d)

def DB.keyed (d : DB) (r : CreateCommandRequest) (commandId : UUID) : Prop :=
  ∃ c, d.byIdempotencyKey r.deviceId r.idempotencyKey = some c ∧ c.id = commandId ∧ c.commandType = r.commandType

section
variable {P : Params} {d : DB} {r r' : CreateCommandRequest} {owner id : UUID}

theorem reach_created {s : St} (h : Reach (Act P) Init s) {i : Nat}
    (hm : (i, Ev.committed (.create id r)) ∈ s.trace) :
    ∃ c, s.db.commands.find id = some c ∧ c.deviceId = r.deviceId ∧ c.idempotencyKey = r.idempotencyKey ∧
      c.commandType = r.commandType := by
  refine reach_induct (I := fun s => ∀ i id r, (i, Ev.committed (.create id r)) ∈ s.trace →
    ∃ c, s.db.commands.find id = some c ∧
    c.deviceId = r.deviceId ∧ c.idempotencyKey = r.idempotencyKey ∧ c.commandType = r.commandType)
    (fun d x hinit => ?_) (fun s s' _ hi ha => ?_) h i id r hm
  · simp
  intro i id r hm
  rcases ha.entry hm with hm | hm | ⟨_, _, hv, -⟩ | ⟨_, hv, ht⟩
  · obtain ⟨c, hc, hdev, hkey, htype⟩ := hi i id r hm
    obtain ⟨c', hc', hs⟩ := ha.later.db.command _ c hc
    exact ⟨c', hc', hs.deviceId.trans hdev, hs.idempotencyKey.trans hkey, hs.commandType.trans htype⟩
  · exact hm.elim
  · cases hv
  · cases hv
    obtain ⟨c, _, _, rfl, hcr⟩ := ht.created
    exact ⟨c, by simp [hcr.commands, Table.find_put], hcr.device, hcr.idempotencyKey, hcr.commandType⟩

theorem reachable_keyed {c : Conf} {i : Nat} (h : Reachable P c)
    (hm : (i, Ev.committed (.create id r)) ∈ c.world.sh.trace) : c.world.sh.db.keyed r id := by
  obtain ⟨a, ha, hdev, hkey, htype⟩ := reach_created (reachable_real h) hm
  have hid : a.id = id := by simpa using Table.key_of_find ha
  cases hb : c.world.sh.db.byIdempotencyKey r.deviceId r.idempotencyKey with
  | none =>
    unfold DB.byIdempotencyKey at hb
    have := List.find?_eq_none.mp hb a (Table.mem_of_find ha)
    simp [hdev, hkey] at this
  | some b =>
    unfold DB.byIdempotencyKey at hb
    have hkeys := List.find?_some hb
    simp only [Bool.and_eq_true, beq_iff_eq] at hkeys
    have hfind := Table.find_of_mem (List.mem_of_find?_eq_some hb)
    -- the index lets no other command have the key
    have heq : id = b.id := (reachable_indexed h).1 (r.deviceId, r.idempotencyKey) id b.id
      ⟨a, ha, Prod.ext hdev hkey⟩ ⟨b, hfind, Prod.ext hkeys.1 hkeys.2⟩
    rw [show Keyed.key b = id from heq.symm, ha] at hfind
    cases hfind
    exact ⟨a, hb, hid, htype⟩

theorem differs_of_ne (hdev : r'.deviceId = r.deviceId)
    (hkey : r'.idempotencyKey = r.idempotencyKey) (hne : ¬ r' = r) :
    r'.commandType ≠ r.commandType ∨ r'.parameters ≠ r.parameters ∨ r'.expiresAt ≠ r.expiresAt ∨
      r'.requiresApproval ≠ r.requiresApproval ∨ r'.delayedExecutionAllowed ≠ r.delayedExecutionAllowed := by
  by_contra hsame
  simp only [not_or, ne_eq, Classical.not_not] at hsame
  obtain ⟨htype, hparams, hexp, hreq, hdel⟩ := hsame
  obtain ⟨dev, type, params, key, exp, del, req⟩ := r
  obtain ⟨dev', type', params', key', exp', del', req'⟩ := r'
  dsimp only at hdev hkey htype hparams hexp hreq hdel
  subst hdev hkey htype hparams hexp hreq hdel
  exact hne rfl

theorem within_replay {dev : Device} (hP : P.plainStr = false) (hk : d.keyed r id) (hdev : r'.deviceId = r.deviceId)
    (hkey : r'.idempotencyKey = r.idempotencyKey) (hfind : d.devices.find r'.deviceId = some dev)
    (ho : dev.ownerId = owner) (ht : dev.trustStatus = .trusted) (hstop : d.stopActive owner = false) :
    within P false (fun x => x.valkey = .up ∧ x.stopCached owner = false) (fun _ => True) (createCommand P r' owner)
      (fun x d' _ => d' = d ∧ x = .error (if r'.commandType = r.commandType then .attributeError
        else .api .idempotencyConflict "Idempotency key already used with a different command type" 409)) d
        (.idle d) := by
  obtain ⟨c, hc, -, htype⟩ := hk
  refine solo_withSession (solo_select rfl (by simp) ?_)
  simp only [Open.idle, hfind]
  rw [if_neg (by simp [ho])]
  refine solo_columnValue (fun h => by rw [hP] at h; cases h) fun _ => ?_
  rw [if_neg (by simp [ht])]
  refine within_isActive (fun h => by cases h) ?_ fun stopped hs => ?_
  · rintro ⟨x, hx, hv⟩
    exact absurd hx.1 hv
  have hno : stopped = false := by
    by_contra hyes
    rcases hs (by simpa using hyes) with h | ⟨x, hx, h⟩
    · rw [hstop] at h; cases h
    · rw [hx.2] at h; cases h
  subst hno
  unfold createChecked
  rw [if_neg (by simp)]
  unfold createUnstopped
  refine solo_select rfl (by simp) ?_
  have hex : (d.commands.rows.find? fun c => c.deviceId == r'.deviceId &&
      c.idempotencyKey == r'.idempotencyKey) = some c := by
    rw [hdev, hkey]; exact hc
  simp only [hex, htype]
  by_cases hty : r'.commandType = r.commandType
  · simp only [hty, ne_eq, not_true_eq_false, if_false, if_true]
    exact ⟨rfl, rfl⟩
  · simp only [ne_eq, Ne.symm hty, hty, not_false_eq_true, if_true, if_false]
    exact ⟨rfl, rfl⟩

end

section
variable {P : Params} {c : Conf} {i j : Nat} {r r' : CreateCommandRequest} {owner id : UUID}

/-- **Replay.** In every state that the system reaches, a request with the key of a command
that has been created is answered as the key calls for, whatever the task of that command,
exactly if its command type is another one. -/
theorem replays_iff {taskId : UUID} {dev : Device} {x : Except Err CreateCommandResponse} {w w' : Wd}
    (h : Reachable P c) (hr : (j, Ev.committed (.create id r)) ∈ c.world.sh.trace)
    (hw : (sys P).Matches i w c.world.sh.db (.idle c.world.sh.db))
    (hdev : r'.deviceId = r.deviceId) (hkey : r'.idempotencyKey = r.idempotencyKey) (hP : P.plainStr = false)
    (hfind : c.world.sh.db.devices.find r'.deviceId = some dev) (ho : dev.ownerId = owner)
    (ht : dev.trustStatus = .trusted) (hstop : c.world.sh.db.stopActive owner = false)
    (hrun : (sys P).Calm (fun x => x.valkey = .up ∧ x.stopCached owner = false) i
      (createCommand P r' owner) w x w') :
    Replays r r' id taskId c.world.sh.db x w'.sh.db ↔ r'.commandType ≠ r.commandType := by
  obtain ⟨d', o', hm, hd', hx⟩ := calm_sound hw
    (within_replay hP (reachable_keyed h hr) hdev hkey hfind ho ht hstop) hrun
  rw [hm.db, hd']
  by_cases hty : r'.commandType = r.commandType
  · rw [if_pos hty] at hx
    refine iff_of_false (fun hrep => ?_) (by simp [hty])
    by_cases heq : r' = r
    · obtain ⟨⟨a, ha, -⟩, -⟩ := hrep.1 heq
      rw [hx] at ha; cases ha
    · obtain ⟨⟨text, ha⟩, -⟩ := hrep.2 (differs_of_ne hdev hkey heq)
      rw [hx] at ha; cases ha
  · rw [if_neg hty] at hx
    exact iff_of_true ⟨fun heq => absurd (by rw [heq]) hty, fun _ => ⟨⟨_, hx⟩, rfl⟩⟩ hty

end

def acceptsPing : Ev → Bool
  | .committed (.create 10 ⟨dev, type, .obj [], key, exp, del, req⟩) =>
    dev == 1 && type == "system.ping" && key == "ping-1" && exp == some 1000 && !del && !req
  | _ => false

theorem acceptsPing_eq {v : Ev} (h : acceptsPing v = true) : v = .committed (.create 10 (ping false)) := by
  unfold acceptsPing at h
  split at h
  · simp only [Bool.and_eq_true, beq_iff_eq, Bool.not_eq_true'] at h
    obtain ⟨⟨⟨⟨⟨rfl, rfl⟩, rfl⟩, rfl⟩, rfl⟩, rfl⟩ := h
    rfl
  · cases h

def resent (r' : CreateCommandRequest) (ok : Except Err CreateCommandResponse → Bool) : Bool :=
  (play (moves demo) (.other (.call (.create (ping false) 7)) :: steps 0 26) demoStart).any fun c =>
    c.world.sh.trace.any (fun v => acceptsPing v.2) && (c.world.sh.db.tasks.find 10).isSome &&
      (c.world.sh.db.devices.find 1).any (fun dev => dev.ownerId == 7 && dev.trustStatus == .trusted) &&
      !c.world.sh.db.stopActive 7 &&
      ((sys demo).finishIn (fun x => x.valkey == .up && !x.stopCached 7) 0 (createCommand demo r' 7)
        (fresh c.world.sh.db c.world.sh.ext).world).any fun x => ok x.1

structure Resent (r' : CreateCommandRequest) (c : Conf) (j : Nat) (t : Task) (dev : Device)
    (x : Except Err CreateCommandResponse) (w' : Wd) : Prop where
  reachable : Reachable demo c
  accepted : (j, Ev.committed (.create 10 (ping false))) ∈ c.world.sh.trace
  task : c.world.sh.db.tasks.find 10 = some t
  device : c.world.sh.db.devices.find 1 = some dev
  owner : dev.ownerId = 7
  trusted : dev.trustStatus = .trusted
  stop : c.world.sh.db.stopActive 7 = false
  run : (sys demo).Calm (fun x => x.valkey = .up ∧ x.stopCached 7 = false) 0 (createCommand demo r' 7)
    (fresh c.world.sh.db c.world.sh.ext).world x w'

theorem resent_run {r' : CreateCommandRequest} {ok : Except Err CreateCommandResponse → Bool}
    (h : resent r' ok = true) :
    ∃ c j t dev x w', Resent r' c j t dev x w' ∧ ok x = true := by
  obtain ⟨c, hr, h⟩ := played h
  simp only [Bool.and_eq_true, List.any_eq_true, Option.isSome_iff_exists, Option.any_eq_true, beq_iff_eq,
    Bool.not_eq_true', Prod.exists] at h
  obtain ⟨⟨⟨⟨⟨j, v, hv, hping⟩, t, ht⟩, dev, hdev, ho, htr⟩, hstop⟩, x, w', hrun, hok⟩ := h
  rw [acceptsPing_eq hping] at hv
  exact ⟨c, j, t, dev, x, w', ⟨Reachable.runs demo_reachable hr, hv, ht, hdev, ho, htr, hstop,
    (finishIn_calm hrun).imp fun x hx => by simpa using hx⟩, hok⟩

/-- The same request gets no answer. -/
theorem replay_unanswered : ∃ c j t dev x w', Resent (ping false) c j t dev x w' ∧
    ¬ Replays (ping false) (ping false) 10 t.id c.world.sh.db x w'.sh.db := by
  obtain ⟨c, j, t, dev, x, w', hrun, hx⟩ := resent_run
    (show resent (ping false) (fun x => match x with | .error .attributeError => true | _ => false) = true by
      decide +kernel)
  refine ⟨c, j, t, dev, x, w', hrun, fun h => ?_⟩
  obtain ⟨⟨a, rfl, -⟩, -⟩ := h.1 rfl
  cases hx

def statusAgain : CreateCommandRequest := { ping false with commandType := "device.get_status" }

theorem replays_iff_status : ∃ c j t dev x w', Resent statusAgain c j t dev x w' ∧
    Replays (ping false) statusAgain 10 t.id c.world.sh.db x w'.sh.db := by
  obtain ⟨c, j, t, dev, x, w', h, -⟩ := resent_run
    (show resent statusAgain (fun _ => true) = true by decide +kernel)
  refine ⟨c, j, t, dev, x, w', h, ?_⟩
  exact (replays_iff h.reachable h.accepted (fresh_matches _ _ 0) (by rfl) (by rfl) rfl h.device
    h.owner h.trusted h.stop h.run).mpr (by decide)

end Veyaan
