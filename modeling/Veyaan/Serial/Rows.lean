import Veyaan.Devices
import Veyaan.Protocol
import Veyaan.Serial.Base

/-!
# The rows of a call

What each call writes when it succeeds and no other call runs: the domain rows,
the state events, the task, the audit row and the outbox event of one
transaction, as one list of rows.
-/

namespace Veyaan

/-! ## New commands -/

def insertRows (c : Command) (taskId : UUID) : List Write :=
  [.command c, .task ⟨taskId, c.id, .pending, none, none, none⟩, .event ⟨c.id, none, .received, .api, none⟩]

def createRows (c : Command) (taskId : UUID) (new : CommandState) (u₁ n₁ u₂ n₂ : Time) : List Write :=
  insertRows c taskId ++ moveRows c .validated .api none u₁ n₁ ++
    moveRows (c.transition .validated u₁ n₁ none) new .api none u₂ n₂

/-- The approval that `create_command` asks for. -/
def newApproval (P : Params) (r : CreateCommandRequest) (riskLevel : RiskLevel)
    (commandId ownerId id : UUID) (now : Time) (nonce : String) : Approval :=
  { id, commandId, ownerId, riskLevel, actionTitle := "Approve " ++ r.commandType,
    actionDescription :=
      "Approve command " ++ r.commandType ++ " for device " ++ toString r.deviceId, status := .pending,
    decisionNonceHash := P.sha256 nonce, expiresAt := now + 30 * 60000000, decidedAt := none, decisionNote := none }

/-- `get_by_idempotency_key`. -/
def DB.byIdempotencyKey (d : DB) (deviceId : UUID) (idempotencyKey : String) : Option Command :=
  d.commands.rows.find? fun c => c.deviceId == deviceId && c.idempotencyKey == idempotencyKey

/-- The rows that `create_command` writes, and its answer. -/
inductive CreatedRows (P : Params) (d : DB) (r : CreateCommandRequest) (ownerId : UUID) :
    CreateCommandResponse → List Write → Prop
  | awaiting {df c tid aid now nonce u₁ n₁ u₂ n₂} {dev : Device} : commandRegistry r.commandType = some df →
      c = r.command df c.id c.updatedAt → c.requiresApproval = true → d.commands.find c.id = none →
      d.byIdempotencyKey r.deviceId r.idempotencyKey = none → d.tasks.find c.id = none →
      d.devices.find r.deviceId = some dev → dev.ownerId = ownerId → d.approvals.find aid = none →
      CreatedRows P d r ownerId ⟨c.id, tid, .awaitingApproval, true, some aid, some nonce⟩
        (createRows c tid .awaitingApproval u₁ n₁ u₂ n₂ ++
          [.approval (newApproval P r c.riskLevel c.id ownerId aid now nonce)])
  | queued {df c tid eid now u₁ n₁ u₂ n₂} {dev : Device} : commandRegistry r.commandType = some df →
      c = r.command df c.id c.updatedAt → c.requiresApproval = false → d.commands.find c.id = none →
      d.byIdempotencyKey r.deviceId r.idempotencyKey = none → d.tasks.find c.id = none →
      d.devices.find r.deviceId = some dev → dev.ownerId = ownerId → d.outbox.find eid = none →
      CreatedRows P d r ownerId ⟨c.id, tid, .queued, false, none, none⟩
        (createRows c tid .queued u₁ n₁ u₂ n₂ ++
          [.outbox (newEvent .commandQueued .command c.id (readyMsg c dev.id) eid now)])

/-! ## Decisions -/

/-- The approval as `decide_approval` writes it. -/
def Approval.decide (approve : Bool) (now : Time) (note : Option String) (a : Approval) : Approval :=
  { a with
    status := if approve then .approved else .rejected
    decidedAt := some now
    decisionNote := note }

def decisionAudit (approve : Bool) (ownerId : UUID) (a : Approval) (note : Option String) : AuditLog :=
  { action := if approve then .approvalApproved else .approvalRejected, userId := ownerId, approvalId := some a.id,
    commandId := some a.commandId, note }

def approveRows (a : Approval) (c : Command) (u₁ n₁ u₂ n₂ : Time) : List Write :=
  .approval a :: moveRows c .approved .approval none u₁ n₁ ++
    moveRows (c.transition .approved u₁ n₁ none) .queued .approval none u₂ n₂

structure DB.Typed (d : DB) : Prop where
  command : ∀ id c, d.commands.find id = some c → c.storable = true ∧ textOk c.commandType = true ∧
    c.parameters.storable = true
  approval : ∀ id a, d.approvals.find id = some a → a.decisionNote.all textOk = true ∧ d.isUser a.ownerId = true
  pairing : ∀ id p, d.pairings.find id = some p → p.info.storable = true

/-! ## Emergency stops -/

/-- The rows of `_block_commands`: each selected command that can be blocked is. -/
inductive BlockRows : DB → List UUID → List Write → Prop
  | nil {v} : BlockRows v [] []
  | skip {v id ids ws} : (∀ c, v.commands.find id = some c → accepts c.state .blockedByEmergencyStop = false) →
      BlockRows v ids ws → BlockRows v (id :: ids) ws
  | block {v id ids c u n ws} : v.commands.find id = some c → accepts c.state .blockedByEmergencyStop = true →
      BlockRows (v.write (moveRows c .blockedByEmergencyStop .emergencyStopActivation none u n)) ids ws →
      BlockRows v (id :: ids) (moveRows c .blockedByEmergencyStop .emergencyStopActivation none u n ++ ws)

def activeStop (existing : Option EmergencyStop) (ownerId : UUID) (reason : String) (actorId : UUID) (now : Time) :
    EmergencyStop where
  ownerId := (existing.map EmergencyStop.ownerId).getD ownerId
  active := true
  reason := some reason
  activatedAt := some now
  releasedAt := none
  activatedBy := some actorId
  releasedBy := none

def DB.takesStop (d : DB) (ownerId : UUID) (reason : String) (actorId : UUID) : Bool :=
  textOk reason && d.isUser actorId && ((d.stops.find ownerId).isSome || d.isUser ownerId)

def activateAudit (ownerId actorId : UUID) (reason : String) : AuditLog :=
  { action := .emergencyStopActivated, userId := actorId, note := some reason, ownerId := some ownerId }

/-! ## Pairing -/

def DB.takesDevice (d : DB) (p : PairingRequest) (ownerId : UUID) : Bool :=
  d.isUser ownerId && p.info.deviceType ∈ ["macbook", "iphone", "ipad"] && p.info.storable

def confirmRows (P : Params) (p : PairingRequest) (ownerId deviceId credentialId : UUID) (secret : String)
    (now confirmedAt : Time) : List Write :=
  [.pairing { p with attemptCount := p.attemptCount + 1 }, .device (p.device deviceId ownerId),
    .credential (newCredential P credentialId deviceId secret now),
    .pairing { p with
      attemptCount := p.attemptCount + 1, status := .confirmed, ownerId :=
        some ownerId, confirmedAt := some confirmedAt }, .audit (confirmAudit ownerId deviceId p)]

/-! ## The workers -/

inductive Rounds (M : DB → List Write → Prop) : DB → List Write → Prop
  | nil {v} : Rounds M v []
  | cons {v vs ws} : M v vs → Rounds M (v.write vs) ws → Rounds M v (vs ++ ws)

inductive PublishRows (v : DB) : List Write → Prop
  | mark {es : List OutboxEvent} : PublishRows v (es.map .outbox)
  | block {id c u n} {es : List OutboxEvent} : v.commands.find id = some c →
      accepts c.state .blockedByEmergencyStop = true →
      PublishRows v (moveRows c .blockedByEmergencyStop .outboxEnforcement none u n ++ es.map .outbox)

inductive EventRows (P : Params) (v : DB) (e : OutboxEvent) : List Write → Prop
  | published {now} : EventRows P v e (markRows v e.id
      fun r => { r with status := .published, publishedAt := some now })
  | failed : EventRows P v e (markRows v e.id fun r => { r with status := .failed })
  | again : P.loggerRaises = false → ¬ 3 ≤ e.attemptCount →
      EventRows P v e (markRows v e.id fun r => { r with attemptCount := r.attemptCount + 1, status := .pending })
  | block {id c u n} : v.commands.find id = some c → accepts c.state .blockedByEmergencyStop = true →
      EventRows P v e (moveRows c .blockedByEmergencyStop .outboxEnforcement none u n ++
        markRows v e.id fun r => { r with status := .failed })

inductive BatchRows (P : Params) : List OutboxEvent → DB → List Write → Prop
  | nil {v} : BatchRows P [] v []
  | cons {e es v vs ws} : EventRows P v e vs → BatchRows P es (v.write vs) ws → BatchRows P (e :: es) v (vs ++ ws)

def expireTaskRows (v : DB) (commandId : UUID) : List Write :=
  ((v.tasks.find commandId).toList.filter fun t => t.state ∉ [.succeeded, .failed, .cancelled]).map fun t =>
    .task { t with state := .failed, resultSummary := some "expired" }

/-- One round of `_expire_commands`. -/
inductive ExpireRows (v : DB) : List Write → Prop
  | skip : ExpireRows v []
  | expire {id c u n} : v.commands.find id = some c → c.state ∈ nonTerminal → accepts c.state .expired = true →
      ExpireRows v (moveRows c .expired .scheduler none u n ++ expireTaskRows v c.id)

/-! ## Lifecycle messages -/

def Lifecycle.source : Lifecycle → Source
  | .delivered => .gateway
  | _ => .device

def Lifecycle.metadata (p : LifecyclePayload) (commandId : UUID) (k : Lifecycle) : Metadata :=
  match k with
  | .delivered => { dedupKey := some ⟨.delivered, commandId⟩ }
  | .acknowledged =>
    if p.accepted.getD true then { dedupKey := some ⟨.acknowledged, commandId⟩ }
    else { errorMessage := p.rejectionReason, dedupKey := some ⟨.acknowledged, commandId⟩ }
  | .progress => { dedupKey := some ⟨.progress, commandId⟩ }
  | .result =>
    if p.success.getD false then
      { resultData := some p.resultData, resultSummary := some "success", dedupKey := some ⟨.result, commandId⟩ }
    else { errorCode := p.errorCode, errorMessage := p.errorMessage, dedupKey := some ⟨.result, commandId⟩ }

def Lifecycle.task (p : LifecyclePayload) : Lifecycle → Option (Task → Task)
  | .delivered => some (Task.update .running none none none)
  | .acknowledged =>
    if p.accepted.getD true then none else some (Task.update .failed none none p.rejectionReason)
  | .progress => some (Task.update .running none none none)
  | .result =>
    if p.success.getD false then some (Task.update .succeeded (some "success") none none)
    else some (Task.update .failed none p.errorCode p.errorMessage)

def DB.handledBefore (d : DB) (k : Lifecycle) (commandId : UUID) : List CommandStateEvent :=
  d.events.filter fun e => e.commandId == commandId &&
    (e.eventMetadata.bind Metadata.dedupKey) == some ⟨k, commandId⟩

def Lifecycle.heeds (d : DB) (p : LifecyclePayload) (c : Command) : Lifecycle → Bool
  | .progress => c.state == .acknowledged
  | k => (d.handledBefore k c.id).isEmpty && p.deviceId.all (c.deviceId == ·)

def DB.takesTask (d : DB) (commandId : UUID) (f : Option (Task → Task)) : Bool :=
  f.all fun f => (d.tasks.find commandId).all fun t => (f t).storable

/-- The rows that the handler of a message writes; none when it ignores the
message, or when the database refuses them. -/
def handleRows (d : DB) (k : Lifecycle) (p : LifecyclePayload) (u n : Time) : List Write :=
  match p.commandId.bind d.commands.find with
  | none => []
  | some c =>
    if k.heeds d p c && accepts c.state (k.target p) && c.goes (k.target p) (some (k.metadata p c.id)) &&
        d.takesTask c.id (k.task p) then
      moveRows c (k.target p) k.source (some (k.metadata p c.id)) u n ++
        (k.task p).elim [] (taskRows d c.id)
    else []

/-! ## The calls -/

inductive Rows (P : Params) (d : DB) : Call → List Write → Prop
  | createAwaiting {r o df c tid aid now nonce u₁ n₁ u₂ n₂} : commandRegistry r.commandType = some df →
      c = r.command df c.id c.updatedAt → c.requiresApproval = true → d.commands.find c.id = none →
      d.approvals.find aid = none →
      Rows P d (.create r o) (createRows c tid .awaitingApproval u₁ n₁ u₂ n₂ ++
        [.approval (newApproval P r c.riskLevel c.id o aid now nonce)])
  | createQueued {r o df c tid eid now u₁ n₁ u₂ n₂} {dev : Device} : commandRegistry r.commandType = some df →
      c = r.command df c.id c.updatedAt → c.requiresApproval = false → d.commands.find c.id = none →
      d.devices.find r.deviceId = some dev → d.outbox.find eid = none →
      Rows P d (.create r o) (createRows c tid .queued u₁ n₁ u₂ n₂ ++
        [.outbox (newEvent .commandQueued .command c.id (readyMsg c dev.id) eid now)])
  | cancel {id o c u n} : d.commands.find id = some c → d.ownerOf c.deviceId = some o →
      accepts c.state .cancelled = true → Rows P d (.cancel id o) (moveRows c .cancelled .api none u n)
  | approve {id o nonce note a c eid now at' u₁ n₁ u₂ n₂} {dev : Device} : d.approvals.find id = some a →
      a.ownerId = o → a.status = .pending → P.sha256 nonce = a.decisionNonceHash →
      d.commands.find a.commandId = some c → c.state = .awaitingApproval → d.devices.find c.deviceId = some dev →
      d.outbox.find eid = none →
      Rows P d (.decide id o true nonce note) (approveRows (a.decide true now note) c u₁ n₁ u₂ n₂ ++
        [.outbox (newEvent .commandQueued .command c.id (readyMsg c dev.id) eid at'),
          .audit (decisionAudit true o a note)])
  | reject {id o nonce note a c now u n} : d.approvals.find id = some a → a.ownerId = o → a.status = .pending →
      P.sha256 nonce = a.decisionNonceHash → d.commands.find a.commandId = some c →
      accepts c.state .rejected = true →
      Rows P d (.decide id o false nonce note) (.approval (a.decide false now note) ::
        moveRows c .rejected .approval none u n ++ [.audit (decisionAudit false o a note)])
  | activate {o reason actor now now' ws eid at'} {existing : Option EmergencyStop} : d.stops.find o = existing →
      existing.all (!·.active) → BlockRows (d.write [.stop (activeStop existing o reason actor now)])
      (d.blockable o) ws →
      d.outbox.find eid = none →
      Rows P d (.activate o reason actor) (.stop (activeStop existing o reason actor now) :: ws ++
        [.audit (activateAudit o actor reason),
          .outbox (newEvent .emergencyStopActivated .owner o
            (.emergencyStop o ⟨o, true, some reason, now'⟩) eid at')])
  | reactivate {o reason actor stop now eid at'} : d.stops.find o = some stop → stop.active = true →
      d.outbox.find eid = none →
      Rows P d (.activate o reason actor)
        [.outbox (newEvent .emergencyStopActivated .owner o (.emergencyStop o ⟨o, true, stop.reason, now⟩) eid at')]
  | release {o actor stop now now' eid at'} : d.stops.find o = some stop → stop.active = true →
      d.outbox.find eid = none →
      Rows P d (.release o actor)
        [.stop { stop with active := false, releasedAt := some now, releasedBy := some actor },
          .audit { action := .emergencyStopReleased, userId := actor, ownerId := some o },
          .outbox (newEvent .emergencyStopReleased .owner o (.emergencyResume o ⟨o, false, none, now'⟩) eid at')]
  | startPairing {info id code now} : d.pairings.find id = none →
      Rows P d (.startPairing info) [.pairing (newPairing P info id code now)]
  | confirmPairing {id o code p deviceId credentialId secret now at'} : d.pairings.find id = some p →
      p.status = .pending → p.attemptCount < P.maxPairingAttempts → P.sha256 code = p.pairingCodeHash →
      d.devices.find deviceId = none → d.credentials.find credentialId = none →
      Rows P d (.confirmPairing id o code)
        [.pairing { p with attemptCount := p.attemptCount + 1 },
          .device (p.device deviceId o),
          .credential (newCredential P credentialId deviceId secret now),
          .pairing { p with
            attemptCount := p.attemptCount + 1, status := .confirmed, ownerId := some o, confirmedAt := some at' },
          .audit (confirmAudit o deviceId p)]
  | revoke {id o dev revokedAt now eid at'} : d.devices.find id = some dev → dev.ownerId = o →
      d.outbox.find eid = none →
      Rows P d (.revoke id o) (.device { dev with trustStatus := .revoked, revokedAt := some revokedAt } ::
        (d.credentialsOf id).map (fun r => .credential { r with revokedAt := some now }) ++
        [.audit { action := .deviceRevoked, userId := o, deviceId := some id },
          .outbox (newEvent .deviceRevoked .device id (.deviceLifecycle id "revoked" (some o)) eid at')])
  | batch {ws} : Rounds PublishRows d ws → Rows P d .batch ws
  | tasks {ps : List PairingRequest} {as : List Approval} {ws} :
      Rounds ExpireRows (d.write (ps.map .pairing ++ as.map .approval)) ws →
      Rows P d .tasks (ps.map .pairing ++ as.map .approval ++ ws)
  | consume {k id p u n} : Rows P d (.consume k id p) (handleRows d k p u n)

theorem CreatedRows.rows {P : Params} {d : DB} {r : CreateCommandRequest} {o : UUID} {a : CreateCommandResponse}
    {ws : List Write} (h : CreatedRows P d r o a ws) : Rows P d (.create r o) ws := by
  cases h with
  | awaiting hdf hc hra hn _ _ _ _ ha => exact .createAwaiting hdf hc hra hn ha
  | queued hdf hc hra hn _ _ hdev _ he => exact .createQueued hdf hc hra hn hdev he

/-- The rows that a call commits on purpose before it raises. -/
inductive Refusal (P : Params) (d : DB) : Call → List Write → Prop
  | approvalExpired {id o approve nonce note a} : d.approvals.find id = some a →
      a.ownerId = o → a.status = .pending →
      Refusal P d (.decide id o approve nonce note) [.approval { a with status := .expired }]
  | pairingExpired {id o code p} : d.pairings.find id = some p → p.status = .pending →
      Refusal P d (.confirmPairing id o code) [.pairing { p with status := .expired }]
  | tooManyAttempts {id o code p} : d.pairings.find id = some p → p.status = .pending →
      P.maxPairingAttempts < p.attemptCount + 1 →
      Refusal P d (.confirmPairing id o code)
        [.pairing { p with attemptCount := p.attemptCount + 1, status := .rejected }]
  | wrongCode {id o code p} : d.pairings.find id = some p → p.status = .pending →
      P.sha256 code ≠ p.pairingCodeHash →
      Refusal P d (.confirmPairing id o code) [.pairing { p with attemptCount := p.attemptCount + 1 }]

def Wrote (P : Params) (call : Call) (d d' : DB) : Prop :=
  d' = d ∨ ∃ ws, (Rows P d call ws ∨ Refusal P d call ws) ∧ d' = d.write ws

def WroteIn (J : Ext → Prop) (P : Params) (call : Call) (d d' : DB) : Prop :=
  d' = d ∨ ∃ ws, (Rows P d call ws ∨ Refusal P d call ws) ∧ Timed J ws ∧ d' = d.write ws

theorem WroteIn.wrote {J : Ext → Prop} {P : Params} {call : Call} {d d' : DB} (h : WroteIn J P call d d') :
    Wrote P call d d' :=
  h.imp_right fun ⟨ws, hw, _, hd⟩ => ⟨ws, hw, hd⟩

/-- A round of `_expire_commands` at a time that the clock had. -/
def TimedExpire (J : Ext → Prop) (v : DB) (ws : List Write) : Prop := ExpireRows v ws ∧ Timed J ws

theorem timed_expireTaskRows {J : Ext → Prop} {v : DB} {id : UUID} : Timed J (expireTaskRows v id) :=
  timed_of_tables fun c h => by
    obtain ⟨t, -, h⟩ := List.mem_map.mp h
    cases h

theorem Rounds.imp {M N : DB → List Write → Prop} (h : ∀ v ws, M v ws → N v ws) {v : DB} {ws : List Write}
    (hr : Rounds M v ws) : Rounds N v ws := by
  induction hr with
  | nil => exact .nil
  | cons hm _ ih => exact .cons (h _ _ hm) ih

theorem Rounds.timed {J : Ext → Prop} {v : DB} {ws : List Write}
    (h : Rounds (TimedExpire J) v ws) : Timed J ws := by
  induction h with
  | nil => exact timed_of_tables (by simp)
  | cons hm _ ih => exact hm.2.append ih

end Veyaan
