import Veyaan.StateMachine

/-!
# The services behind the API

`OutboxRepository`, `EmergencyStopService`, `CommandService` and
`ApprovalService`, statement by statement. Each method runs in a session of its
own; `is_active` opens another one and is called from inside the others.
-/

namespace Veyaan

/-! ## `OutboxRepository` -/

def Msg.storable : Msg → Bool
  | .commandReady _ p => textOk p.commandType && p.parameters.storable
  | .emergencyStop _ p => p.reason.all textOk
  | .emergencyResume _ p => p.reason.all textOk
  | _ => true

def insertOutbox (e : OutboxEvent) (d : DB) : Except Err (List Write) :=
  if (d.outbox.find e.id).isSome then .error .integrity
  else if e.msg.storable then .ok [.outbox e]
  else .error .data

def addEvent (eventType : EventType) (aggregateType : AggregateType) (aggregateId : UUID) (msg : Msg) :
    Op Unit := do
  let id ← effect .uuid4
  let availableAt ← effect .now
  let _ ← execute [.outbox id] (insertOutbox
    { id, aggregateType, aggregateId, eventType, msg, status := .pending, availableAt,
      attemptCount := 0, publishedAt := none })
  -- session.refresh(event)
  let _ ← select fun d => d.outbox.find id
  return ()

/-- `UPDATE outbox_events SET … WHERE id = …`. -/
def updateOutbox (id : UUID) (f : OutboxEvent → OutboxEvent) (d : DB) : Except Err (List Write) :=
  match d.outbox.find id with
  | none => .ok []
  | some e => .ok [.outbox { f e with id := e.id }]

def markPublished (id : UUID) : Op Unit := do
  let now ← effect .now
  let _ ← execute [.outbox id] (updateOutbox id fun e => { e with status := .published, publishedAt := some now })
  return ()

def markFailed (id : UUID) : Op Unit := do
  let _ ← execute [.outbox id] (updateOutbox id fun e => { e with status := .failed })
  return ()

def incrementAttempt (id : UUID) : Op Unit := do
  let _ ← execute [.outbox id]
    (updateOutbox id fun e => { e with attemptCount := e.attemptCount + 1, status := .pending })
  return ()

def insertAudit (a : AuditLog) (d : DB) : Except Err (List Write) :=
  if !d.isUser a.userId then .error .integrity
  else if a.note.all textOk then .ok [.audit a]
  else .error .data

theorem insertAudit_cases (a : AuditLog) (d : DB) :
    insertAudit a d = .ok [.audit a] ∨ insertAudit a d = .error .data ∨ insertAudit a d = .error .integrity := by
  unfold insertAudit
  split
  · exact .inr (.inr rfl)
  · split
    · exact .inl rfl
    · exact .inr (.inl rfl)

theorem insertAudit_ok {a : AuditLog} {d : DB} {ws : List Write} :
    insertAudit a d = .ok ws ↔ d.isUser a.userId = true ∧ a.note.all textOk = true ∧ ws = [.audit a] := by
  unfold insertAudit
  by_cases hu : d.isUser a.userId <;> by_cases hn : a.note.all textOk = true <;> simp [hu, hn, eq_comm]

/-! ## `EmergencyStopService` -/

def isActive (site : Site) (ownerId : UUID) : Op Bool := do
  match ← effect (.cacheGet site ownerId) with
  | some (.dict active _) => return active.getD false
  | some (.scalar truthy) => return truthy
  | none =>
    match ← Prog.call (.fresh (some (.stopRead site ownerId)) fun d => d.stops.find ownerId) with
    | some stop =>
      if stop.active then do
        effect (.cacheSet (some site) ownerId (.dict (some true) stop.activatedAt) 60)
        return true
      else return false
    | none => return false

/-- The loop of `_block_commands`. An exception is logged, and the next
command is tried in the same session. -/
def blockAll : List UUID → Op Unit
  | [] => return ()
  | id :: ids => do
    let _ ← (transitionCommand none id .blockedByEmergencyStop .emergencyStopActivation none).attempt
    blockAll ids

def blockCommands (ownerId : UUID) : Op Unit := do
  let devIds ← Prog.call (.read (some (.select ownerId)) fun d =>
    (d.devices.rows.filter (·.ownerId == ownerId)).map Device.id)
  if devIds.isEmpty then return ()
  else do
    let cmdIds ← Prog.call (.read (some (.select ownerId)) fun d => d.blockable ownerId)
    blockAll cmdIds

theorem blockable_of_no_device {d : DB} {owner : UUID}
    (h : ((d.devices.rows.filter (·.ownerId == owner)).map Device.id).isEmpty = true) : d.blockable owner = [] := by
  have hno : ∀ dev ∈ d.devices.rows, dev.ownerId ≠ owner := by simpa [List.filter_eq_nil_iff] using h
  have : ∀ c ∈ d.commands.rows, (d.ownerOf c.deviceId == some owner) = false := fun c _ => by
    cases hf : d.devices.find c.deviceId with
    | none => simp [DB.ownerOf, hf]
    | some dev => simpa [DB.ownerOf, hf] using hno dev (Table.mem_of_find hf)
  simp only [DB.blockable, List.map_eq_nil_iff, List.filter_eq_nil_iff]
  intro c hc
  simp [this c hc]

def EmergencyStop.usersOk (s : EmergencyStop) (d : DB) : Bool :=
  d.isUser s.ownerId && s.activatedBy.all d.isUser && s.releasedBy.all d.isUser

/-- `INSERT INTO emergency_stops`. -/
def insertStop (s : EmergencyStop) (d : DB) : Except Err (List Write) :=
  if (d.stops.find s.ownerId).isSome || !s.usersOk d then .error .integrity
  else if s.reason.all textOk then .ok [.stop s]
  else .error .data

theorem insertStop_ok {s : EmergencyStop} {d : DB} {ws : List Write} : insertStop s d = .ok ws ↔
    d.stops.find s.ownerId = none ∧ s.usersOk d = true ∧ s.reason.all textOk = true ∧ ws = [.stop s] := by
  unfold insertStop
  cases d.stops.find s.ownerId <;> by_cases hu : s.usersOk d <;> by_cases hn : s.reason.all textOk = true <;>
    simp [hu, hn, eq_comm]

/-- `UPDATE emergency_stops SET … WHERE …`. -/
def updateStop (ownerId : UUID) (f : EmergencyStop → EmergencyStop) (d : DB) : Except Err (List Write) :=
  match d.stops.find ownerId with
  | none => .error .db
  | some s =>
    if !(d.refers s.activatedBy (f s).activatedBy && d.refers s.releasedBy (f s).releasedBy) then .error .integrity
    else if (f s).reason.all textOk then .ok [.stop { f s with ownerId := s.ownerId }]
    else .error .data

theorem updateStop_ok {ownerId : UUID} {f : EmergencyStop → EmergencyStop}
    {s : EmergencyStop} {d : DB} {ws : List Write}
    (hs : d.stops.find ownerId = some s) : updateStop ownerId f d = .ok ws ↔
      d.refers s.activatedBy (f s).activatedBy = true ∧ d.refers s.releasedBy (f s).releasedBy = true ∧
        (f s).reason.all textOk = true ∧ ws = [.stop { f s with ownerId := s.ownerId }] := by
  simp only [updateStop, hs]
  by_cases ha : d.refers s.activatedBy (f s).activatedBy <;>
    by_cases hr : d.refers s.releasedBy (f s).releasedBy <;>
    by_cases hn : (f s).reason.all textOk = true <;> simp [ha, hr, hn, eq_comm]

def writeStop (existing : Option EmergencyStop) (ownerId : UUID) (reason : String) (actorId : UUID) :
    Op Unit := do
  let now ← effect .now
  let _ ← match existing with
    | some _ => execute [.stop ownerId] (updateStop ownerId fun s =>
        { s with
          active := true, reason := some reason, activatedAt := some now, activatedBy := some actorId,
          releasedAt := none, releasedBy := none })
    | none => execute [.stop ownerId] (insertStop
        { ownerId, active := true, reason := some reason, activatedAt := some now,
          releasedAt := none, activatedBy := some actorId, releasedBy := none })
  return ()

/-- The transaction of `activate`; the row to be cached, unless the stop was
active already. -/
def activateRow (ownerId : UUID) (reason : String) (actorId : UUID) : Op (Option (Option EmergencyStop)) := do
  match ← selectForUpdate (fun d => d.stops.find ownerId) (fun s => .stop s.ownerId) with
  | some stop =>
    if stop.active then
      let now ← effect .now
      addEvent .emergencyStopActivated .owner ownerId (.emergencyStop ownerId ⟨ownerId, true, stop.reason, now⟩)
      commit (.reactivate ownerId)
      return none
    else activateFrom (some stop)
  | none => activateFrom none
where
  activateFrom (existing : Option EmergencyStop) : Op (Option (Option EmergencyStop)) := do
    writeStop existing ownerId reason actorId
    blockCommands ownerId
    let _ ← execute [] (insertAudit
      { action := .emergencyStopActivated, userId := actorId, note := some reason, ownerId := some ownerId })
    let now ← effect .now
    addEvent .emergencyStopActivated .owner ownerId (.emergencyStop ownerId ⟨ownerId, true, some reason, now⟩)
    commit (.activate ownerId)
    -- session.refresh(emergency_stop)
    let stop ← select fun d => d.stops.find ownerId
    return some stop

def activate (ownerId : UUID) (reason : String) (actorId : UUID) : Op Unit := do
  match ← withSession (activateRow ownerId reason actorId) with
  | none => return ()
  | some stop => effect (.cacheSet none ownerId (.dict (some true) (stop.bind EmergencyStop.activatedAt)) 3600)

/-- The transaction of `release`; whether there was an active stop. -/
def releaseRow (ownerId releasedBy : UUID) : Op Bool := do
  match ← selectForUpdate (fun d => d.stops.find ownerId) (fun s => .stop s.ownerId) with
  | none => return false
  | some stop =>
    if stop.active then
      let now ← effect .now
      let _ ← execute [.stop ownerId] (updateStop ownerId fun s =>
        { s with active := false, releasedAt := some now, releasedBy := some releasedBy })
      let _ ← execute [] (insertAudit
        { action := .emergencyStopReleased, userId := releasedBy, ownerId := some ownerId })
      let now ← effect .now
      addEvent .emergencyStopReleased .owner ownerId (.emergencyResume ownerId ⟨ownerId, false, none, now⟩)
      commit (.release ownerId)
      let _ ← select fun d => d.stops.find ownerId
      return true
    else return false

def release (ownerId releasedBy : UUID) : Op Unit := do
  if ← withSession (releaseRow ownerId releasedBy) then effect (.cacheDelete ownerId)
  else return ()

/-! ## `CommandService` -/

structure CommandDefinition where
  riskLevel : RiskLevel
  requiresApproval : Bool
  delayedExecutionAllowed : Bool

/-- `command_registry.get`. -/
def commandRegistry (commandType : String) : Option CommandDefinition :=
  if commandType = "system.ping" then some ⟨.low, false, true⟩
  else if commandType = "device.get_status" then some ⟨.low, false, true⟩
  else if commandType = "app.open_test" then some ⟨.medium, false, true⟩
  else if commandType = "system.take_test_screenshot" then some ⟨.medium, false, true⟩
  else if commandType = "system.emergency_stop_test" then some ⟨.high, true, false⟩
  else none

structure CreateCommandResponse where
  commandId : UUID
  taskId : UUID
  state : CommandState
  requiresApproval : Bool
  approvalId : Option UUID
  decisionNonce : Option String

/-- `INSERT INTO commands`, with the unique index on device and idempotency key. -/
def insertCommand (c : Command) (d : DB) : Except Err (List Write) :=
  if (d.commands.find c.id).isSome ||
      d.commands.rows.any (fun r => r.deviceId == c.deviceId && r.idempotencyKey == c.idempotencyKey) then
    .error .integrity
  else if varcharOk 100 c.commandType && varcharOk 255 c.idempotencyKey && c.parameters.storable then
    .ok [.command c]
  else .error .data

def insertTask (t : Task) (d : DB) : Except Err (List Write) :=
  if (d.tasks.find t.commandId).isSome then .error .integrity else .ok [.task t]

/-- `INSERT INTO approvals`, with the unique index on the command. -/
def insertApproval (a : Approval) (d : DB) : Except Err (List Write) :=
  if (d.approvals.find a.id).isSome || d.approvals.rows.any (·.commandId == a.commandId) || !d.isUser a.ownerId then
    .error .integrity
  else .ok [.approval a]

theorem insertApproval_ok {a : Approval} {d : DB} {ws : List Write} : insertApproval a d = .ok ws ↔
    d.approvals.find a.id = none ∧ d.approvals.rows.all (·.commandId != a.commandId) = true ∧
    d.isUser a.ownerId = true ∧ ws = [.approval a] := by
  unfold insertApproval
  rw [← Option.not_isSome_iff_eq_none]
  have hall : d.approvals.rows.all (·.commandId != a.commandId) =
      !d.approvals.rows.any (·.commandId == a.commandId) := by
    rw [List.not_any_eq_all_not]; rfl
  rw [hall]
  by_cases hf : (d.approvals.find a.id).isSome <;> by_cases hu : d.isUser a.ownerId <;>
    by_cases hc : d.approvals.rows.any (·.commandId == a.commandId) = true <;> simp [hf, hu, hc, eq_comm]

/-- `ApprovalRepository.create_approval`: the approval and its decision nonce. -/
def createApproval (P : Params) (commandId ownerId : UUID) (riskLevel : RiskLevel)
    (actionTitle actionDescription : String) (expiresInMinutes : Nat) : Op (Approval × String) := do
  let decisionNonce ← effect .tokenUrlsafe
  let now ← effect .now
  let id ← effect .uuid4
  let approval : Approval :=
    { id, commandId, ownerId, riskLevel, actionTitle, actionDescription, status := .pending,
      decisionNonceHash := P.sha256 decisionNonce, expiresAt := now + expiresInMinutes * 60000000,
      decidedAt := none, decisionNote := none }
  let _ ← execute [.approval id, .approvalOf commandId] (insertApproval approval)
  let _ ← select fun d => d.approvals.find id
  return (approval, decisionNonce)

def readyMsg (c : Command) (deviceId : UUID) : Msg :=
  .commandReady deviceId ⟨c.id, deviceId, c.commandType, c.parameters, c.expiresAt, c.riskLevel⟩

theorem Command.Same.readyMsg {c c' : Command} (h : c.Same c') (dev : UUID) :
    Veyaan.readyMsg c' dev = Veyaan.readyMsg c dev := by
  unfold Veyaan.readyMsg
  rw [h.id, h.commandType, h.parameters, h.expiresAt, h.riskLevel]

/-- The command row that `create_command` inserts. -/
def CreateCommandRequest.command (r : CreateCommandRequest) (def' : CommandDefinition) (id : UUID)
    (now : Time) : Command where
  id := id
  deviceId := r.deviceId
  commandType := r.commandType
  parameters := r.parameters
  riskLevel := def'.riskLevel
  idempotencyKey := r.idempotencyKey
  state := .received
  requiresApproval := def'.requiresApproval || r.requiresApproval
  delayedExecutionAllowed := r.delayedExecutionAllowed || def'.delayedExecutionAllowed
  expiresAt := r.expiresAt
  deliveredAt := none
  acknowledgedAt := none
  startedAt := none
  finishedAt := none
  resultData := none
  resultSummary := none
  errorCode := none
  errorMessage := none
  updatedAt := now

/-- The part of `create_command` behind its checks. -/
def insertNewCommand (P : Params) (r : CreateCommandRequest) (ownerId : UUID) (device : Device)
    (def' : CommandDefinition) : Op CreateCommandResponse := do
  let commandId ← effect .uuid4
  let now ← effect .now
  let command := r.command def' commandId now
  let _ ← execute [.command commandId, .idempotency r.deviceId r.idempotencyKey] (insertCommand command)
  let taskId ← effect .uuid4
  let _ ← execute [.task commandId] (insertTask
    { id := taskId, commandId, state := .pending, resultSummary := none, errorCode := none,
      errorMessage := none })
  let _ ← execute [] (insertEvent ⟨commandId, none, .received, .api, none⟩)
  if command.requiresApproval then
    let c₁ ← transitionCommand (some command) commandId .validated .api none
    let c₂ ← transitionCommand c₁ commandId .awaitingApproval .api none
    let (approval, decisionNonce) ← createApproval P commandId ownerId command.riskLevel
      ("Approve " ++ r.commandType)
      ("Approve command " ++ r.commandType ++ " for device " ++ toString r.deviceId) 30
    commit (.create commandId r)
    return ⟨commandId, taskId, (c₂.getD command).state, true, some approval.id, some decisionNonce⟩
  else
    let c₁ ← transitionCommand (some command) commandId .validated .api none
    let c₂ ← transitionCommand c₁ commandId .queued .api none
    addEvent .commandQueued .command commandId (readyMsg command device.id)
    commit (.create commandId r)
    return ⟨commandId, taskId, (c₂.getD command).state, false, none, none⟩

/-- `create_command` after the emergency-stop check. -/
def createUnstopped (P : Params) (r : CreateCommandRequest) (ownerId : UUID) (device : Device) :
    Op CreateCommandResponse := do
  let existing ← select fun d =>
    d.commands.rows.find? fun c => c.deviceId == r.deviceId && c.idempotencyKey == r.idempotencyKey
  match existing with
  | some c =>
    if c.commandType ≠ r.commandType then
      raise (.api .idempotencyConflict "Idempotency key already used with a different command type" 409)
    else
      -- `CommandRepository` has no `get_task`
      raise .attributeError
  | none =>
    match commandRegistry r.commandType with
    | none => raise (.api .invalidCommandType ("Unknown command type: " ++ r.commandType) 422)
    | some def' =>
      if P.schemaOk r.commandType r.parameters then insertNewCommand P r ownerId device def'
      else raise .validation

/-- `create_command` once `is_active` has answered. -/
def createChecked (P : Params) (r : CreateCommandRequest) (ownerId : UUID) (device : Device)
    (stopped : Bool) : Op CreateCommandResponse :=
  if stopped then
    raise (.api .emergencyStopActive "Emergency stop is active. Cannot create new commands." 423)
  else createUnstopped P r ownerId device

def createCommand (P : Params) (r : CreateCommandRequest) (ownerId : UUID) : Op CreateCommandResponse :=
  withSession do
    match ← select fun d => d.devices.find r.deviceId with
    | none => raise (.api .deviceNotFound "Device not found" 404)
    | some device =>
      if device.ownerId ≠ ownerId then raise (.api .deviceNotFound "Device not found" 404)
      else
        columnValue P
        if device.trustStatus ≠ .trusted then
          raise (.api .deviceRevoked "Device is not trusted" 403)
        else
          let stopped ← isActive .create ownerId
          createChecked P r ownerId device stopped

/-- `cancel_command`. The instance that `get_by_id` loads stays in the session,
so the transition is decided on it. -/
def cancelCommand (commandId ownerId : UUID) : Op Bool :=
  withSession do
    match ← select fun d => (d.commands.find commandId).map fun c => (c, d.ownerOf c.deviceId) with
    | none => return false
    | some (command, owner) =>
      if owner ≠ some ownerId then return false
      else
        match ← (transitionCommand (some command) command.id .cancelled .api none).attempt with
        | .ok _ =>
          commit (.cancel commandId)
          return true
        | .error (.stateTransition ..) => return false
        | .error e => raise e

/-! ## `ApprovalService` -/

/-- `UPDATE approvals SET … WHERE id = …`, on a row that is there. -/
def updateApproval (id : UUID) (f : Approval → Approval) (d : DB) : Except Err (List Write) :=
  match d.approvals.find id with
  | none => .error .db
  | some a =>
    if (f a).decisionNote.all textOk then .ok [.approval { f a with id := a.id }] else .error .data

def transitionMessage (fromState toState : CommandState) : String :=
  "Cannot transition " ++ fromState.value ++ " -> " ++ toState.value

def approveTransitions (commandId : UUID) : Op Unit := do
  let c₁ ← transitionCommand none commandId .approved .approval none
  let _ ← transitionCommand c₁ commandId .queued .approval none
  return ()

def queueApproved (commandId : UUID) : Op Unit := do
  match ← select fun d => d.commands.find commandId with
  | none => return ()
  | some command =>
    match ← select fun d => d.devices.find command.deviceId with
    | none => return ()
    | some device => addEvent .commandQueued .command command.id (readyMsg command device.id)

def finishDecision (d : Decision) (note : Option String) : Op Unit := do
  let _ ← execute [] (insertAudit
    { action := if d.approve then .approvalApproved else .approvalRejected, userId := d.ownerId,
      approvalId := some d.read.id, commandId := some d.read.commandId, note })
  commit (.decide d)

/-- `decide_approval('approve')` once `is_active` has answered. -/
def approveChecked (d : Decision) (note : Option String) (stopped : Bool) : Op Unit := do
  if stopped then
    raise (.api .emergencyStopActive "Emergency stop is active. Cannot queue commands." 423)
  else
    match ← (approveTransitions d.read.commandId).attempt with
    | .error (.stateTransition _ a b) => raise (.api .invalidState (transitionMessage a b) 409)
    | .error e => raise e
    | .ok _ =>
      queueApproved d.read.commandId
      finishDecision d note

def rejectDecision (d : Decision) (note : Option String) : Op Unit := do
  match ← (transitionCommand none d.read.commandId .rejected .approval none).attempt with
  | .error (.stateTransition _ a b) => raise (.api .invalidState (transitionMessage a b) 409)
  | .error e => raise e
  | .ok _ => finishDecision d note

/-- The answer is `none` when there is no such approval of this owner. -/
def decideApproval (P : Params) (approvalId ownerId : UUID) (approve : Bool) (nonce : String)
    (note : Option String) : Op (Option Unit) :=
  withSession do
    match ← select fun d => d.approvals.find approvalId with
    | none => return none
    | some approval =>
      if approval.ownerId ≠ ownerId then return none
      else if approval.status ≠ .pending then
        columnValue P
        raise (.api .approvalAlreadyDecided ("Approval already " ++ approval.status.value) 400)
      else
        let clock ← effect .now
        if approval.expiresAt < clock then
          let _ ← execute [.approval approvalId] (updateApproval approvalId fun a => { a with status := .expired })
          commit (.expireApproval approvalId)
          raise (.api .approvalExpired "Approval has expired" 400)
        else if P.sha256 nonce ≠ approval.decisionNonceHash then
          raise (.api .invalidDecisionNonce "Invalid decision nonce" 400)
        else
          let decidedAt ← effect .now
          let _ ← execute [.approval approvalId] (updateApproval approvalId fun a =>
            { a with
              status := if approve then .approved else .rejected
              decidedAt := some decidedAt
              decisionNote := note })
          let d : Decision := ⟨approvalId, ownerId, approve, nonce, approval, clock⟩
          if approve then
            let stopped ← isActive .decide ownerId
            approveChecked d note stopped
          else rejectDecision d note
          return some ()

/-- `UPDATE approvals SET status = 'expired' WHERE status = 'pending' AND expires_at < …`. -/
def expirePendingApprovals : Op Nat := do
  let now ← effect .now
  .call (.stmt (fun d => (overdue now d).map fun a => .approval a.id)
    (fun d => .ok ((overdue now d).map fun a => .approval { a with status := .expired })))
where
  overdue (now : Time) (d : DB) : List Approval :=
    d.approvals.rows.filter fun a => a.status == .pending && a.expiresAt < now

end Veyaan
