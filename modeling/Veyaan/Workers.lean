import Veyaan.Devices

/-!
# The workers

The outbox publisher and the scheduler. Each run of theirs is one transaction
over many rows, which are claimed with `SKIP LOCKED`; an exception of one row
is caught inside the loop, and the transaction goes on if it still can.
-/

namespace Veyaan

/-! ## `OutboxPublisher` -/

def getUnpublished (limit : Nat) : Op (List OutboxEvent) := do
  let now ← effect .now
  .call (.skipLocked (fun d => d.outbox.rows.filter fun e => e.status == .pending && e.availableAt ≤ now)
    (fun e => .outbox e.id) limit)

/-- The emergency-stop branch: the command is blocked if it can be, and the
event is given up. -/
def enforceStop (P : Params) (e : OutboxEvent) (command : Command) : Op Unit := do
  match ← (transitionCommand (some command) command.id .blockedByEmergencyStop .outboxEnforcement none).attempt with
  | .ok _ => pure ()
  | .error _ => logKeywords P
  markFailed e.id

def publishReady (e : OutboxEvent) : Op Bool := do
  effect (.publishJs e.msg (some e))
  markPublished e.id
  return true

/-- The publication of a `command.queued` event once `is_active` has answered. -/
def publishChecked (P : Params) (e : OutboxEvent) (command : Command) (stopped : Bool) : Op Bool := do
  if stopped then
    enforceStop P e command
    return false
  else publishReady e

/-- The body of the `try`; whether the event was published. -/
def publishEvent (P : Params) (e : OutboxEvent) : Op Bool := do
  if e.isQueued then
    match ← select fun d => d.commands.find e.aggregateId with
    | none => publishReady e
    | some command =>
      match ← select fun d => d.devices.find command.deviceId with
      | none => publishReady e
      | some device =>
        let stopped ← isActive (.publish e) device.ownerId
        publishChecked P e command stopped
  else publishReady e

/-- The `except` branch: another attempt later, or none. -/
def retryEvent (P : Params) (e : OutboxEvent) : Op Nat := do
  logKeywords P
  if 3 ≤ e.attemptCount then markFailed e.id else incrementAttempt e.id
  return 0

def processEvent (P : Params) (e : OutboxEvent) : Op Nat := do
  match ← (publishEvent P e).attempt with
  | .ok published => return published.toNat
  | .error _ => retryEvent P e

def processEvents (P : Params) : List OutboxEvent → Op Nat
  | [] => return 0
  | e :: es => do
    let m ← processEvent P e
    let n ← processEvents P es
    return m + n

def processBatch (P : Params) : Op Nat :=
  withSession do
    let events ← getUnpublished 100
    if events.isEmpty then return 0
    else
      let published ← processEvents P events
      commit .batch
      return published

/-! ## `SchedulerWorker` -/

/-- `UPDATE pairing_requests SET status = 'expired' WHERE …`. -/
def expireStalePairings : Op Nat := do
  let now ← effect .now
  .call (.stmt (fun d => (stale now d).map fun p => .pairing p.id)
    (fun d => .ok ((stale now d).map fun p => .pairing { p with status := .expired })))
where
  stale (now : Time) (d : DB) : List PairingRequest :=
    d.pairings.rows.filter fun p => p.status == .pending && p.expiresAt < now

def Task.storable (t : Task) : Bool :=
  t.resultSummary.all textOk && t.errorCode.all (varcharOk 50) && t.errorMessage.all textOk

/-- `UPDATE tasks SET … WHERE …`, on a row that is there. -/
def updateTask (commandId : UUID) (f : Task → Task) (d : DB) : Except Err (List Write) :=
  match d.tasks.find commandId with
  | none => .error .db
  | some t =>
    if (f t).storable then .ok [.task { f t with commandId := t.commandId }] else .error .data

def nonTerminal : List CommandState := [.queued, .awaitingApproval, .approved, .delivered]

def expireTask (commandId : UUID) : Op Unit := do
  match (← Prog.call (.skipLocked (fun d => (d.tasks.find commandId).toList)
    (fun t => Key.task t.commandId) 1)).head? with
  | none => return ()
  | some task =>
    if task.state ∈ [.succeeded, .failed, .cancelled] then return ()
    else
      let _ ← execute [.task commandId] (updateTask commandId fun t =>
        { t with state := .failed, resultSummary := some "expired" })
      return ()

def expireCommand (P : Params) (command : Command) : Op Nat := do
  match ← (do
      let _ ← transitionCommand (some command) command.id .expired .scheduler none
      expireTask command.id : Op Unit).attempt with
  | .ok _ => return 1
  | .error _ =>
    logKeywords P
    return 0

def expireAll (P : Params) : List Command → Op Nat
  | [] => return 0
  | c :: cs => do
    let m ← expireCommand P c
    let n ← expireAll P cs
    return m + n

def expireCommands (P : Params) : Op Nat := do
  let now ← effect .now
  let commands ← Prog.call (.skipLocked
    (fun d => d.commands.rows.filter fun c => c.state ∈ nonTerminal && c.expiresAt.any (· < now))
    (fun c => Key.command c.id) 100)
  expireAll P commands

/-- `logger.info(text, count=n)` when there was anything to count. -/
def logCount (P : Params) (n : Nat) : Op Unit := if n = 0 then return () else logKeywords P

/-- The transaction of `run_tasks`. -/
def runTasks (P : Params) : Op Unit :=
  withSession do
    let expiredPairings ← expireStalePairings
    logCount P expiredPairings
    let expiredApprovals ← expirePendingApprovals
    logCount P expiredApprovals
    let expiredCommands ← expireCommands P
    logCount P expiredCommands
    commit .expire

end Veyaan
