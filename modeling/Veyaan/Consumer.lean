import Veyaan.Workers

/-!
# The lifecycle consumer

The four handlers of `command_consumer.py`, and what becomes of a message
after its handler: an acknowledgement when it returns, a negative one when it
raises. A handler that finds its message out of order returns, too.
-/

namespace Veyaan

/-- `_is_duplicate`. More than one matching row makes `scalar_one_or_none` raise. -/
def isDuplicate (commandId : UUID) (key : DedupKey) : Op Bool := do
  match ← select fun d => d.events.filter fun e =>
      e.commandId == commandId && (e.eventMetadata.bind Metadata.dedupKey) == some key with
  | [] => return false
  | [_] => return true
  | _ => raise .multipleResults

/-- The columns that `_update_task_state` assigns. -/
def Task.update (state : TaskState) (resultSummary errorCode errorMessage : Option String) (t : Task) : Task :=
  { t with
    state
    resultSummary := resultSummary.or t.resultSummary
    errorCode := errorCode.or t.errorCode
    errorMessage := errorMessage.or t.errorMessage }

def updateTaskState (commandId : UUID) (state : TaskState) (resultSummary errorCode errorMessage : Option String) :
    Op Unit := do
  match ← selectForUpdate (fun d => d.tasks.find commandId) (fun t => .task t.commandId) with
  | none => return ()
  | some _ =>
    let _ ← execute [.task commandId] (updateTask commandId
      (Task.update state resultSummary errorCode errorMessage))
    return ()

/-- `SELECT … FROM commands … FOR UPDATE` of a handler. -/
def lockForMessage (kind : Lifecycle) (p : LifecyclePayload) (commandId : UUID) : Op (Option Command) :=
  selectForUpdate (fun d => d.commands.find commandId) (fun c => .command c.id) (some (.handled kind p commandId))

/-- What the handlers with a duplicate check have in common: `body` stands in
the `try`, `after` behind it. -/
def handleOnce (kind : Lifecycle) (p : LifecyclePayload) (body : Command → Op Unit) (after : UUID → Op Unit) :
    Op Unit :=
  match p.commandId with
  | none => return ()
  | some commandId => withSession do
    if ← isDuplicate commandId ⟨kind, commandId⟩ then return ()
    else
      match ← lockForMessage kind p commandId with
      | none => return ()
      | some command =>
        if p.deviceId.any (command.deviceId ≠ ·) then return ()
        else
          match ← (body command).attempt with
          | .error (.stateTransition ..) => return ()
          | .error e => raise e
          | .ok _ =>
            after commandId
            commit (.handle kind p)

def handleDelivered (p : LifecyclePayload) : Op Unit :=
  handleOnce .delivered p
    (fun command => do
      let _ ← transitionCommand (some command) command.id .delivered .gateway
        (some { dedupKey := some ⟨.delivered, command.id⟩ })
      return ())
    (fun commandId => updateTaskState commandId .running none none none)

def handleAcknowledged (p : LifecyclePayload) : Op Unit :=
  handleOnce .acknowledged p
    (fun command => do
      if p.accepted.getD true then
        let _ ← transitionCommand (some command) command.id .acknowledged .device
          (some { dedupKey := some ⟨.acknowledged, command.id⟩ })
        return ()
      else
        let _ ← transitionCommand (some command) command.id .failed .device
          (some { errorMessage := p.rejectionReason, dedupKey := some ⟨.acknowledged, command.id⟩ })
        updateTaskState command.id .failed none none p.rejectionReason)
    (fun _ => return ())

/-- No duplicate check and no device check; only the first message in state
`ACKNOWLEDGED` has an effect. -/
def handleProgress (p : LifecyclePayload) : Op Unit :=
  match p.commandId with
  | none => return ()
  | some commandId => withSession do
    match ← lockForMessage .progress p commandId with
    | none => return ()
    | some command =>
      if command.state = .acknowledged then
        match ← (do
            let _ ← transitionCommand (some command) commandId .running .device
              (some { dedupKey := some ⟨.progress, commandId⟩ })
            updateTaskState commandId .running none none none : Op Unit).attempt with
        | .error (.stateTransition ..) => pure ()
        | .error e => raise e
        | .ok _ => pure ()
      else pure ()
      commit (.handle .progress p)

def handleResult (p : LifecyclePayload) : Op Unit :=
  handleOnce .result p
    (fun command => do
      if p.success.getD false then
        let _ ← transitionCommand (some command) command.id .succeeded .device
          (some { resultData := some p.resultData, resultSummary := some "success",
                  dedupKey := some ⟨.result, command.id⟩ })
        updateTaskState command.id .succeeded (some "success") none none
      else
        let _ ← transitionCommand (some command) command.id .failed .device
          (some { errorCode := p.errorCode, errorMessage := p.errorMessage,
                  dedupKey := some ⟨.result, command.id⟩ })
        updateTaskState command.id .failed none p.errorCode p.errorMessage)
    (fun _ => return ())

/-- `_HANDLERS`. -/
def handler : Lifecycle → LifecyclePayload → Op Unit
  | .delivered => handleDelivered
  | .acknowledged => handleAcknowledged
  | .progress => handleProgress
  | .result => handleResult

def consume (kind : Lifecycle) (commandId : UUID) (p : LifecyclePayload) : Op Unit := do
  match ← (handler kind p).attempt with
  | .ok _ => effect (.ack (.lifecycle kind commandId p))
  | .error _ => effect (.nak (.lifecycle kind commandId p))

end Veyaan
