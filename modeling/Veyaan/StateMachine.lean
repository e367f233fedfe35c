import Veyaan.Runtime

/-!
# `transition_command`

The one way in which the code changes the state of a command that exists.
The row is selected `FOR UPDATE`, but an instance that the session has loaded
before keeps the attributes it was loaded with: `loaded` is that instance. The
decision is made on it, and the flush writes the columns that were assigned a
new value, through the trigger.
-/

namespace Veyaan

/-- The attributes that `transition_command` assigns. -/
def Command.transition (new : CommandState) (updatedAt now : Time) (m : Option Metadata) (c : Command) :
    Command :=
  let c := { c with state := new, updatedAt := updatedAt }
  match new with
  | .delivered => { c with deliveredAt := some now }
  | .acknowledged => { c with acknowledgedAt := some now }
  | .running => { c with startedAt := some now }
  | .succeeded =>
    { c with
      finishedAt := some now
      resultData := (m.bind Metadata.resultData).getD c.resultData
      resultSummary := (m.bind Metadata.resultSummary).or c.resultSummary }
  | .failed =>
    { c with
      finishedAt := some now
      errorCode := m.elim c.errorCode Metadata.errorCode
      errorMessage := m.elim c.errorMessage Metadata.errorMessage }
  | .timedOut => { c with finishedAt := some now }
  | .cancelled => { c with finishedAt := some now }
  | .expired => { c with finishedAt := some now }
  | _ => c

def Command.storable (c : Command) : Bool :=
  c.errorCode.all (varcharOk 50) && c.errorMessage.all textOk && c.resultData.all Json.storable &&
    c.resultSummary.all textOk

def Metadata.storable (m : Metadata) : Bool :=
  (m.resultData.join.all Json.storable) && m.resultSummary.all textOk && m.errorCode.all textOk &&
    m.errorMessage.all textOk

/-- The row after the flush. `state` is among the updated columns only if the
instance had another state. -/
def Command.flushed (loaded : Command) (new : CommandState) (updatedAt now : Time) (m : Option Metadata)
    (row : Command) : Command :=
  { row.transition new updatedAt now m with state := if loaded.state = new then row.state else new }

/-- `UPDATE commands SET … WHERE id = …`. -/
def updateCommand (loaded : Command) (new : CommandState) (updatedAt now : Time) (source : Source)
    (m : Option Metadata) (d : DB) : Except Err (List Write) :=
  match d.commands.find loaded.id with
  | none => .error .db
  | some row =>
    if loaded.state ≠ new ∧ validateCommandStateTransition row.state new = false then
      .error (.trigger ⟨row.id, loaded.state, row.state, new, source⟩)
    else if (loaded.flushed new updatedAt now m row).storable then
      .ok [.command (loaded.flushed new updatedAt now m row)]
    else .error .data

/-- `INSERT INTO command_state_events`. -/
def insertEvent (e : CommandStateEvent) (_ : DB) : Except Err (List Write) :=
  if e.eventMetadata.all Metadata.storable then .ok [.event e] else .error .data

def transitionCommand (loaded : Option Command) (commandId : UUID) (newState : CommandState)
    (source : Source) (metadata : Option Metadata) : Op (Option Command) := do
  match ← selectForUpdate (fun d => d.commands.find commandId) (fun c => .command c.id)
      (some (.transition (loaded.map Command.state) commandId newState source)) with
  | none => return none
  | some row =>
    let command := loaded.getD row
    if accepts command.state newState then
      let updatedAt ← effect .now
      let now ← effect .now
      let _ ← execute [.command commandId] (updateCommand command newState updatedAt now source metadata)
      let _ ← execute [] (insertEvent ⟨command.id, some command.state, newState, source, metadata⟩)
      return some (command.transition newState updatedAt now metadata)
    else raise (.stateTransition commandId command.state newState)

/-! ## What a transition keeps -/

structure Command.Same (c c' : Command) : Prop where
  id : c'.id = c.id
  deviceId : c'.deviceId = c.deviceId
  commandType : c'.commandType = c.commandType
  parameters : c'.parameters = c.parameters
  idempotencyKey : c'.idempotencyKey = c.idempotencyKey
  riskLevel : c'.riskLevel = c.riskLevel
  requiresApproval : c'.requiresApproval = c.requiresApproval
  expiresAt : c'.expiresAt = c.expiresAt

theorem Command.Same.refl (c : Command) : c.Same c := ⟨rfl, rfl, rfl, rfl, rfl, rfl, rfl, rfl⟩

theorem Command.Same.trans {a b c : Command} (h : a.Same b) (h' : b.Same c) : a.Same c :=
  ⟨h'.id.trans h.id, h'.deviceId.trans h.deviceId, h'.commandType.trans h.commandType,
    h'.parameters.trans h.parameters, h'.idempotencyKey.trans h.idempotencyKey, h'.riskLevel.trans h.riskLevel,
    h'.requiresApproval.trans h.requiresApproval, h'.expiresAt.trans h.expiresAt⟩

theorem Command.transition_same (new : CommandState) (u n : Time) (m : Option Metadata) (c : Command) :
    c.Same (c.transition new u n m) := by
  cases new <;> exact ⟨rfl, rfl, rfl, rfl, rfl, rfl, rfl, rfl⟩

theorem Command.flushed_same (loaded : Command) (new : CommandState) (u n : Time) (m : Option Metadata)
    (row : Command) : row.Same (loaded.flushed new u n m row) :=
  have h := row.transition_same new u n m
  ⟨h.id, h.deviceId, h.commandType, h.parameters, h.idempotencyKey, h.riskLevel, h.requiresApproval, h.expiresAt⟩

@[simp] theorem Command.transition_state (new : CommandState) (u n : Time) (m : Option Metadata)
    (c : Command) : (c.transition new u n m).state = new := by
  cases new <;> rfl

/-- A flush of an instance that is up to date does what the code assigned. -/
theorem Command.flushed_self (new : CommandState) (u n : Time) (m : Option Metadata) (row : Command) :
    row.flushed new u n m row = row.transition new u n m := by
  have h : (if row.state = new then row.state else new) = (row.transition new u n m).state := by
    rw [transition_state]; split
    · assumption
    · rfl
  unfold Command.flushed
  rw [h]

end Veyaan
