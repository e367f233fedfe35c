import Veyaan.Lib.UnitOfWork
import Veyaan.StateMachine

/-!
# `transition_command` in any session

The function once more, for every session and all of its data: the whole row of
the command, any dictionary as metadata, and a session that may hold an instance
of the command from before. `SELECT … FOR UPDATE` locks the row and returns that
instance as it is; the flush writes the columns in which the instance has been
given another value, and the trigger looks at the row.

A session is taken as it is when its own changes have been written, which
`session.execute` sees to before anything else. One whose changes cannot be
written raises there, as one does that waits for its rollback.
-/

namespace Veyaan

namespace Orm

open UnitOfWork (Patch Mapper)

/-! ## The table of commands -/

inductive Column where
  | id
  | deviceId
  | commandType
  | parameters
  | riskLevel
  | idempotencyKey
  | requestFingerprint
  | state
  | requiresApproval
  | delayedExecutionAllowed
  | expiresAt
  | deliveredAt
  | acknowledgedAt
  | startedAt
  | finishedAt
  | resultData
  | resultSummary
  | errorCode
  | errorMessage
  | createdAt
  | updatedAt
  deriving DecidableEq

abbrev Column.Value : Column → Type
  | .id | .deviceId => UUID
  | .commandType | .idempotencyKey => String
  | .requestFingerprint => Option String
  | .riskLevel => RiskLevel
  | .state => CommandState
  | .requiresApproval | .delayedExecutionAllowed => Bool
  | .expiresAt | .deliveredAt | .acknowledgedAt | .startedAt | .finishedAt => Option Time
  | .parameters | .resultData | .resultSummary | .errorCode | .errorMessage => Json
  | .createdAt | .updatedAt => Time

abbrev Row := UnitOfWork.Row Column.Value

instance : Keyed Row UUID := ⟨fun r => r .id⟩

@[simp] theorem key_row (r : Row) : key r = r .id := rfl

def textColumn (ok : String → Bool) : Json → Bool
  | .null => true
  | .str s => ok s
  | _ => false

def mapper (eq : Json → Json → Bool) : Mapper Column.Value where
  columns := [.id, .deviceId, .commandType, .parameters, .riskLevel, .idempotencyKey, .requestFingerprint, .state,
    .requiresApproval, .delayedExecutionAllowed, .expiresAt, .deliveredAt, .acknowledgedAt, .startedAt, .finishedAt,
    .resultData, .resultSummary, .errorCode, .errorMessage, .createdAt, .updatedAt]
  mem_columns := by
    intro k
    cases k <;> decide
  same
    | .id | .deviceId => fun (a b : Nat) => a == b
    | .commandType | .idempotencyKey => fun (a b : String) => a == b
    | .requestFingerprint => fun (a b : Option String) => a == b
    | .riskLevel => fun (a b : RiskLevel) => a == b
    | .state => fun (a b : CommandState) => a == b
    | .requiresApproval | .delayedExecutionAllowed => fun (a b : Bool) => a == b
    | .expiresAt | .deliveredAt | .acknowledgedAt | .startedAt | .finishedAt => fun (a b : Option Time) => a == b
    | .parameters | .resultData | .resultSummary | .errorCode | .errorMessage => eq
    | .createdAt | .updatedAt => fun (a b : Nat) => a == b
  takes
    | .commandType => varcharOk 100
    | .idempotencyKey => varcharOk 255
    | .requestFingerprint => Option.all (varcharOk 64)
    | .parameters | .resultData => Json.storable
    | .resultSummary | .errorMessage => textColumn textOk
    | .errorCode => textColumn (varcharOk 50)
    | _ => fun _ => true

/-- `onupdate=func.now()`. -/
def onUpdate (txNow : Time) : Patch Column.Value := UnitOfWork.set UnitOfWork.blank .updatedAt txNow

/-! ## Metadata and events -/

abbrev Fields := List (String × Json)

def field (metadata : Option Fields) (key : String) : Option Json :=
  metadata.bind fun fields => fields.reverse.lookup key

/-- `command_state_events`, without `id` and `created_at`. -/
structure StateEvent where
  commandId : UUID
  previousState : CommandState
  newState : CommandState
  eventSource : String
  eventMetadata : Json
  deduplicationKey : Option String

def eventMetadata (metadata : Option Fields) : Json := metadata.elim .null .obj

def StateEvent.storable (e : StateEvent) : Bool :=
  varcharOk 50 e.eventSource && e.eventMetadata.storable && e.deduplicationKey.all (varcharOk 64)

/-! ## Sessions -/

inductive Failure where
  | stateTransition (commandId : UUID) (fromState toState : CommandState)
  | refused
  | pendingRollback

structure Session (ρ : Type) where
  commands : Table Row
  events : List StateEvent
  others : ρ
  instances : Table Row
  failed : Bool

/-- What the clocks show during a call: the two readings of the program, and `now()`,
the time at which the transaction began. -/
structure Clock where
  updatedAt : Time
  now : Time
  txNow : Time

variable {ρ : Type}

def Session.fail (s : Session ρ) : Session ρ := { s with failed := true }

/-- What `scalar_one_or_none` returns for the row: an instance that the session has keeps its values. -/
def Session.instanceOf (s : Session ρ) (commandId : UUID) (row : Row) : Row := (s.instances.find commandId).getD row

/-- `UPDATE commands SET … WHERE id = …` of the flush; `none` when a column refuses its
value, or the trigger the state. -/
def Session.flush (eq : Json → Json → Bool) (clock : Clock) (row command : Row) (assigned : Patch Column.Value)
    (s : Session ρ) : Option (Session ρ) :=
  let changes := (mapper eq).changes command assigned
  if (mapper eq).takesAll changes = false then none
  else if (changes .state).any fun new => !validateCommandStateTransition (row .state) new then none
  else some { s with
    commands := s.commands.put ((mapper eq).update (onUpdate clock.txNow) command assigned row)
    instances := s.instances.put (UnitOfWork.apply command assigned) }

/-- `session.add(event)`, and the flush. -/
def Session.add (e : StateEvent) (s : Session ρ) : Option (Session ρ) :=
  if e.storable then some { s with events := s.events ++ [e] } else none

/-! ## The function -/

/-- What is assigned for the target beside `state` and `updated_at`. -/
def outcome (newState : CommandState) (now : Time) (metadata : Option Fields) : Patch Column.Value :=
  let finished := UnitOfWork.set UnitOfWork.blank Column.finishedAt (some now)
  match newState with
  | .delivered => UnitOfWork.set UnitOfWork.blank .deliveredAt (some now)
  | .acknowledged => UnitOfWork.set UnitOfWork.blank .acknowledgedAt (some now)
  | .running => UnitOfWork.set UnitOfWork.blank .startedAt (some now)
  | .succeeded =>
    let p := (field metadata "result_data").elim finished (UnitOfWork.set finished .resultData)
    (field metadata "result_summary").elim p (UnitOfWork.set p .resultSummary)
  | .failed =>
    match metadata with
    | none | some [] => finished
    | metadata =>
      let p := UnitOfWork.set finished .errorCode ((field metadata "error_code").getD .null)
      UnitOfWork.set p .errorMessage ((field metadata "error_message").getD .null)
  | .timedOut | .cancelled | .expired => finished
  | _ => UnitOfWork.blank

def assigned (newState : CommandState) (clock : Clock) (metadata : Option Fields) : Patch Column.Value :=
  UnitOfWork.set (UnitOfWork.set (outcome newState clock.now metadata) .state newState) .updatedAt clock.updatedAt

def transitionCommand (eq : Json → Json → Bool) (clock : Clock) (commandId : UUID) (newState : CommandState)
    (eventSource : String) (metadata : Option Fields) (s : Session ρ) : Except Failure (Option Row) × Session ρ :=
  if s.failed then (.error .pendingRollback, s)
  else
    match s.commands.find commandId with
    | none => (.ok none, s)
    | some row =>
      let command := s.instanceOf commandId row
      let s := { s with instances := s.instances.put command }
      let currentState : CommandState := command .state
      if currentState ∈ terminalStates ∧ currentState ≠ newState then
        (.error (.stateTransition commandId currentState newState), s)
      else if newState ∉ allowedTransitions currentState ∧ currentState ≠ newState then
        (.error (.stateTransition commandId currentState newState), s)
      else
        match s.flush eq clock row command (assigned newState clock metadata) with
        | none => (.error .refused, s.fail)
        | some s =>
          match s.add ⟨command .id, currentState, newState, eventSource, eventMetadata metadata, none⟩ with
          | none => (.error .refused, s.fail)
          | some s => (.ok (some (UnitOfWork.apply command (assigned newState clock metadata))), s)

end Orm

end Veyaan
