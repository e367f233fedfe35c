import Veyaan.Lib.Table
import Veyaan.States

/-!
# Tables

The rows of the database, with the columns that the modelled code reads or
writes, and the store made of them. Identifiers, timestamps and texts are
plain values; the enumerations are read back as enumeration members. What
PostgreSQL refuses to store (a text with a zero character, a value too long for
its column, a JSON value that `jsonb` has no form for) is a predicate here,
checked by the statements that write.
-/

namespace Veyaan

abbrev UUID := Nat
abbrev Time := Nat

/-! ## JSON -/

inductive Json where
  | null
  | bool (b : Bool)
  | num (m e : Int)
  /-- `NaN` or an infinity, which Python's `json` reads and writes. -/
  | nonFinite (s : String)
  | str (s : String)
  | arr (l : List Json)
  | obj (l : List (String × Json))

def textOk (s : String) : Bool := !s.toList.contains (Char.ofNat 0)

/-- A `VARCHAR(n)` column takes the string. -/
def varcharOk (n : Nat) (s : String) : Bool := decide (s.length ≤ n) && textOk s

mutual
def Json.storable : Json → Bool
  | .nonFinite _ => false
  | .str s => textOk s
  | .arr l => Json.storableAll l
  | .obj l => Json.storableFields l
  | _ => true
def Json.storableAll : List Json → Bool
  | [] => true
  | j :: l => j.storable && Json.storableAll l
def Json.storableFields : List (String × Json) → Bool
  | [] => true
  | (k, j) :: l => textOk k && j.storable && Json.storableFields l
end

/-! ## Rows -/

structure DeviceInfo where
  displayName : String
  deviceType : String
  operatingSystem : String
  appVersion : String
  protocolVersion : String
  devicePublicIdentity : String
  deriving DecidableEq

structure Device where
  id : UUID
  ownerId : UUID
  info : DeviceInfo
  trustStatus : DeviceStatus
  revokedAt : Option Time

structure DeviceCredential where
  id : UUID
  deviceId : UUID
  credentialHash : String
  expiresAt : Option Time
  revokedAt : Option Time

structure Command where
  id : UUID
  deviceId : UUID
  commandType : String
  parameters : Json
  riskLevel : RiskLevel
  idempotencyKey : String
  state : CommandState
  requiresApproval : Bool
  delayedExecutionAllowed : Bool
  expiresAt : Option Time
  deliveredAt : Option Time
  acknowledgedAt : Option Time
  startedAt : Option Time
  finishedAt : Option Time
  resultData : Option Json
  resultSummary : Option String
  errorCode : Option String
  errorMessage : Option String
  updatedAt : Time

structure Task where
  id : UUID
  commandId : UUID
  state : TaskState
  resultSummary : Option String
  errorCode : Option String
  errorMessage : Option String

/-- The values of `event_source`. -/
inductive Source where
  | api
  | approval
  | gateway
  | device
  | scheduler
  | emergencyStopActivation
  | outboxEnforcement
  deriving DecidableEq, Repr

inductive Lifecycle where
  | delivered
  | acknowledged
  | progress
  | result
  deriving DecidableEq, Repr

/-- A `dedup_key`: `delivered:<id>`, `acknowledged:<id>`, `progress_first:<id>`
or `result:<id>`. -/
structure DedupKey where
  kind : Lifecycle
  commandId : UUID
  deriving DecidableEq, Repr

/-- The `metadata` dictionary of a transition. For `result_data` the code asks
whether the key is there; for the others a missing key reads as `None`. -/
structure Metadata where
  resultData : Option (Option Json) := none
  resultSummary : Option String := none
  errorCode : Option String := none
  errorMessage : Option String := none
  dedupKey : Option DedupKey := none

structure CommandStateEvent where
  commandId : UUID
  previousState : Option CommandState
  newState : CommandState
  eventSource : Source
  eventMetadata : Option Metadata

structure Approval where
  id : UUID
  commandId : UUID
  ownerId : UUID
  riskLevel : RiskLevel
  actionTitle : String
  actionDescription : String
  status : ApprovalStatus
  decisionNonceHash : String
  expiresAt : Time
  decidedAt : Option Time
  decisionNote : Option String

structure EmergencyStop where
  ownerId : UUID
  active : Bool
  reason : Option String
  activatedAt : Option Time
  releasedAt : Option Time
  activatedBy : Option UUID
  releasedBy : Option UUID

structure PairingRequest where
  id : UUID
  info : DeviceInfo
  pairingCodeHash : String
  attemptCount : Nat
  ownerId : Option UUID
  status : PairingStatus
  expiresAt : Time
  confirmedAt : Option Time
  deriving DecidableEq

/-! ## Outbox events and their payloads -/

/-- The payload of a `command.queued` event: what the gateway is sent. -/
structure ReadyPayload where
  commandId : UUID
  deviceId : UUID
  commandType : String
  parameters : Json
  expiresAt : Option Time
  riskLevel : RiskLevel

structure StopPayload where
  ownerId : UUID
  active : Bool
  reason : Option String
  timestamp : Time

inductive AggregateType where
  | command
  | owner
  | device
  deriving DecidableEq, Repr

inductive EventType where
  | commandQueued
  | emergencyStopActivated
  | emergencyStopReleased
  | deviceRevoked
  deriving DecidableEq, Repr

/-- The text stored in the column `event_type`. -/
def EventType.text : EventType → String
  | .commandQueued => "command.queued"
  | .emergencyStopActivated => "emergency_stop.activated"
  | .emergencyStopReleased => "emergency_stop.released"
  | .deviceRevoked => "device.revoked"

/-- `"queued" in event.event_type`. -/
def EventType.hasQueued : EventType → Bool
  | .commandQueued => true
  | .emergencyStopActivated => false
  | .emergencyStopReleased => false
  | .deviceRevoked => false

/-- What a lifecycle handler reads of its message with `payload.get`. A
`command_id` that is no UUID reads as `none`. -/
structure LifecyclePayload where
  commandId : Option UUID
  deviceId : Option UUID
  accepted : Option Bool := none
  rejectionReason : Option String := none
  progressPercent : Option Int := none
  stage : Option String := none
  success : Option Bool := none
  resultData : Option Json := none
  errorCode : Option String := none
  errorMessage : Option String := none

inductive Msg where
  | commandReady (deviceId : UUID) (payload : ReadyPayload)
  | lifecycle (kind : Lifecycle) (commandId : UUID) (payload : LifecyclePayload)
  | emergencyStop (ownerId : UUID) (payload : StopPayload)
  | emergencyResume (ownerId : UUID) (payload : StopPayload)
  | deviceLifecycle (deviceId : UUID) (state : String) (ownerId : Option UUID)

structure OutboxEvent where
  id : UUID
  aggregateType : AggregateType
  aggregateId : UUID
  eventType : EventType
  msg : Msg
  status : OutboxEventStatus
  availableAt : Time
  attemptCount : Nat
  publishedAt : Option Time

/-- A `command.queued` event of a command, as the publisher recognises it. -/
def OutboxEvent.isQueued (e : OutboxEvent) : Bool :=
  e.aggregateType == .command && e.eventType.hasQueued

def OutboxEvent.stop (e : OutboxEvent) : Option (UUID × Bool) :=
  match e.eventType with
  | .emergencyStopActivated => some (e.aggregateId, true)
  | .emergencyStopReleased => some (e.aggregateId, false)
  | _ => none

inductive AuditAction where
  | approvalApproved
  | approvalRejected
  | emergencyStopActivated
  | emergencyStopReleased
  | devicePairConfirmed
  | deviceRevoked
  deriving DecidableEq, Repr

structure AuditLog where
  action : AuditAction
  userId : UUID
  approvalId : Option UUID := none
  commandId : Option UUID := none
  deviceId : Option UUID := none
  /-- `note`, `reason` or `device_name` in the metadata. -/
  note : Option String := none
  /-- `owner_id` in the metadata. -/
  ownerId : Option UUID := none

def AuditLog.stop (a : AuditLog) : Option (UUID × Bool) :=
  match a.action with
  | .emergencyStopActivated => a.ownerId.map (·, true)
  | .emergencyStopReleased => a.ownerId.map (·, false)
  | _ => none

instance : Keyed Device UUID := ⟨Device.id⟩
instance : Keyed DeviceCredential UUID := ⟨DeviceCredential.id⟩
instance : Keyed Command UUID := ⟨Command.id⟩
/-- `command_id` is unique in `tasks`. -/
instance : Keyed Task UUID := ⟨Task.commandId⟩
instance : Keyed Approval UUID := ⟨Approval.id⟩
/-- `owner_id` is unique in `emergency_stops`. -/
instance : Keyed EmergencyStop UUID := ⟨EmergencyStop.ownerId⟩
instance : Keyed PairingRequest UUID := ⟨PairingRequest.id⟩
instance : Keyed OutboxEvent UUID := ⟨OutboxEvent.id⟩

@[simp] theorem key_device (d : Device) : key d = d.id := rfl
@[simp] theorem key_credential (c : DeviceCredential) : key c = c.id := rfl
@[simp] theorem key_command (c : Command) : key c = c.id := rfl
@[simp] theorem key_task (t : Task) : key t = t.commandId := rfl
@[simp] theorem key_approval (a : Approval) : key a = a.id := rfl
@[simp] theorem key_stop (s : EmergencyStop) : key s = s.ownerId := rfl
@[simp] theorem key_pairing (p : PairingRequest) : key p = p.id := rfl
@[simp] theorem key_outbox (e : OutboxEvent) : key e = e.id := rfl

/-! ## The store -/

structure DB where
  /-- The identifiers in `users`, which the modelled code never writes. -/
  users : List UUID
  devices : Table Device
  credentials : Table DeviceCredential
  pairings : Table PairingRequest
  commands : Table Command
  tasks : Table Task
  events : List CommandStateEvent
  approvals : Table Approval
  stops : Table EmergencyStop
  outbox : Table OutboxEvent
  audits : List AuditLog

inductive Key where
  | device (id : UUID)
  | credential (id : UUID)
  | command (id : UUID)
  | task (commandId : UUID)
  | approval (id : UUID)
  | stop (ownerId : UUID)
  | outbox (id : UUID)
  | pairing (id : UUID)
  | idempotency (deviceId : UUID) (idempotencyKey : String)
  | approvalOf (commandId : UUID)
  deriving DecidableEq, Repr

inductive Row where
  | device (r : Option Device)
  | credential (r : Option DeviceCredential)
  | command (r : Option Command)
  | task (r : Option Task)
  | approval (r : Option Approval)
  | stop (r : Option EmergencyStop)
  | outbox (r : Option OutboxEvent)
  | pairing (r : Option PairingRequest)
  | index

inductive Write where
  | device (r : Device)
  | credential (r : DeviceCredential)
  | command (c : Command)
  | task (t : Task)
  | event (e : CommandStateEvent)
  | approval (a : Approval)
  | stop (s : EmergencyStop)
  | outbox (e : OutboxEvent)
  | pairing (p : PairingRequest)
  | audit (a : AuditLog)

def Write.apply : Write → DB → DB
  | .device r, d => { d with devices := d.devices.put r }
  | .credential r, d => { d with credentials := d.credentials.put r }
  | .command c, d => { d with commands := d.commands.put c }
  | .task t, d => { d with tasks := d.tasks.put t }
  | .event e, d => { d with events := d.events ++ [e] }
  | .approval a, d => { d with approvals := d.approvals.put a }
  | .stop s, d => { d with stops := d.stops.put s }
  | .outbox e, d => { d with outbox := d.outbox.put e }
  | .pairing p, d => { d with pairings := d.pairings.put p }
  | .audit a, d => { d with audits := d.audits ++ [a] }

def Write.keys : Write → List Key
  | .device r => [.device r.id]
  | .credential r => [.credential r.id]
  | .command c => [.command c.id]
  | .task t => [.task t.commandId]
  | .event _ => []
  | .approval a => [.approval a.id]
  | .stop s => [.stop s.ownerId]
  | .outbox e => [.outbox e.id]
  | .pairing p => [.pairing p.id]
  | .audit _ => []

def DB.row : Key → DB → Row
  | .device id, d => .device (d.devices.find id)
  | .credential id, d => .credential (d.credentials.find id)
  | .command id, d => .command (d.commands.find id)
  | .task id, d => .task (d.tasks.find id)
  | .approval id, d => .approval (d.approvals.find id)
  | .stop id, d => .stop (d.stops.find id)
  | .outbox id, d => .outbox (d.outbox.find id)
  | .pairing id, d => .pairing (d.pairings.find id)
  | .idempotency .., _ => .index
  | .approvalOf .., _ => .index

theorem row_frame (w : Write) (d : DB) (k : Key) (h : k ∉ w.keys) : (w.apply d).row k = d.row k := by
  cases w <;> cases k <;> simp_all [Write.apply, Write.keys, DB.row, Table.find_put, eq_comm]

theorem row_sets (w : Write) (d d' : DB) (k : Key) (h : k ∈ w.keys) :
    (w.apply d).row k = (w.apply d').row k := by
  cases w <;> cases k <;> simp_all [Write.apply, Write.keys, DB.row, Table.find_put]

def DB.ownerOf (d : DB) (deviceId : UUID) : Option UUID := (d.devices.find deviceId).map Device.ownerId

def DB.history (d : DB) (id : UUID) : List CommandStateEvent := d.events.filter (·.commandId == id)

def DB.isUser (d : DB) (id : UUID) : Bool := d.users.contains id

/-- A foreign key to `users` may be updated so: it is looked at when it changes. -/
def DB.refers (d : DB) (old new : Option UUID) : Bool := new == old || new.all d.isUser

def DB.stopActive (d : DB) (ownerId : UUID) : Bool :=
  match d.stops.find ownerId with
  | some s => s.active
  | none => false

end Veyaan
