import Veyaan.Lib.Chain
import Veyaan.System

/-!
# What one step may do

The protocol that the services, the workers and the gateway follow, without
their programs: which transactions may commit in which state, what may be
published and sent, and what the trace entries say. `Act` is the guarantee that
every step of every process keeps; the invariants are proved for `Act` alone.
-/

open Relation (ReflTransGen)

namespace Veyaan

/-! ## Columns that do not change -/

structure OutboxEvent.Same (e e' : OutboxEvent) : Prop where
  id : e'.id = e.id
  aggregateType : e'.aggregateType = e.aggregateType
  aggregateId : e'.aggregateId = e.aggregateId
  eventType : e'.eventType = e.eventType
  msg : e'.msg = e.msg

structure Approval.Same (a a' : Approval) : Prop where
  id : a'.id = a.id
  commandId : a'.commandId = a.commandId
  ownerId : a'.ownerId = a.ownerId
  decisionNonceHash : a'.decisionNonceHash = a.decisionNonceHash
  expiresAt : a'.expiresAt = a.expiresAt

structure Device.Same (r r' : Device) : Prop where
  ownerId : r'.ownerId = r.ownerId
  info : r'.info = r.info
  revoked : r.trustStatus = .revoked → r'.trustStatus = .revoked

structure PairingRequest.Same (p p' : PairingRequest) : Prop where
  id : p'.id = p.id
  pairingCodeHash : p'.pairingCodeHash = p.pairingCodeHash
  expiresAt : p'.expiresAt = p.expiresAt
  attemptCount : p.attemptCount ≤ p'.attemptCount

/-- The outbox row is a `command.queued` event of the command. -/
def DB.QueuedEvent (d : DB) (commandId eventId : UUID) : Prop :=
  ∃ e, d.outbox.find eventId = some e ∧ e.isQueued = true ∧ e.aggregateId = commandId

def DB.Revoked (d : DB) (deviceId : UUID) : Prop :=
  ∃ r, d.devices.find deviceId = some r ∧ r.trustStatus = .revoked

def DB.Published (d : DB) (eventId : UUID) : Prop := ∃ e, d.outbox.find eventId = some e ∧ e.status = .published

def DB.Settled (d : DB) (commandId : UUID) : Prop :=
  ∃ c, d.commands.find commandId = some c ∧ c.state ≠ .awaitingApproval ∧ c.state ≠ .queued

/-! ## Transactions -/

def Lifecycle.target (p : LifecyclePayload) : Lifecycle → CommandState
  | .delivered => .delivered
  | .acknowledged => if p.accepted.getD true then .acknowledged else .failed
  | .progress => .running
  | .result => if p.success.getD false then .succeeded else .failed

def Tag.Moves (t : Tag) (id : UUID) (new : CommandState) : Prop :=
  match t with
  | .cancel c => id = c ∧ new = .cancelled
  | .decide d => d.approve = false ∧ id = d.read.commandId ∧ new = .rejected
  | .activate _ => new = .blockedByEmergencyStop
  | .batch => new = .blockedByEmergencyStop
  | .expire => new = .expired
  | .handle k p => new = k.target p
  | _ => False

def Tag.Touches (t : Tag) (id : UUID) : Prop :=
  match t with
  | .handle _ p => p.commandId = some id
  | _ => True

def Tag.stop : Tag → Option (UUID × Bool)
  | .activate o => some (o, true)
  | .release o => some (o, false)
  | _ => none

def Tag.notice : Tag → Option (UUID × Bool)
  | .activate o => some (o, true)
  | .reactivate o => some (o, true)
  | .release o => some (o, false)
  | _ => none

/-- An attempt of process `i` to publish the event raised, and it was the last
one. -/
def Exhausted (t : List (Nat × Ev)) (i : Nat) (eventId : UUID) : Prop :=
  ∃ e : OutboxEvent, e.id = eventId ∧ e.isQueued = true ∧ 3 ≤ e.attemptCount ∧
    ((i, Ev.publishFailed e.msg (some e)) ∈ t ∨ ∃ o, (i, Ev.stopRead (.publish e) o none) ∈ t ∨
      (i, Ev.cacheFailed (some (.publish e)) o) ∈ t)

/-- `transition_command` of process `i` has locked the row of the command, to move
its instance `l` of it to `new`, and the row has not changed since. -/
def Locked (s : St) (i : Nat) (l : Command) (new : CommandState) (source : Source) : Prop :=
  ∃ loaded row, (i, Ev.locked l.id new source loaded (some row)) ∈ s.trace ∧
    s.db.commands.find l.id = some row ∧ l.state = loaded.getD row.state ∧ accepts l.state new = true

def Tag.Decides (t : Tag) (a a' : Approval) : Prop :=
  match t with
  | .expire => a.status = .pending ∧ a' = { a with status := .expired }
  | .expireApproval id => a.id = id ∧ a' = { a with status := .expired }
  | .decide x => a.id = x.approvalId ∧
      a'.status = if x.approve then ApprovalStatus.approved else .rejected
  | _ => False

def Tag.audited : Tag → Option UUID
  | .decide x => some x.approvalId
  | _ => none

inductive Write.Allowed (i : Nat) (t : Tag) (s : St) (d : DB) : Write → Prop
  | command {l c new u n m source} : d.commands.find l.id = some c → Locked s i l new source → t.Touches l.id →
      (l.state = new ∨ t.Moves l.id new ∧ validateCommandStateTransition c.state new = true) →
      Allowed i t s d (.command (l.flushed new u n m c))
  | task {r r'} : d.tasks.find r'.commandId = some r → t.Touches r'.commandId → Allowed i t s d (.task r')
  | event {l new source m} : Locked s i l new source → t.Touches l.id →
      ((m.bind Metadata.dedupKey).isSome → d.Settled l.id) →
      Allowed i t s d (.event ⟨l.id, some l.state, new, source, m⟩)
  | approval {a a'} : d.approvals.find a'.id = some a → a.Same a' → t.Decides a a' → Allowed i t s d (.approval a')
  | stop {r} : t.stop = some (r.ownerId, r.active) → Allowed i t s d (.stop r)
  | notice {e} : d.outbox.find e.id = none → e.isQueued = false → (∀ k c p, e.msg ≠ .lifecycle k c p) →
      e.stop = t.notice → (∀ dev st o, e.msg = .deviceLifecycle dev st o → d.Revoked dev) →
      Allowed i t s d (.outbox e)
  | outbox {e e'} : d.outbox.find e'.id = some e → e.Same e' →
      (e'.status = .pending ∨ e'.status = .published ∨ e'.status = .failed ∧
        (e'.isQueued = true → d.Settled e'.aggregateId ∨ Exhausted s.trace i e'.id)) → e.status = .pending →
      Allowed i t s d (.outbox e')
  | device {r r'} : d.devices.find r'.id = some r → r.Same r' → Allowed i t s d (.device r')
  | newDevice {r a} : d.devices.find r.id = none → t = .confirmPairing a r.id → Allowed i t s d (.device r)
  | credential {r r'} : d.credentials.find r'.id = some r → Allowed i t s d (.credential r')
  | newCredential {r a dev} : d.credentials.find r.id = none → t = .confirmPairing a dev →
      Allowed i t s d (.credential r)
  | pairing {p p'} : d.pairings.find p'.id = some p → p.status = .pending → p.Same p' →
      Allowed i t s d (.pairing p')
  | newPairing {p} : d.pairings.find p.id = none → Allowed i t s d (.pairing p)
  | audit {a} : a.approvalId = t.audited → a.stop = t.stop → Allowed i t s d (.audit a)

def createdEvents (c : Command) : List CommandStateEvent :=
  [⟨c.id, none, .received, .api, none⟩, ⟨c.id, some .received, .validated, .api, none⟩,
    ⟨c.id, some .validated, c.state, .api, none⟩]

/-- `create_command` commits: a new command, which waits for its approval or
is queued together with its event. -/
structure Created (s : St) (i : Nat) (d : DB) (q : CreateCommandRequest) (c : Command) (r : Task) (o : UUID) :
    Prop where
  request : ∃ df, commandRegistry q.commandType = some df ∧
    c.requiresApproval = (df.requiresApproval || q.requiresApproval)
  device : c.deviceId = q.deviceId
  commandType : c.commandType = q.commandType
  idempotencyKey : c.idempotencyKey = q.idempotencyKey
  new : s.db.commands.find c.id = none
  owner : s.db.ownerOf c.deviceId = some o
  checked : (i, Ev.stopRead .create o (some false)) ∈ s.trace
  commands : d.commands = s.db.commands.put c
  task : r.commandId = c.id
  tasks : d.tasks = s.db.tasks.put r
  events : d.events = s.db.events ++ createdEvents c
  devices : d.devices = s.db.devices
  stops : d.stops = s.db.stops
  audits : d.audits = s.db.audits
  pairings : d.pairings = s.db.pairings
  credentials : d.credentials = s.db.credentials
  users : d.users = s.db.users
  form : (c.requiresApproval = true ∧ c.state = .awaitingApproval ∧ d.outbox = s.db.outbox ∧
      ∃ a, s.db.approvals.find a.id = none ∧ a.commandId = c.id ∧ a.ownerId = o ∧ a.status = .pending ∧
        d.approvals = s.db.approvals.put a) ∨
    (c.requiresApproval = false ∧ c.state = .queued ∧ d.approvals = s.db.approvals ∧
      ∃ e, s.db.outbox.find e.id = none ∧ e.isQueued = true ∧ e.aggregateId = c.id ∧ e.status = .pending ∧
        e.msg = readyMsg c c.deviceId ∧ d.outbox = s.db.outbox.put e)

theorem createdEvents_own {c : Command} : ∀ e ∈ createdEvents c, e.commandId = c.id ∧ e.eventMetadata = none := by
  simp [createdEvents]

structure Decision.Valid (P : Params) (d : Decision) : Prop where
  id : d.read.id = d.approvalId
  owner : d.read.ownerId = d.ownerId
  pending : d.read.status = .pending
  inTime : ¬ d.read.expiresAt < d.clock
  nonce : P.sha256 d.nonce = d.read.decisionNonceHash

/-- `decide_approval('approve')` commits: the command is queued together with
its event. -/
structure Approved (P : Params) (s : St) (i : Nat) (x : Decision) (d : DB) (c c' : Command) (e : OutboxEvent)
    (a a' : Approval) : Prop where
  valid : x.Valid P
  checked : (i, Ev.stopRead .decide x.ownerId (some false)) ∈ s.trace
  find : s.db.commands.find x.read.commandId = some c
  owner : s.db.ownerOf c.deviceId = some x.ownerId
  awaiting : c.state = .awaitingApproval
  same : c.Same c'
  queued : c'.state = .queued
  commands : d.commands = s.db.commands.put c'
  tasks : d.tasks = s.db.tasks
  events : ∃ es, d.events = s.db.events ++ es ∧ ∀ v ∈ es, v.commandId = c.id ∧ v.eventMetadata = none
  devices : d.devices = s.db.devices
  stops : d.stops = s.db.stops
  pairings : d.pairings = s.db.pairings
  credentials : d.credentials = s.db.credentials
  users : d.users = s.db.users
  new : s.db.outbox.find e.id = none
  isQueued : e.isQueued = true
  aggregateId : e.aggregateId = c.id
  status : e.status = .pending
  msg : e.msg = readyMsg c' c.deviceId
  outbox : d.outbox = s.db.outbox.put e
  approval : s.db.approvals.find x.approvalId = some a
  read : x.read.Same a
  sameApproval : a.Same a'
  decided : a'.status = .approved
  approvals : d.approvals = s.db.approvals.put a'
  audits : ∃ r, d.audits = s.db.audits ++ [r] ∧ r.approvalId = some x.approvalId ∧ r.stop = none

def Selected (t : List (Nat × Ev)) (i : Nat) (o : UUID) (ids : List UUID) : Prop :=
  ∃ l₁ l₂, own i t = l₁ ++ .selected o ids :: l₂ ∧ ∀ v ∈ l₂, ∀ p xs, v ≠ .selected p xs

/-- `_block_commands` has left none of the commands that it selected queued. -/
def Blocked (s : St) (i : Nat) (o : UUID) (d : DB) : Prop :=
  ∃ ids, Selected s.trace i o ids ∧ ∀ id ∈ ids, ∀ c, d.commands.find id = some c → c.state ≠ .queued

structure Rejected (s : St) (x : Decision) (d : DB) : Prop where
  reject : x.approve = false
  valid : x.read.id = x.approvalId
  approval : ∃ a a', s.db.approvals.find x.approvalId = some a ∧ x.read.Same a ∧
    d.approvals.find x.approvalId = some a' ∧ a'.status = .rejected
  command : d.Settled x.read.commandId
  audits : ∃ r, d.audits = s.db.audits ++ [r] ∧ r.approvalId = some x.approvalId

structure Switched (d d' : DB) (o : UUID) (on : Bool) : Prop where
  before : d.stopActive o = !on
  stop : ∃ r, r.ownerId = o ∧ r.active = on ∧ (r.releasedAt = none ↔ on = true) ∧ d'.stops = d.stops.put r
  audit : ∃ a, a.stop = some (o, on) ∧ d'.audits = d.audits ++ [a]
  event : ∃ e, d.outbox.find e.id = none ∧ e.stop = some (o, on) ∧ d'.outbox = d.outbox.put e

structure Attempt.Valid (P : Params) (a : Attempt) : Prop where
  pending : a.read.status = .pending
  inTime : ¬ a.read.expiresAt < a.clock
  left : a.read.attemptCount + 1 ≤ P.maxPairingAttempts

def Attempt.Right (P : Params) (a : Attempt) : Prop := P.sha256 a.pairingCode = a.read.pairingCodeHash

structure Counted (P : Params) (d d' : DB) (a : Attempt) : Prop where
  valid : a.Valid P
  wrong : ¬ a.Right P
  request : d.pairings.find a.read.id = some a.read
  counted : d'.pairings.find a.read.id = some { a.read with attemptCount := a.read.attemptCount + 1 }

structure Paired (P : Params) (d d' : DB) (a : Attempt) (deviceId : UUID) : Prop where
  valid : a.Valid P
  right : a.Right P
  request : d.pairings.find a.read.id = some a.read
  confirmed : ∃ p, d'.pairings.find a.read.id = some p ∧ p.status = .confirmed
  device : ∃ r, r.id = deviceId ∧ d.devices.find r.id = none ∧ d'.devices = d.devices.put r
  credential : ∃ r, r.deviceId = deviceId ∧ d.credentials.find r.id = none ∧ d'.credentials = d.credentials.put r

def Tag.Closes (P : Params) (s : St) (i : Nat) (d : DB) : Tag → Prop
  | .activate o => Switched s.db d o true ∧ Blocked s i o d
  | .release o => Switched s.db d o false
  | .handle k p => ∃ c, .lifecycle k c p ∈ s.ext.stream
  | .decide x => Rejected s x d
  | .batch => ∀ m e, (i, Ev.published m (some e)) ∈ s.trace → d.Published e.id
  | .wrongCode a => Counted P s.db d a
  | .confirmPairing a dev => Paired P s.db d a dev
  | .create .. => False
  | _ => True

inductive Tx (P : Params) (s : St) (i : Nat) : Tag → DB → Prop
  | create {d q c r o} : Created s i d q c r o → Tx P s i (.create c.id q) d
  | approve {x d c c' e a a'} : x.approve = true → Approved P s i x d c c' e a a' → Tx P s i (.decide x) d
  | chain {t ws} : (sys P).Chain (Write.Allowed i t s) s.db ws → t.Closes P s i ((sys P).applyAll ws s.db) →
      Tx P s i t ((sys P).applyAll ws s.db)

/-! ## Messages -/

def DB.Owns (d : DB) (conn : DeviceConnection) (commandId : UUID) : Prop :=
  ∃ c, d.commands.find commandId = some c ∧ c.deviceId = conn.deviceId

def Publishable (s : St) (i : Nat) (e : Option OutboxEvent) : Msg → Prop
  | .lifecycle .delivered id p => (∃ conn m, (i, Ev.sent conn m) ∈ s.trace ∧ m.commandId = id ∧
      p = { commandId := some id, deviceId := some conn.deviceId } ∧ s.db.Owns conn id) ∧ e = none
  | .lifecycle k id p => (∃ conn f, (i, Ev.received conn f) ∈ s.trace ∧
      f.message conn.deviceId = some (k, id, p) ∧ s.db.Owns conn id) ∧ e = none
  | m => ∀ ev, e = some ev → s.db.outbox.find ev.id = some ev ∧ ev.msg = m ∧ ev.status = .pending ∧
      (∀ m' x, (i, Ev.published m' (some x)) ∈ s.trace → x.id ≠ ev.id) ∧
      (ev.isQueued = true → ∃ c o, s.db.commands.find ev.aggregateId = some c ∧ s.db.ownerOf c.deviceId = some o ∧
        (i, Ev.stopRead (.publish ev) o (some false)) ∈ s.trace)

theorem Publishable.event {s : St} {i : Nat} {e : OutboxEvent} {m : Msg} (h : Publishable s i (some e) m) :
    s.db.outbox.find e.id = some e ∧ e.msg = m ∧ e.status = .pending ∧
      (∀ m' x, (i, Ev.published m' (some x)) ∈ s.trace → x.id ≠ e.id) ∧
      (e.isQueued = true → ∃ c o, s.db.commands.find e.aggregateId = some c ∧ s.db.ownerOf c.deviceId = some o ∧
        (i, Ev.stopRead (.publish e) o (some false)) ∈ s.trace) := by
  cases m with
  | lifecycle k id p => cases k <;> cases h.2
  | _ => exact h e rfl

def Sendable (s : St) (i : Nat) (conn : DeviceConnection) (commandId : UUID) : Prop :=
  ∃ q row clock, q.commandId = commandId ∧ [Ev.fetched conn (.commandReady conn.deviceId q),
      Ev.preDelivery commandId conn.deviceId (some row) clock true].Sublist (own i s.trace) ∧
    row.deviceId = conn.deviceId ∧ row.state = .queued ∧ ∀ t, row.expiresAt = some t → ¬ t < clock

/-- A veto of the trigger on a command in the state that `transition_command`
decided on. -/
def Doomed (s : St) (i : Nat) (v : Veto) : Prop :=
  ∃ k p row, (i, Ev.handled k p (some row)) ∈ s.trace ∧ row.id = v.commandId ∧ row.state = v.old ∧
    k.target p = .failed ∧ v.new = .failed ∧ v.source = .device ∧
    (v.old = .queued ∨ v.old = .delivered ∨ v.old = .acknowledged)

/-- What a trace entry says of the shared state. Commits and publications have
steps of their own. -/
def SayOk (P : Params) (s : St) (i : Nat) : Ev → Prop
  | .stopRead _ o r => ∀ b, r = some b → b = s.db.stopActive o
  | .preDelivery c _ row t _ => row = s.db.commands.find c ∧ t = s.ext.clock
  | .selected o ids => ids = s.db.blockable o
  | .handled _ p row => ∃ id, p.commandId = some id ∧ row = s.db.commands.find id
  | .locked id _ _ _ row => row = s.db.commands.find id
  | .rejected (.trigger v) => v.loaded = v.old → Doomed s i v
  | .received conn _ => conn ∈ s.ext.conns
  | .fetched conn m => conn ∈ s.ext.conns ∧ m ∈ s.ext.stream
  | .sent conn m => conn ∈ s.ext.conns ∧ (i, Ev.stopRead .deliver conn.ownerId (some false)) ∈ s.trace ∧
      Sendable s i conn m.commandId
  | .publishFailed _ e => ∀ ev, e = some ev → s.db.outbox.find ev.id = some ev ∧ ev.status = .pending
  | .compared a ok => a.Valid P ∧ (ok = true ↔ a.Right P) ∧ s.db.pairings.find a.read.id = some a.read
  | .committed _ => False
  | .published _ _ => False
  | _ => True

inductive Act (P : Params) (s : St) : St → Prop
  | env {x} : ExtStep s.db s.ext x → Act P s { s with ext := x }
  | cache {o t} : Act P s { s with ext := s.ext.setCache o (some (.dict (some true) t)) }
  | presence {f} : Act P s { s with ext.presence := f }
  | say {i v} : SayOk P s i v → Act P s (s.say i [v])
  | publish {i m e} : Publishable s i e m →
      Act P s { s.say i [.published m e] with ext.stream := s.ext.stream ++ [m] }
  | commit {i t d} : Tx P s i t d → Act P s { s.say i [.committed t] with db := d }

end Veyaan
