import Veyaan.Lib.Tx
import Veyaan.Schema

/-!
# What the code runs on

Outside the database there are Valkey, JetStream, the device connections of
the gateway, the clock and the generators of identifiers and tokens. This
module has the state of these, the calls that the code makes to them, the
exceptions it can meet, and the vocabulary of the trace.
-/

namespace Veyaan

/-! ## Exceptions -/

inductive ErrorCode where
  | deviceNotFound
  | deviceRevoked
  | emergencyStopActive
  | idempotencyConflict
  | invalidCommandType
  | approvalAlreadyDecided
  | approvalExpired
  | invalidDecisionNonce
  | invalidState
  | pairingInvalid
  | pairingExpired
  deriving DecidableEq, Repr

/-- An update of `commands.state` that the trigger refused. `loaded` is the
state that `transition_command` decided on, `old` the state of the row. -/
structure Veto where
  commandId : UUID
  loaded : CommandState
  old : CommandState
  new : CommandState
  source : Source
  deriving DecidableEq, Repr

inductive Err where
  | api (code : ErrorCode) (message : String) (status : Nat)
  | stateTransition (commandId : UUID) (fromState toState : CommandState)
  | db
  | trigger (v : Veto)
  | integrity
  | data
  | multipleResults
  | validation
  /-- A `logging.Logger` method met an unknown keyword argument. -/
  | typeError
  | attributeError
  | nats
  | valkey

def Err.classified : Err → Bool
  | .api .. => true
  | _ => false

theorem not_classified {e : Err} (h : e = .integrity ∨ e = .data) : e.classified = false := by
  rcases h with rfl | rfl <;> rfl

/-! ## Outside the database -/

/-- A value under `emergency_stop:<owner>`: a dictionary, or anything else. -/
inductive CacheVal where
  | dict (active : Option Bool) (activatedAt : Option Time)
  | scalar (truthy : Bool)
  deriving DecidableEq, Repr

structure DeviceConnection where
  deviceId : UUID
  ownerId : UUID
  connectionId : UUID
  deriving DecidableEq, Repr

structure CommandRequestMessage where
  commandId : UUID
  commandType : String
  parameters : Json
  expiresAt : Time
  riskLevel : RiskLevel
  traceId : UUID

/-- A client message that `parse_client_message` has accepted. -/
inductive Frame where
  | hello
  | heartbeat
  | acknowledge (commandId : UUID) (accepted : Bool) (rejectionReason : Option String)
  | progress (commandId : UUID) (progressPercent : Option Int) (stage : Option String)
  | result (commandId : UUID) (success : Bool) (resultData : Option Json)
      (errorCode errorMessage : Option String)
  | statusUpdate (state : String)

inductive Valkey where
  | up
  /-- It does what it is asked to do, but its answer is lost. -/
  | mute
  | down
  deriving DecidableEq, Repr

structure Ext where
  valkey : Valkey := .up
  cache : UUID → Option CacheVal
  /-- Everything published so far. JetStream may deliver any of it, in any
  order and any number of times. -/
  stream : List Msg
  /-- Every connection that was ever authenticated. That one has been closed
  shows in the answer of `send_json`. -/
  conns : List DeviceConnection
  presence : UUID → Option Time
  clock : Time
  nextId : UUID
  /-- What `secrets` will return next. -/
  token : String

/-! ## The trace -/

/-- Which caller an `is_active` check belongs to. -/
inductive Site where
  | create
  | decide
  | publish (e : OutboxEvent)
  | deliver

structure CreateCommandRequest where
  deviceId : UUID
  commandType : String
  parameters : Json
  idempotencyKey : String
  expiresAt : Option Time
  delayedExecutionAllowed : Bool
  requiresApproval : Bool

/-- A decision as its transaction commits it: the arguments of the call, and
the approval row and the clock that it read. -/
structure Decision where
  approvalId : UUID
  ownerId : UUID
  approve : Bool
  nonce : String
  read : Approval
  clock : Time

/-- A call of `confirm_pairing` that has come to its code: the request and the
clock that it read, and the code. -/
structure Attempt where
  read : PairingRequest
  clock : Time
  pairingCode : String
  deriving DecidableEq

inductive Tag where
  | create (commandId : UUID) (r : CreateCommandRequest)
  | cancel (commandId : UUID)
  | decide (d : Decision)
  | expireApproval (approvalId : UUID)
  | activate (ownerId : UUID)
  | reactivate (ownerId : UUID)
  | release (ownerId : UUID)
  | expire
  | batch
  | handle (kind : Lifecycle) (payload : LifecyclePayload)
  | startPairing (pairingId : UUID)
  /-- `confirm_pairing` comes too late or too often, and records that. -/
  | refusePairing (pairingId : UUID)
  | wrongCode (a : Attempt)
  | confirmPairing (a : Attempt) (deviceId : UUID)
  | revoke (deviceId : UUID)

inductive Label where
  | stopRead (site : Site) (ownerId : UUID)
  | preDelivery (commandId deviceId : UUID)
  | select (ownerId : UUID)
  | handled (kind : Lifecycle) (payload : LifecyclePayload) (commandId : UUID)
  | transition (loaded : Option CommandState) (commandId : UUID) (newState : CommandState) (source : Source)
  | commit (t : Tag)

inductive Ev where
  /-- `is_active` asked the database; `none` when the query failed. -/
  | stopRead (site : Site) (ownerId : UUID) (active : Option Bool)
  /-- `_pre_delivery_check` queried the row at this time; `ok` is false when
  the query failed. -/
  | preDelivery (commandId deviceId : UUID) (row : Option Command) (clock : Time) (ok : Bool)
  /-- `_block_commands` selected the devices of the owner, or the commands to block:
  these could be blocked then. -/
  | selected (ownerId : UUID) (commandIds : List UUID)
  | handled (kind : Lifecycle) (payload : LifecyclePayload) (row : Option Command)
  /-- `transition_command` locked this row. `loaded` is the state of the instance
  that the session had of it before, if any: the one it decides on. -/
  | locked (commandId : UUID) (newState : CommandState) (source : Source) (loaded : Option CommandState)
      (row : Option Command)
  | committed (t : Tag)
  /-- `confirm_pairing` compared a code; whether it was the right one. -/
  | compared (a : Attempt) (ok : Bool)
  | rejected (e : Err)
  /-- A call to Valkey raised; the caller of `is_active`, if it was called from there. -/
  | cacheFailed (site : Option Site) (ownerId : UUID)
  | published (m : Msg) (e : Option OutboxEvent)
  | publishFailed (m : Msg) (e : Option OutboxEvent)
  | received (conn : DeviceConnection) (f : Frame)
  | fetched (conn : DeviceConnection) (m : Msg)
  | sent (conn : DeviceConnection) (m : CommandRequestMessage)
  | sendFailed (conn : DeviceConnection) (m : CommandRequestMessage)
  | acked (m : Msg)
  | nacked (m : Msg)

/-- The commands that `_block_commands` selects. -/
def DB.blockable (d : DB) (ownerId : UUID) : List UUID :=
  (d.commands.rows.filter fun c =>
    d.ownerOf c.deviceId == some ownerId && (c.state == .queued || c.state == .approved)).map Command.id

def Label.see : Label → Bool → DB → Ext → Ev
  | .stopRead site o, ok, d, _ => .stopRead site o (if ok then some (d.stopActive o) else none)
  | .preDelivery c dev, ok, d, x => .preDelivery c dev (d.commands.find c) x.clock ok
  | .select o, _, d, _ => .selected o (d.blockable o)
  | .handled k p id, _, d, _ => .handled k p (d.commands.find id)
  | .transition loaded id new source, _, d, _ => .locked id new source loaded (d.commands.find id)
  | .commit t, _, _, _ => .committed t

/-! ## Calls to the outside -/

inductive Eff : Type → Type
  | now : Eff Time
  | uuid4 : Eff UUID
  | tokenUrlsafe : Eff String
  /-- `hmac.compare_digest(code_hash, pairing.pairing_code_hash)`. -/
  | compareDigest (codeHash : String) (a : Attempt) : Eff Bool
  | cacheGet (site : Site) (ownerId : UUID) : Eff (Option CacheVal)
  | cacheSet (site : Option Site) (ownerId : UUID) (v : CacheVal) (ttl : Nat) : Eff Unit
  | cacheDelete (ownerId : UUID) : Eff Unit
  /-- `publish_js`, for an outbox event or for the gateway. -/
  | publishJs (m : Msg) (e : Option OutboxEvent) : Eff Unit
  | publish (m : Msg) : Eff Unit
  | setPresence (deviceId : UUID) : Eff Unit
  | receive (conn : DeviceConnection) (f : Frame) : Eff Unit
  | fetch (conn : DeviceConnection) (m : Msg) : Eff Unit
  /-- `DeviceConnection.send_json`: false when the socket raised. -/
  | sendJson (conn : DeviceConnection) (m : CommandRequestMessage) : Eff Bool
  | ack (m : Msg) : Eff Unit
  | nak (m : Msg) : Eff Unit

def Ext.ask {β : Type} (x : Ext) (vs : List Ev) (b : β) (f : Ext → Ext) : Except Err β × Ext × List Ev :=
  match x.valkey with
  | .up => (.ok b, f x, [])
  | .mute => (.error .valkey, f x, vs)
  | .down => (.error .valkey, x, vs)

def Ext.setCache (x : Ext) (ownerId : UUID) (v : Option CacheVal) : Ext :=
  { x with cache := fun p => if p = ownerId then v else x.cache p }

def Eff.handle (ch : Bool) : {β : Type} → Eff β → Ext → Except Err β × Ext × List Ev
  | _, .now, x => (.ok x.clock, x, [])
  | _, .uuid4, x => (.ok x.nextId, { x with nextId := x.nextId + 1 }, [])
  | _, .tokenUrlsafe, x => (.ok x.token, x, [])
  | _, .compareDigest h a, x =>
    (.ok (h == a.read.pairingCodeHash), x, [.compared a (h == a.read.pairingCodeHash)])
  -- a client that is not connected reads nothing and writes nothing
  | _, .cacheGet site o, x => if ch then x.ask [.cacheFailed (some site) o] (x.cache o) id else (.ok none, x, [])
  | _, .cacheSet site o v _, x =>
    if ch then x.ask [.cacheFailed site o] () (·.setCache o (some v)) else (.ok (), x, [])
  | _, .cacheDelete o, x => if ch then x.ask [.cacheFailed none o] () (·.setCache o none) else (.ok (), x, [])
  | _, .publishJs m e, x =>
    if ch then (.ok (), { x with stream := x.stream ++ [m] }, [.published m e])
    else (.error .nats, x, [.publishFailed m e])
  | _, .publish m, x =>
    if ch then (.ok (), { x with stream := x.stream ++ [m] }, [.published m none])
    else (.error .nats, x, [.publishFailed m none])
  | _, .setPresence dev, x =>
    if ch then x.ask [] () fun x => { x with presence := fun p => if p = dev then some x.clock else x.presence p }
    else (.ok (), x, [])
  | _, .receive conn f, x => (.ok (), x, [.received conn f])
  | _, .fetch conn m, x => (.ok (), x, [.fetched conn m])
  | _, .sendJson conn m, x => if ch then (.ok true, x, [.sent conn m]) else (.ok false, x, [.sendFailed conn m])
  | _, .ack m, x => (.ok (), x, [.acked m])
  | _, .nak m, x => (.ok (), x, [.nacked m])

theorem ask_cases {β : Type} (x : Ext) (vs : List Ev) (b : β) (f : Ext → Ext) : x.ask vs b f = (.ok b, f x, []) ∨
    ∃ x', (x' = f x ∨ x' = x) ∧ x.ask vs b f = (.error .valkey, x', vs) := by
  unfold Ext.ask
  cases x.valkey with
  | up => exact .inl rfl
  | mute => exact .inr ⟨_, .inl rfl, rfl⟩
  | down => exact .inr ⟨_, .inr rfl, rfl⟩

@[simp]
theorem mem_ask {β : Type} {x : Ext} {vs : List Ev} {b : β} {f : Ext → Ext} {v : Ev} :
    v ∈ (x.ask vs b f).2.2 ↔ x.valkey ≠ .up ∧ v ∈ vs := by
  unfold Ext.ask
  cases x.valkey <;> simp

@[simp]
theorem ask_eq_ok {β : Type} {x : Ext} {vs : List Ev} {b a : β} {f : Ext → Ext} :
    (x.ask vs b f).1 = .ok a ↔ x.valkey = .up ∧ b = a := by
  unfold Ext.ask
  cases x.valkey <;> simp

theorem ask_length {β : Type} {x : Ext} {vs : List Ev} {b : β} {f : Ext → Ext} (h : vs.length ≤ 1) :
    (x.ask vs b f).2.2.length ≤ 1 := by
  unfold Ext.ask
  cases x.valkey with
  | up => exact Nat.zero_le 1
  | mute => exact h
  | down => exact h

theorem ask_ext {β : Type} {x : Ext} {vs : List Ev} {b : β} {f : Ext → Ext}
    {φ : Ext → Prop} (h : φ x) (hf : φ (f x)) :
    φ (x.ask vs b f).2.1 := by
  unfold Ext.ask
  cases x.valkey with
  | up => exact hf
  | mute => exact hf
  | down => exact h

theorem handle_one {β : Type} (ch : Bool) (e : Eff β) (x : Ext) : (Eff.handle ch e x).2.2.length ≤ 1 := by
  cases e <;> cases ch <;> simp [Eff.handle, ask_length]

theorem handle_nextId {β : Type} (ch : Bool) (e : Eff β) (x : Ext) : x.nextId ≤ (Eff.handle ch e x).2.1.nextId := by
  cases e <;> cases ch <;> first
    | exact Nat.le_refl _
    | exact Nat.le_succ _
    | exact ask_ext (φ := fun y => x.nextId ≤ y.nextId) (Nat.le_refl _) (Nat.le_refl _)

theorem handle_clock {β : Type} (ch : Bool) (e : Eff β) (x : Ext) : (Eff.handle ch e x).2.1.clock = x.clock := by
  cases e <;> cases ch <;> first
    | rfl
    | exact ask_ext (φ := fun y => y.clock = x.clock) rfl rfl

def Eff.event : {β : Type} → Eff β → Option OutboxEvent
  | _, .publishJs _ e => e
  | _, _ => none

/-- What happens outside by itself: time passes, identifiers are used
elsewhere, a new random token comes up, cache entries expire, Valkey fails and
comes back, and devices of the database connect and are forgotten. -/
inductive ExtStep (d : DB) (x : Ext) : Ext → Prop
  | clock {t} : x.clock ≤ t → ExtStep d x { x with clock := t }
  | nextId {n} : x.nextId ≤ n → ExtStep d x { x with nextId := n }
  | token {s} : ExtStep d x { x with token := s }
  | cacheExpire {o} : ExtStep d x (x.setCache o none)
  | valkey {v} : ExtStep d x { x with valkey := v }
  | connect {dev conn} : d.devices.find dev.id = some dev → dev.trustStatus = .trusted →
      dev.revokedAt = none → conn.deviceId = dev.id → conn.ownerId = dev.ownerId →
      ExtStep d x { x with conns := x.conns ++ [conn] }
  | presenceExpire {dev} : ExtStep d x { x with presence := fun p => if p = dev then none else x.presence p }

theorem extStep_nextId {d : DB} {x x' : Ext} (h : ExtStep d x x') : x.nextId ≤ x'.nextId := by
  cases h with
  | nextId hn => exact hn
  | _ => exact Nat.le_refl _

/-! ## Programs -/

abbrev Stmt := Prim DB Key Write Label Err Eff
abbrev Op := Prog Stmt Err

abbrev raise {α : Type} (e : Err) : Op α := .throw e

def select {α : Type} (q : DB → α) : Op α := .call (.read none q)

def effect {α : Type} (e : Eff α) : Op α := .call (.eff e)

/-- `SELECT … FOR UPDATE` of at most one row: `scalar_one_or_none`. -/
def selectForUpdate {ρ : Type} (sel : DB → Option ρ) (key : ρ → Key) (l : Option Label := none) :
    Op (Option ρ) := do
  let rows ← Prog.call (.forUpdate l (fun d => (sel d).toList) key)
  return rows.head?

/-- One `INSERT` or `UPDATE` statement; the number of rows it wrote. -/
def execute (ks : List Key) (f : DB → Except Err (List Write)) : Op Nat := .call (.stmt (fun _ => ks) f)

def commit (t : Tag) : Op Unit := .call (.commit (some (.commit t)))

/-- `async with get_db_session() as session`: commit when the body returns,
roll back and raise again when it raises. -/
def withSession {α : Type} (body : Op α) : Op α := do
  match ← (do let a ← body; Prog.call (.commit none); return a).attempt with
  | .ok a => return a
  | .error e => do Prog.call .rollback; raise e

structure Params where
  /-- `hashlib.sha256(s.encode()).hexdigest()`. -/
  sha256 : String → String
  /-- `definition.parameter_schema(**parameters)` accepts the parameters. -/
  schemaOk : String → Json → Bool
  /-- Whether the standard-library loggers of the publisher and the scheduler
  raise `TypeError` on keyword arguments, or log. -/
  loggerRaises : Bool
  /-- Whether the columns with the text of an enumeration read back as plain
  strings, which have no `value`, or as members. -/
  plainStr : Bool := false
  maxPairingAttempts : Nat := 5
  pairingCodeTtlMinutes : Nat := 10
  deviceCredentialTtlDays : Nat := 365

/-- `logger.warning(text, key=value)` on a `logging.Logger`. -/
def logKeywords (P : Params) : Op Unit := if P.loggerRaises then raise .typeError else return ()

/-- `.value` of an enumeration column that was read from the database. -/
def columnValue (P : Params) : Op Unit := if P.plainStr then raise .attributeError else return ()

theorem columnValue_raise {α : Type} (P : Params) (e : Err) :
    ∃ e', (do columnValue P; raise e : Op α) = raise e' := by
  unfold columnValue
  split
  · exact ⟨.attributeError, rfl⟩
  · exact ⟨e, rfl⟩

end Veyaan
