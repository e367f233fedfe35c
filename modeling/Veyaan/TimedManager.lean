import Veyaan.ConnectionManager

/-!
# The connection manager in time

One gateway and the scheduler, with the times to live of the hashes. The gateway's
tasks take turns where they await Valkey, which answers at once: the clock goes on when
no task is under way. The clock is in milliseconds.
-/

namespace Veyaan.Manager.Timed

abbrev gateway : GatewayId := 0

structure State where
  ext : Ext
  deadline : HashKey → Option Time
  clock : Time
  tasks : List (Op Unit)
  devices : List Device
  /-- The column `last_seen_at` of the devices. -/
  lastSeenAt : UUID → Option Time
  trace : List (Time × Ev)

def start (clock : Time) (devices : List Device) : State where
  ext := ⟨fun _ _ => none, [], fun _ => none, []⟩
  deadline _ := none
  clock := clock
  tasks := []
  devices := devices
  lastSeenAt _ := none
  trace := []

def ended : Op Unit → Bool
  | .op _ _ => false
  | _ => true

namespace State

def idle (s : State) : Bool := s.tasks.all ended

def spawn (s : State) (task : Op Unit) : State := { s with tasks := s.tasks ++ [task] }

/-- The times to live after a request. `HSET` keeps the one there is, and `EXPIRE` of a
missing key does nothing. -/
def lasting (s : State) : {β : Type} → Eff β → HashKey → Option Time
  | _, .hset key _, k => if k = key ∧ s.ext.hashes k = none then none else s.deadline k
  | _, .expire key ttl, k => if k = key ∧ s.ext.hashes k ≠ none then some (s.clock + ttl * 1000) else s.deadline k
  | _, _, k => s.deadline k

def turn (s : State) (i : Nat) : State :=
  match s.tasks[i]? with
  | some (.op (.eff e) k) =>
    { s with
      ext := (e.handle true s.ext).2.1
      deadline := s.lasting e
      tasks := s.tasks.set i (k (e.handle true s.ext).1)
      trace := (e.handle true s.ext).2.2.reverse.map (s.clock, ·) ++ s.trace }
  | _ => s

/-- The clock goes on, and Valkey removes what has outlived its time. -/
def wait (s : State) (dt : Nat) : State :=
  { s with
    clock := s.clock + dt
    ext :=
      { s.ext with
        hashes := fun key => if s.deadline key |>.any (· ≤ s.clock + dt) then none else s.ext.hashes key } }

/-! ## `SchedulerWorker._detect_stale_device_presence` -/

def staleDeviceIds (s : State) : List UUID :=
  ((s.devices.filter fun device => device.trustStatus = .trusted ∧ device.revokedAt = none).map
      (·.id)).filter fun deviceId =>
    s.ext.hashes (.connection deviceId) ≠ none ∧ s.ext.hashes (.presence deviceId) = none

def detectStaleDevicePresence (s : State) : Nat × State :=
  if s.staleDeviceIds = [] then (0, s)
  else (s.staleDeviceIds.length,
    { s with lastSeenAt := fun id => if id ∈ s.staleDeviceIds then some s.clock else s.lastSeenAt id })

end State

/-! ## Runs -/

inductive Move where
  | register (connection : DeviceConnection)
  | unregister (deviceId connectionId : UUID)
  | closeDeviceConnection (deviceId : UUID) (reason : String)
  | heartbeat (conn : DeviceConnection)
  | turn (i : Nat)
  | wait (dt : Nat)
  | devices (devices : List Device)
  | detect

def step (s : State) : Move → State
  | .register connection => s.spawn (register gateway connection)
  | .unregister deviceId connectionId => s.spawn (unregister gateway deviceId connectionId)
  | .closeDeviceConnection deviceId reason => s.spawn (closeDeviceConnection gateway deviceId reason)
  -- the frames of a connection are read after it was registered
  | .heartbeat conn => if conn ∈ s.ext.registered then s.spawn (heartbeat conn) else s
  | .turn i => s.turn i
  | .wait dt => if s.idle then s.wait dt else s
  | .devices devices => { s with devices := devices }
  | .detect => s.detectStaleDevicePresence.2

def run (s : State) (ms : List Move) : State := ms.foldl step s

/-! ## What the trace says -/

/-- Who wrote the hash last, and when, unless it has been deleted since. -/
def lastWrite (key : HashKey) : List (Time × Ev) → Option (UUID × Time)
  | [] => none
  | (t, .wrote key' id) :: l => if key' = key then some (id, t) else lastWrite key l
  | (_, .deleted key' _ _) :: l => if key' = key then none else lastWrite key l
  | _ :: l => lastWrite key l

def registeredAt (conn : DeviceConnection) : List (Time × Ev) → Option Time
  | [] => none
  | (t, .installed _ conn' _) :: l => if conn' = conn then some t else registeredAt conn l
  | _ :: l => registeredAt conn l

def heartbeatAt (conn : DeviceConnection) : List (Time × Ev) → Option Time
  | [] => none
  | (t, .wrote key id) :: l =>
    if key = .presence conn.deviceId ∧ id = conn.connectionId then some t else heartbeatAt conn l
  | _ :: l => heartbeatAt conn l

/-! ## A request -/

def seconds : HashKey → Nat
  | .connection _ => 180
  | .presence _ => 90

def Sets (key : HashKey) : Phase → Prop
  | .hset key' _ _ => key' = key
  | _ => False

def Expires (key : HashKey) : Phase → Prop
  | .expire key' _ => key' = key
  | _ => False

def Placed : Phase → Prop
  | .lookUp g _ => g = gateway
  | .closeOld g _ _ => g = gateway
  | .install g _ _ => g = gateway
  | .hset key _ ttl => ttl = seconds key
  | .expire key ttl => ttl = seconds key
  | _ => True

/-- The task is not in `set_hash`. -/
def Still : Phase → Prop
  | .hset _ _ _ => False
  | .expire _ _ => False
  | _ => True

def Mute : Ev → Prop
  | .installed _ _ _ => False
  | .wrote _ _ => False
  | .deleted _ _ _ => False
  | _ => True

/-- What an answered request of a task makes of the gateway, of the times to live and of
the trace, and where the task stands then. -/
inductive Turned (s : State) : Phase → Ext → (HashKey → Option Time) → List (Time × Ev) → Phase → Prop
  | put {ph conn old} : Still ph → Turned s ph (s.ext.put gateway conn) s.deadline
      ((s.clock, .installed gateway conn old) :: s.trace) (.hset (.connection conn.deviceId) conn.connectionId 180)
  | wrote {key id} : Turned s (.hset key id (seconds key)) (s.ext.setHash key (some id))
      (fun k => if k = key ∧ s.ext.hashes k = none then none else s.deadline k)
      ((s.clock, .wrote key id) :: s.trace)
      (.expire key (seconds key))
  | lasts {key} : Turned s (.expire key (seconds key)) s.ext
      (fun k => if k = key ∧ s.ext.hashes k ≠ none
        then some (s.clock + seconds key * 1000) else s.deadline k) s.trace
      (.ended (.ok ()))
  | deleted {ph key id old ph'} : Still ph → Still ph' →
      Turned s ph (s.ext.setHash key none) s.deadline ((s.clock, .deleted key id old) :: s.trace) ph'
  | other {ph x' ph'} {vs : List Ev} : Still ph → Still ph' → x'.hashes = s.ext.hashes →
      (∀ d k, x'.activeConnections gateway d = some k → s.ext.activeConnections gateway d = some k) →
      (∀ v ∈ vs, Mute v) →
      Turned s ph x' s.deadline (vs.map (s.clock, ·) ++ s.trace) ph'

theorem turned {s : State} {ph : Phase} {β : Type} {e : Eff β} {k : Except Err β → Op Unit} (hp : Placed ph)
    (h : ph.prog = .op (.eff e) k) : ∃ ph', k (e.handle true s.ext).1 = ph'.prog ∧ Placed ph' ∧
      Turned s ph (e.handle true s.ext).2.1 (s.lasting e)
      ((e.handle true s.ext).2.2.reverse.map (s.clock, ·) ++ s.trace) ph' := by
  cases ph with
  | lookUp g conn =>
    cases h
    cases hp
    simp only [Eff.handle]
    cases s.ext.activeConnections gateway conn.deviceId with
    | some old =>
      exact ⟨.closeOld gateway conn old, rfl, rfl, .other trivial trivial rfl (fun _ _ h => h) (by simp)⟩
    | none => exact ⟨.hset (.connection conn.deviceId) conn.connectionId 180, rfl, rfl, .put trivial⟩
  | closeOld g conn old =>
    cases h
    cases hp
    exact ⟨.install gateway conn old, rfl, rfl, .other trivial trivial rfl (fun _ _ h => h) (by simp [Eff.handle])⟩
  | install g conn old =>
    cases h
    cases hp
    exact ⟨.hset (.connection conn.deviceId) conn.connectionId 180, rfl, rfl, .put trivial⟩
  | hset key id ttl =>
    cases h
    cases hp
    exact ⟨.expire key (seconds key), rfl, rfl, .wrote⟩
  | expire key ttl =>
    cases h
    cases hp
    exact ⟨.ended (.ok ()), rfl, trivial, .lasts⟩
  | find g d reason =>
    cases h
    simp only [Eff.handle]
    cases s.ext.activeConnections g d with
    | none => exact ⟨.ended (.ok ()), rfl, trivial, .other trivial trivial rfl (fun _ _ h => h) (by simp)⟩
    | some conn =>
      exact ⟨.closeFound g d conn reason, rfl, trivial, .other trivial trivial rfl (fun _ _ h => h) (by simp)⟩
  | closeFound g d conn reason =>
    cases h
    exact ⟨.ask g d conn.connectionId, rfl, trivial,
      .other trivial trivial rfl (fun _ _ h => h) (by simp [Eff.handle])⟩
  | ask g d id =>
    cases h
    have hmute : ∀ v ∈ [Ev.asked d id (s.ext.hashes (.connection d))], Mute v := by simp [Mute]
    simp only [Eff.handle, awaiting, if_true, Prog.ofExcept_ok, Prog.ret_bind, deleteRecords]
    by_cases hc : s.ext.hashes (.connection d) = some id
    · rw [if_pos hc]
      exact ⟨.deleteConnection g d id, rfl, trivial, .other trivial trivial rfl (fun _ _ h => h) hmute⟩
    · rw [if_neg hc]
      exact ⟨.remove g d id, rfl, trivial, .other trivial trivial rfl (fun _ _ h => h) hmute⟩
  | deleteConnection g d id =>
    cases h
    exact ⟨.deletePresence g d id, rfl, trivial, .deleted trivial trivial⟩
  | deletePresence g d id =>
    cases h
    exact ⟨.remove g d id, rfl, trivial, .deleted trivial trivial⟩
  | remove g d id =>
    cases h
    simp only [Eff.handle]
    cases s.ext.activeConnections g d with
    | none => exact ⟨.ended (.ok ()), rfl, trivial, .other trivial trivial rfl (fun _ _ h => h) (by simp)⟩
    | some conn =>
      by_cases hid : conn.connectionId = id
      · simp only [hid, if_true]
        refine ⟨.ended (.ok ()), rfl, trivial, .other trivial trivial rfl (fun e k hk => ?_) (by simp [Mute])⟩
        rw [Ext.drop_active] at hk
        split at hk
        · cases hk
        · exact hk
      · simp only [hid, if_false]
        exact ⟨.ended (.ok ()), rfl, trivial, .other trivial trivial rfl (fun _ _ h => h) (by simp)⟩
  | ended r => cases r <;> cases h

end Veyaan.Manager.Timed
