import Veyaan.Lib.Calls
import Veyaan.Lib.Play
import Veyaan.Lib.Serial
import Veyaan.Runtime

/-!
# The connection manager

`ConnectionManager` of the gateway and the hashes it keeps in Valkey. Any number
of gateway processes share Valkey, each with `active_connections` of its own. The
tasks of one event loop take turns where they await: what stands between two awaits
is one effect, and so is what an awaited request does when it arrives. Valkey
is connected before a gateway accepts its first connection.
-/

open Relation (ReflTransGen)

namespace Veyaan

namespace Manager

/-! ## Surroundings -/

abbrev GatewayId := Nat

inductive Err where
  | valkey
  deriving DecidableEq, Repr

inductive HashKey where
  | connection (deviceId : UUID)
  | presence (deviceId : UUID)
  deriving DecidableEq

def HashKey.deviceId : HashKey → UUID
  | .connection d => d
  | .presence d => d

structure Ext where
  activeConnections : GatewayId → UUID → Option DeviceConnection
  closed : List UUID
  /-- The field `connection_id` of a connection hash, the one field that is read. A
  presence hash has no such field: there it says whose heartbeat wrote it, and no program
  reads it. -/
  hashes : HashKey → Option UUID
  registered : List DeviceConnection

inductive Ev where
  | installed (g : GatewayId) (conn : DeviceConnection) (old : Option DeviceConnection)
  | wrote (key : HashKey) (connectionId : UUID)
  | writeFailed (key : HashKey)
  | asked (deviceId connectionId : UUID) (valkeyConn : Option UUID)
  | deleted (key : HashKey) (connectionId : UUID) (record : Option UUID)
  | removed (g : GatewayId) (deviceId : UUID) (conn : DeviceConnection)
  | rejected (e : Err)
  deriving DecidableEq

inductive Eff : Type → Type
  | lookUp (g : GatewayId) (conn : DeviceConnection) : Eff (Option DeviceConnection)
  /-- `self.active_connections[device_id] = connection`, after the old one was closed. -/
  | install (g : GatewayId) (conn old : DeviceConnection) : Eff Unit
  | get (g : GatewayId) (deviceId : UUID) : Eff (Option DeviceConnection)
  /-- `DeviceConnection.close`, which swallows its exceptions. -/
  | close (conn : DeviceConnection) (code : Nat) (reason : String) : Eff Unit
  | hset (key : HashKey) (connectionId : UUID) : Eff Unit
  | expire (key : HashKey) (ttl : Nat) : Eff Unit
  | hgetall (deviceId connectionId : UUID) : Eff (Option UUID)
  | delete (key : HashKey) (connectionId : UUID) : Eff Unit
  | removeEntry (g : GatewayId) (deviceId connectionId : UUID) : Eff Unit

namespace Ext

def put (x : Ext) (g : GatewayId) (conn : DeviceConnection) : Ext :=
  { x with
    activeConnections := fun h id => if h = g ∧ id = conn.deviceId then some conn else x.activeConnections h id
    registered := conn :: x.registered }

def drop (x : Ext) (g : GatewayId) (deviceId : UUID) : Ext :=
  { x with activeConnections := fun h id => if h = g ∧ id = deviceId then none else x.activeConnections h id }

def close (x : Ext) (connectionId : UUID) : Ext := { x with closed := connectionId :: x.closed }

def setHash (x : Ext) (key : HashKey) (v : Option UUID) : Ext :=
  { x with hashes := fun k => if k = key then v else x.hashes k }

variable (x : Ext) (g h : GatewayId) (d id : UUID) (key k : HashKey) (v : Option UUID) (conn : DeviceConnection)

@[simp] theorem put_active : (x.put g conn).activeConnections h d =
    if h = g ∧ d = conn.deviceId then some conn else x.activeConnections h d := rfl
@[simp] theorem put_closed : (x.put g conn).closed = x.closed := rfl
@[simp] theorem put_hashes : (x.put g conn).hashes = x.hashes := rfl
@[simp] theorem put_registered : (x.put g conn).registered = conn :: x.registered := rfl
@[simp] theorem drop_active : (x.drop g id).activeConnections h d =
    if h = g ∧ d = id then none else x.activeConnections h d := rfl
@[simp] theorem drop_closed : (x.drop g d).closed = x.closed := rfl
@[simp] theorem drop_hashes : (x.drop g d).hashes = x.hashes := rfl
@[simp] theorem drop_registered : (x.drop g d).registered = x.registered := rfl
@[simp] theorem close_active : (x.close id).activeConnections = x.activeConnections := rfl
@[simp] theorem close_closed : (x.close id).closed = id :: x.closed := rfl
@[simp] theorem close_hashes : (x.close id).hashes = x.hashes := rfl
@[simp] theorem close_registered : (x.close id).registered = x.registered := rfl
@[simp] theorem setHash_active : (x.setHash key v).activeConnections = x.activeConnections := rfl
@[simp] theorem setHash_closed : (x.setHash key v).closed = x.closed := rfl
@[simp] theorem setHash_hashes : (x.setHash key v).hashes k = if k = key then v else x.hashes k := rfl
@[simp] theorem setHash_registered : (x.setHash key v).registered = x.registered := rfl

end Ext

def awaiting {β : Type} (ch : Bool) (a : β) (x x' : Ext) (vs : List Ev) : Except Err β × Ext × List Ev :=
  if ch then (.ok a, x', vs) else (.error .valkey, x, [])

def Eff.handle (ch : Bool) : {β : Type} → Eff β → Ext → Except Err β × Ext × List Ev
  | _, .lookUp g conn, x =>
    match x.activeConnections g conn.deviceId with
    | some old => (.ok (some old), x, [])
    | none => (.ok none, x.put g conn, [.installed g conn none])
  | _, .install g conn old, x => (.ok (), x.put g conn, [.installed g conn (some old)])
  | _, .get g id, x => (.ok (x.activeConnections g id), x, [])
  -- the socket is closed, also when `close` raises: it was closed before then
  | _, .close conn _ _, x => (.ok (), x.close conn.connectionId, [])
  | _, .hset key id, x =>
    if ch then (.ok (), x.setHash key (some id), [.wrote key id]) else (.error .valkey, x, [.writeFailed key])
  -- the time to live runs out in `ExtStep`
  | _, .expire _ _, x => awaiting ch () x x []
  | _, .hgetall d id, x => awaiting ch (x.hashes (.connection d)) x x [.asked d id (x.hashes (.connection d))]
  | _, .delete key id, x => awaiting ch () x (x.setHash key none) [.deleted key id (x.hashes key)]
  | _, .removeEntry g d id, x =>
    match x.activeConnections g d with
    | some conn => if conn.connectionId = id then (.ok (), x.drop g d, [.removed g d conn]) else (.ok (), x, [])
    | none => (.ok (), x, [])

/-- What happens besides: a hash reaches its time to live, and a socket ends. -/
inductive ExtStep (x : Ext) : Ext → Prop
  | expired {key} : ExtStep x (x.setHash key none)
  | hungUp {id} : ExtStep x (x.close id)

theorem ExtStep.keeps {x x' : Ext} (h : ExtStep x x') : x'.activeConnections = x.activeConnections ∧
    (∀ id ∈ x.closed, id ∈ x'.closed) ∧ (∀ k id, x'.hashes k = some id → x.hashes k = some id) ∧
    x'.registered = x.registered := by
  cases h with
  | @expired key =>
    refine ⟨rfl, fun _ h => h, fun k id h => ?_, rfl⟩
    by_cases hk : k = key
    · simp [hk] at h
    · simpa [hk] using h
  | hungUp => exact ⟨rfl, fun _ => List.mem_cons_of_mem _, fun _ _ h => h, rfl⟩

abbrev Stmt := Prim Unit Empty Empty Empty Err Eff
abbrev Op := Prog Stmt Err

def effect {α : Type} (e : Eff α) : Op α := .call (.eff e)

/-! ## The methods -/

/-- `ValkeyClient.set_hash`. -/
def setHash (key : HashKey) (connectionId : UUID) (ttl : Nat) : Op Unit := do
  effect (.hset key connectionId)
  effect (.expire key ttl)

def replace (g : GatewayId) (connection : DeviceConnection) : Option DeviceConnection → Op Unit
  | some old => do
    effect (.close old 4000 "Replaced by new connection")
    effect (.install g connection old)
    setHash (.connection connection.deviceId) connection.connectionId 180
  | none => setHash (.connection connection.deviceId) connection.connectionId 180

def register (g : GatewayId) (connection : DeviceConnection) : Op Unit := do
  let old ← effect (.lookUp g connection)
  replace g connection old

def deleteRecords (deviceId connectionId : UUID) (valkeyConn : Option UUID) : Op Unit :=
  if valkeyConn = some connectionId then do
    effect (.delete (.connection deviceId) connectionId)
    effect (.delete (.presence deviceId) connectionId)
  else return ()

def unregister (g : GatewayId) (deviceId connectionId : UUID) : Op Unit := do
  let valkeyConn ← effect (.hgetall deviceId connectionId)
  deleteRecords deviceId connectionId valkeyConn
  effect (.removeEntry g deviceId connectionId)

def closeFound (g : GatewayId) (deviceId : UUID) (reason : String) : Option DeviceConnection → Op Unit
  | some conn => do
    effect (.close conn 4002 reason)
    unregister g deviceId conn.connectionId
  | none => return ()

def closeDeviceConnection (g : GatewayId) (deviceId : UUID) (reason : String) : Op Unit := do
  let conn ← effect (.get g deviceId)
  closeFound g deviceId reason conn

/-- The branch of `handle_device_message` for a heartbeat. What it raises is logged. -/
def heartbeat (conn : DeviceConnection) : Op Unit :=
  setHash (.presence conn.deviceId) conn.connectionId 90

/-! ## All gateways -/

inductive Call where
  | register (g : GatewayId) (connection : DeviceConnection)
  | unregister (g : GatewayId) (deviceId connectionId : UUID)
  | closeDeviceConnection (g : GatewayId) (deviceId : UUID) (reason : String)
  | heartbeat (g : GatewayId) (conn : DeviceConnection)

def Call.gateway : Call → GatewayId
  | .register g _ => g
  | .unregister g .. => g
  | .closeDeviceConnection g .. => g
  | .heartbeat g _ => g

def Call.Admitted (x : Ext) : Call → Prop
  | .heartbeat _ conn => conn ∈ x.registered
  | _ => True

def sys : Sys Unit Ext Empty Empty Unit Empty Ev Call Err Eff where
  apply w := w.elim
  keys w := w.elim
  row _ _ := ()
  frame w := w.elim
  sets w := w.elim
  see t := t.elim
  rejected := .rejected
  handle ch e x := e.handle ch x
  dbError := .valkey
  code
    | .register g connection => register g connection
    | .unregister g deviceId connectionId => unregister g deviceId connectionId
    | .closeDeviceConnection g deviceId reason => closeDeviceConnection g deviceId reason
    | .heartbeat _ conn => heartbeat conn
  admits _ x call := call.Admitted x
  env _ x x' := ExtStep x x'

abbrev Conf := Sys.Config Unit Ext Empty Empty Empty Ev Call Err Eff

def Init (_ : Unit) (x : Ext) : Prop :=
  (∀ g d, x.activeConnections g d = none) ∧ (∀ k, x.hashes k = none) ∧ x.registered = []

/-! ## Where a call stands -/

inductive Phase where
  | lookUp (g : GatewayId) (conn : DeviceConnection)
  | closeOld (g : GatewayId) (conn old : DeviceConnection)
  | install (g : GatewayId) (conn old : DeviceConnection)
  | hset (key : HashKey) (connectionId : UUID) (ttl : Nat)
  | expire (key : HashKey) (ttl : Nat)
  | find (g : GatewayId) (deviceId : UUID) (reason : String)
  | closeFound (g : GatewayId) (deviceId : UUID) (conn : DeviceConnection) (reason : String)
  | ask (g : GatewayId) (deviceId connectionId : UUID)
  | deleteConnection (g : GatewayId) (deviceId connectionId : UUID)
  | deletePresence (g : GatewayId) (deviceId connectionId : UUID)
  | remove (g : GatewayId) (deviceId connectionId : UUID)
  | ended (r : Except Err Unit)

def Phase.prog : Phase → Op Unit
  | .lookUp g conn => register g conn
  | .closeOld g conn old => replace g conn (some old)
  | .install g conn old => do
    effect (.install g conn old)
    setHash (.connection conn.deviceId) conn.connectionId 180
  | .hset key id ttl => setHash key id ttl
  | .expire key ttl => effect (.expire key ttl)
  | .find g d reason => closeDeviceConnection g d reason
  | .closeFound g d conn reason => Manager.closeFound g d reason (some conn)
  | .ask g d id => unregister g d id
  | .deleteConnection g d id => do
    (do
      effect (.delete (.connection d) id)
      effect (.delete (.presence d) id))
    effect (.removeEntry g d id)
  | .deletePresence g d id => do
    effect (.delete (.presence d) id)
    effect (.removeEntry g d id)
  | .remove g d id => effect (.removeEntry g d id)
  | .ended r => .ofExcept r

def Call.first : Call → Phase
  | .register g conn => .lookUp g conn
  | .unregister g d id => .ask g d id
  | .closeDeviceConnection g d reason => .find g d reason
  | .heartbeat _ conn => .hset (.presence conn.deviceId) conn.connectionId 90

theorem first_prog (call : Call) : call.first.prog = sys.code call := by cases call <;> rfl

/-- One step of a process: from which phase, what it makes of the surroundings, what it
reports, and where it stands then. -/
inductive Goes (x : Ext) : Phase → Ext → List Ev → Phase → Prop
  | alone {g conn} : x.activeConnections g conn.deviceId = none →
      Goes x (.lookUp g conn) (x.put g conn) [.installed g conn none]
      (.hset (.connection conn.deviceId) conn.connectionId 180)
  | found {g conn old} : x.activeConnections g conn.deviceId = some old →
      Goes x (.lookUp g conn) x [] (.closeOld g conn old)
  | closeOld {g conn old} : Goes x (.closeOld g conn old) (x.close old.connectionId) [] (.install g conn old)
  | install {g conn old} : Goes x (.install g conn old) (x.put g conn) [.installed g conn (some old)]
      (.hset (.connection conn.deviceId) conn.connectionId 180)
  | wrote {key id ttl} : Goes x (.hset key id ttl) (x.setHash key (some id)) [.wrote key id] (.expire key ttl)
  | writeFailed {key id ttl} : Goes x (.hset key id ttl) x [.writeFailed key] (.ended (.error .valkey))
  | expire {key ttl r} : Goes x (.expire key ttl) x [] (.ended r)
  | findNone {g d reason} : x.activeConnections g d = none → Goes x (.find g d reason) x [] (.ended (.ok ()))
  | find {g d reason conn} : x.activeConnections g d = some conn →
      Goes x (.find g d reason) x [] (.closeFound g d conn reason)
  | closeFound {g d conn reason} :
      Goes x (.closeFound g d conn reason) (x.close conn.connectionId) [] (.ask g d conn.connectionId)
  | own {g d id} : x.hashes (.connection d) = some id →
      Goes x (.ask g d id) x [.asked d id (some id)] (.deleteConnection g d id)
  | other {g d id} : x.hashes (.connection d) ≠ some id →
      Goes x (.ask g d id) x [.asked d id (x.hashes (.connection d))] (.remove g d id)
  | askFailed {g d id} : Goes x (.ask g d id) x [] (.ended (.error .valkey))
  | deleteConnection {g d id} : Goes x (.deleteConnection g d id) (x.setHash (.connection d) none)
      [.deleted (.connection d) id (x.hashes (.connection d))] (.deletePresence g d id)
  | deleteConnectionFailed {g d id} : Goes x (.deleteConnection g d id) x [] (.ended (.error .valkey))
  | deletePresence {g d id} : Goes x (.deletePresence g d id) (x.setHash (.presence d) none)
      [.deleted (.presence d) id (x.hashes (.presence d))] (.remove g d id)
  | deletePresenceFailed {g d id} : Goes x (.deletePresence g d id) x [] (.ended (.error .valkey))
  | removed {g d id conn} : x.activeConnections g d = some conn → conn.connectionId = id →
      Goes x (.remove g d id) (x.drop g d) [.removed g d conn] (.ended (.ok ()))
  | kept {g d id} : (∀ conn, x.activeConnections g d = some conn → conn.connectionId ≠ id) →
      Goes x (.remove g d id) x [] (.ended (.ok ()))

abbrev Space := World Unit Ext Empty Empty Ev

theorem exec_eff {i : Nat} {ch : Bool} {w w' : Space} {β : Type} {e : Eff β} {r}
    (h : sys.exec i ch (.eff e) w = some (r, w')) :
    r = (e.handle ch w.sh.ext).1 ∧ w'.sh.ext = (e.handle ch w.sh.ext).2.1 ∧
      w'.sh.trace = w.sh.trace ++ (e.handle ch w.sh.ext).2.2.map (i, ·) := by
  simp only [Sys.exec] at h
  cases h
  exact ⟨rfl, rfl, rfl⟩

theorem Phase.goes {ph : Phase} {i : Nat} {ch : Bool} {w w' : Space} {β : Type} {c : Stmt β} {k r}
    (h : ph.prog = .op c k) (he : sys.exec i ch c w = some (r, w')) : ∃ vs ph', Goes w.sh.ext ph w'.sh.ext vs ph' ∧
      k r = ph'.prog ∧ w'.sh.trace = w.sh.trace ++ vs.map (i, ·) := by
  cases ph with
  | lookUp g conn =>
    cases h
    obtain ⟨rfl, hx, ht⟩ := exec_eff he
    simp only [Eff.handle] at hx ht ⊢
    split at hx <;> rename_i hc <;> simp only [hc] at ht ⊢ <;> rw [hx, ht]
    · exact ⟨_, _, .found hc, rfl, rfl⟩
    · exact ⟨_, _, .alone hc, rfl, rfl⟩
  | closeOld g conn old =>
    cases h
    obtain ⟨rfl, hx, ht⟩ := exec_eff he
    rw [hx, ht]
    exact ⟨_, _, .closeOld, rfl, rfl⟩
  | install g conn old =>
    cases h
    obtain ⟨rfl, hx, ht⟩ := exec_eff he
    rw [hx, ht]
    exact ⟨_, _, .install, rfl, rfl⟩
  | hset key id ttl =>
    cases h
    obtain ⟨rfl, hx, ht⟩ := exec_eff he
    rw [hx, ht]
    cases ch with
    | true => exact ⟨_, _, .wrote, rfl, rfl⟩
    | false => exact ⟨_, _, .writeFailed, rfl, rfl⟩
  | expire key ttl =>
    cases h
    obtain ⟨rfl, hx, ht⟩ := exec_eff he
    rw [hx, ht]
    cases ch with
    | true => exact ⟨_, .ended (.ok ()), .expire, rfl, rfl⟩
    | false => exact ⟨_, .ended (.error .valkey), .expire, rfl, rfl⟩
  | find g d reason =>
    cases h
    obtain ⟨rfl, hx, ht⟩ := exec_eff he
    rw [hx, ht]
    simp only [Eff.handle]
    cases hc : w.sh.ext.activeConnections g d with
    | none => exact ⟨_, _, .findNone hc, rfl, rfl⟩
    | some conn => exact ⟨_, _, .find hc, rfl, rfl⟩
  | closeFound g d conn reason =>
    cases h
    obtain ⟨rfl, hx, ht⟩ := exec_eff he
    rw [hx, ht]
    exact ⟨_, _, .closeFound, rfl, rfl⟩
  | ask g d id =>
    cases h
    obtain ⟨rfl, hx, ht⟩ := exec_eff he
    rw [hx, ht]
    cases ch with
    | false => exact ⟨_, _, .askFailed, rfl, rfl⟩
    | true =>
      simp only [Eff.handle, awaiting, if_true, Prog.ofExcept_ok, Prog.ret_bind, deleteRecords]
      by_cases hc : w.sh.ext.hashes (.connection d) = some id
      · rw [if_pos hc, hc]
        exact ⟨_, _, .own hc, rfl, rfl⟩
      · rw [if_neg hc]
        exact ⟨_, _, .other hc, rfl, rfl⟩
  | deleteConnection g d id =>
    cases h
    obtain ⟨rfl, hx, ht⟩ := exec_eff he
    rw [hx, ht]
    cases ch with
    | true => exact ⟨_, _, .deleteConnection, rfl, rfl⟩
    | false => exact ⟨_, _, .deleteConnectionFailed, rfl, rfl⟩
  | deletePresence g d id =>
    cases h
    obtain ⟨rfl, hx, ht⟩ := exec_eff he
    rw [hx, ht]
    cases ch with
    | true => exact ⟨_, _, .deletePresence, rfl, rfl⟩
    | false => exact ⟨_, _, .deletePresenceFailed, rfl, rfl⟩
  | remove g d id =>
    cases h
    obtain ⟨rfl, hx, ht⟩ := exec_eff he
    rw [hx, ht]
    simp only [Eff.handle]
    cases hc : w.sh.ext.activeConnections g d with
    | none => exact ⟨_, _, .kept (by simp [hc]), rfl, rfl⟩
    | some conn =>
      by_cases hid : conn.connectionId = id
      · simp only [hid, if_true]
        exact ⟨_, _, .removed hc hid, rfl, rfl⟩
      · simp only [hid, if_false]
        exact ⟨_, _, .kept (by simp [hc, hid]), rfl, rfl⟩
  | ended r => cases r <;> cases h

def Call.Unregisters (g : GatewayId) (d : UUID) : Call → Prop
  | .unregister h e _ => h = g ∧ e = d
  | .closeDeviceConnection h e _ => h = g ∧ e = d
  | _ => False

inductive At : Call → Phase → Prop
  | lookUp {g conn} : At (.register g conn) (.lookUp g conn)
  | closeOld {g conn old} : At (.register g conn) (.closeOld g conn old)
  | install {g conn old} : At (.register g conn) (.install g conn old)
  | hset {g conn} : At (.register g conn) (.hset (.connection conn.deviceId) conn.connectionId 180)
  | expire {g conn} : At (.register g conn) (.expire (.connection conn.deviceId) 180)
  | heartbeat {g conn} : At (.heartbeat g conn) (.hset (.presence conn.deviceId) conn.connectionId 90)
  | lasting {g conn} : At (.heartbeat g conn) (.expire (.presence conn.deviceId) 90)
  | find {g d reason} : At (.closeDeviceConnection g d reason) (.find g d reason)
  | closeFound {g d reason conn} : At (.closeDeviceConnection g d reason) (.closeFound g d conn reason)
  | ask {call g d id} : call.Unregisters g d → At call (.ask g d id)
  | deleteConnection {call g d id} : call.Unregisters g d → At call (.deleteConnection g d id)
  | deletePresence {call g d id} : call.Unregisters g d → At call (.deletePresence g d id)
  | remove {call g d id} : call.Unregisters g d → At call (.remove g d id)
  | ended {call r} : At call (.ended r)

theorem At.first : ∀ call, At call call.first
  | .register .. => .lookUp
  | .unregister .. => .ask ⟨rfl, rfl⟩
  | .closeDeviceConnection .. => .find
  | .heartbeat .. => .heartbeat

theorem At.goes {call : Call} {x x' : Ext} {ph ph' : Phase} {vs : List Ev} (h : At call ph)
    (hg : Goes x ph x' vs ph') : At call ph' := by
  cases hg with
  | alone => cases h; exact .hset
  | found => cases h; exact .closeOld
  | closeOld => cases h; exact .install
  | install => cases h; exact .hset
  | wrote =>
    cases h with
    | hset => exact .expire
    | heartbeat => exact .lasting
  | find => cases h; exact .closeFound
  | closeFound => cases h; exact .ask ⟨rfl, rfl⟩
  | own => cases h with | ask hu => exact .deleteConnection hu
  | other => cases h with | ask hu => exact .remove hu
  | deleteConnection => cases h with | deleteConnection hu => exact .deletePresence hu
  | deletePresence => cases h with | deletePresence hu => exact .remove hu
  | _ => exact .ended

/-! ## A step of the gateways -/

abbrev Process := Sys.Proc Unit Empty Empty Empty Call Err Eff

inductive Moved (c c' : Conf) : Prop
  | run {i call ph vs ph'} : c.procs[i]? = some ⟨call, ph.prog⟩ → At call ph →
      Goes c.world.sh.ext ph c'.world.sh.ext vs ph' → c'.procs = c.procs.set i ⟨call, ph'.prog⟩ →
      c'.world.sh.trace = c.world.sh.trace ++ vs.map (i, ·) → Moved c c'
  | start {call} : call.Admitted c.world.sh.ext → c'.procs = c.procs ++ [⟨call, call.first.prog⟩] →
      c'.world = c.world → Moved c c'
  | env : ExtStep c.world.sh.ext c'.world.sh.ext → c'.procs = c.procs →
      c'.world.sh.trace = c.world.sh.trace → Moved c c'

variable {c c' : Conf}

theorem placed {i : Nat} {p : Process} (h : sys.Reachable Init c) (hp : c.procs[i]? = some p) :
    ∃ ph, p.prog = ph.prog ∧ At p.call ph := by
  refine Sys.Reachable.history (Ψ := fun call _ prog => ∃ ph : Phase, prog = ph.prog ∧ At call ph) ?_ ?_ h hp
  · intro call
    exact ⟨call.first, (first_prog call).symm, .first call⟩
  · rintro call l β s k i ch r vs w w' ⟨ph, hph, ha⟩ he - -
    obtain ⟨us, ph', hg, hk, -⟩ := ph.goes hph.symm he
    exact ⟨ph', hk, ha.goes hg⟩

theorem moved (h : sys.Reachable Init c) (hs : sys.Step c c') : Moved c c' := by
  cases hs with
  | @run w w' ps i call _ s k ch r hp he =>
    obtain ⟨ph, hph, ha⟩ := placed h hp
    obtain ⟨vs, ph', hg, hk, ht⟩ := ph.goes hph.symm he
    exact .run (by rw [← hph]; exact hp) ha hg (by rw [← hk]) ht
  | @start w ps call ha => exact .start ha (by rw [first_prog]) rfl
  | env hx => exact .env hx rfl rfl

def Reporting (F : Conf → Nat → Ev → Prop) (c c' : Conf) : Prop :=
  sys.Step c c' ∧ ∀ i v, c'.world.sh.trace = c.world.sh.trace ++ [(i, v)] → F c i v

theorem Reporting.reachable {F : Conf → Nat → Ev → Prop} {c₀ : Conf} (h₀ : Sys.Initial Init c₀)
    (hr : ReflTransGen (Reporting F) c₀ c) : sys.Reachable Init c :=
  (Sys.Reachable.init h₀).runs (hr.lift id fun _ _ h => h.1)

/-- What holds at the start, and is kept by the steps whose reports satisfy `F`. -/
theorem Reporting.keeps {F : Conf → Nat → Ev → Prop} {K : Conf → Prop} {c₀ : Conf} (h₀ : Sys.Initial Init c₀)
    (hr : ReflTransGen (Reporting F) c₀ c) (hinit : K c₀) (hkeep : ∀ {a b}, K a → Moved a b →
      (∀ i v, b.world.sh.trace = a.world.sh.trace ++ [(i, v)] → F a i v) → K b) : K c := by
  induction hr with
  | refl => exact hinit
  | tail hr hs ih => exact hkeep ih (moved (Reporting.reachable h₀ hr) hs.1) hs.2

/-! ## The registrations of a device -/

def Call.registers (d : UUID) : Call → Option UUID
  | .register _ conn => if conn.deviceId = d then some conn.connectionId else none
  | _ => none

/-- The connections for which `register` has been called, in the order of the calls. -/
def registrations (d : UUID) (c : Conf) : List UUID := (c.procs.map (·.call)).filterMap (Call.registers d)

theorem mem_registrations {d id : UUID} : id ∈ registrations d c ↔
    ∃ p ∈ c.procs, ∃ g conn, p.call = .register g conn ∧ conn.deviceId = d ∧ conn.connectionId = id := by
  rw [registrations, List.mem_filterMap]
  constructor
  · rintro ⟨call, hmem, hid⟩
    obtain ⟨p, hp, rfl⟩ := List.mem_map.mp hmem
    refine ⟨p, hp, ?_⟩
    cases hc : p.call with
    | register g conn =>
      rw [hc, Call.registers] at hid
      split at hid
      · rename_i hd
        exact ⟨g, conn, rfl, hd, Option.some.inj hid⟩
      · cases hid
    | _ => rw [hc] at hid; cases hid
  · rintro ⟨p, hp, g, conn, hc, hd, hid⟩
    exact ⟨p.call, List.mem_map_of_mem hp, by rw [hc, Call.registers, if_pos hd, hid]⟩

theorem registrations_moved (d : UUID) (h : Moved c c') :
    ∃ l, registrations d c' = registrations d c ++ l ∧ l.length ≤ 1 := by
  cases h with
  | @run i call ph _ ph' hi _ _ hp _ =>
    refine ⟨[], ?_, Nat.zero_le 1⟩
    have hcalls : (c.procs.set i ⟨call, ph'.prog⟩).map (·.call) = c.procs.map (·.call) := by
      refine List.ext_getElem? fun j => ?_
      by_cases hij : i = j
      · subst hij
        rw [List.getElem?_map, List.getElem?_map, hi, List.getElem?_set_self (List.getElem?_eq_some_iff.mp hi).1]
        rfl
      · simp [List.getElem?_set_ne hij]
    rw [registrations, hp, hcalls, List.append_nil, registrations]
  | @start call _ hp _ =>
    refine ⟨(call.registers d).toList, ?_, ?_⟩
    · rw [registrations, hp, List.map_append, List.filterMap_append]
      congr 1
    · cases call.registers d <;> simp
  | env _ hp _ => exact ⟨[], by simp [registrations, hp], Nat.zero_le 1⟩

/-! ## Schedules -/

inductive Move where
  | call (call : Call)
  | hangUp (connectionId : UUID)

def Move.next : Move → Unit → Ext → Option (Call ⊕ Ext)
  | .call (.heartbeat g conn), _, x => if conn ∈ x.registered then some (.inl (.heartbeat g conn)) else none
  | .call a, _, _ => some (.inl a)
  | .hangUp id, _, x => some (.inr (x.close id))

def moves : sys.Moves Move where
  next := Move.next
  call {m _ _ _} h := by
    cases m with
    | call a =>
      cases a with
      | heartbeat g conn =>
        simp only [Move.next] at h
        split at h
        · cases h; assumption
        · cases h
      | _ => cases h; trivial
    | hangUp => cases h
  env {m _ _ _} h := by
    cases m with
    | call a =>
      cases a with
      | heartbeat g conn => simp only [Move.next] at h; split at h <;> cases h
      | _ => cases h
    | hangUp => cases h; exact .hungUp

def passes (f : Conf → Nat → Ev → Bool) (c : Conf) (t : Turn Move) : Bool :=
  match Sys.turn moves c t with
  | some c' => (c'.world.sh.trace.drop c.world.sh.trace.length).all fun e => f c e.1 e.2
  | none => false

theorem passes_reporting {F : Conf → Nat → Ev → Prop} {f : Conf → Nat → Ev → Bool}
    (hf : ∀ c i v, f c i v = true → F c i v)
    {t : Turn Move} (hp : passes f c t = true) (h : Sys.turn moves c t = some c') : Reporting F c c' := by
  refine ⟨Sys.turn_step _ h, fun i v ht => hf c i v ?_⟩
  simp only [passes, h, ht, List.drop_left, List.all_cons, List.all_nil, Bool.and_true] at hp
  exact hp

def gatewayStart : Conf where
  world := ⟨⟨(), ⟨fun _ _ => none, [], fun _ => none, []⟩, []⟩, fun _ => none, fun _ => ⟨[], false⟩⟩
  procs := []

theorem gatewayStart_initial : Sys.Initial Init gatewayStart where
  procs := rfl
  trace := rfl
  locks _ := rfl
  sess _ := rfl
  init := ⟨fun _ _ => rfl, fun _ => rfl, rfl⟩

end Manager

end Veyaan
