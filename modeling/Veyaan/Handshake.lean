import Veyaan.Identifiers
import Veyaan.Protocol

/-!
# The handshake of the gateway

`websocket_endpoint` from its first line to `connection_manager.register`, with
the challenge in Valkey, and `device_lifecycle_callback`, which closes the
connection of a revoked device. Any number of them run at once. What a socket
delivers is left to the environment, and so is the database, in which the
devices keep their owners and their keys.
-/

namespace Veyaan

/-- `auth_data.get(key)`. Of two fields of one name `json.loads` keeps the last. -/
def getField (l : List (String × Json)) (key : String) : Option Json := l.reverse.lookup key

def DB.KeepsDevices (d d' : DB) : Prop :=
  ∀ id r, d.devices.find id = some r → ∃ r', d'.devices.find id = some r' ∧ r.Same r'

namespace Ws

/-! ## Surroundings -/

/-- The parts of the gateway's surroundings that are left open. -/
structure Params where
  valkeyKeyPrefix : String := "veyaan:dev:"
  /-- The values of `os.urandom(32).hex()`, one call after the other. -/
  urandomHex : Nat → String
  isoformat : Time → String
  /-- `UUID(s)`, or a `ValueError`. -/
  parseUuid : String → Option UUID
  str : Json → String
  /-- `Ed25519PublicKey.from_public_bytes(b64decode(key)).verify(b64decode(signature), message)`
  returns. The text of the message stands for its UTF-8 form. -/
  verify : String → String → String → Bool

inductive Err where
  | websocket
  | valkey
  | db
  | valueError
  | attributeError
  | typeError
  deriving DecidableEq, Repr

structure Challenge where
  createdAt : Time
  nonce : String

/-- What `websocket.receive` comes to: a frame, as text or bytes, that decodes to
JSON or does not, a message without a frame, or an exception. -/
inductive Received where
  | frame (authData : Json)
  | undecodable
  | empty
  | timeout
  | raised

inductive ServerMessage where
  | authChallenge (nonce : String) (connectionId : UUID) (serverTime : String) (supportedProtocols : List String)
  | error (code message : String)
  | welcome (connectionId : UUID) (serverTime : Time) (protocolVersion : String) (emergencyStopActive : Bool)

structure Ext where
  db : DB
  valkey : String → Option Challenge
  /-- `valkey_client.client` is not `None`. -/
  connected : Bool
  /-- The `connection_id` of each hash in Valkey, prefix left out. -/
  hashes : String → Option UUID
  activeConnections : UUID → Option DeviceConnection
  closed : List UUID
  clock : Time
  nextId : UUID
  nonces : Nat
  /-- What the next `websocket.receive` comes to. -/
  inbox : Received
  /-- What the next `is_active` answers. -/
  stopped : Bool

inductive Ev where
  | drew (id : UUID)
  | generated (nonce : String)
  | sent (m : ServerMessage)
  | closed (code : Nat) (reason : String)
  | received (r : Received)
  | deviceRead (deviceId : UUID) (row : Option Device)
  | getdel (key : String) (value : Option Challenge)
  | registered (conn : DeviceConnection)
  | rejected (e : Err)

inductive Eff : Type → Type
  | uuid4 : Eff UUID
  | now : Eff Time
  | urandomHex : Eff String
  | accept : Eff Unit
  | sendJson (m : ServerMessage) : Eff Unit
  | close (code : Nat) (reason : String) : Eff Unit
  | receive : Eff Received
  | set (key : String) (value : Challenge) (ttl : Nat) : Eff Bool
  | getdel (key : String) : Eff (Option Challenge)
  | getDevice (deviceId : UUID) : Eff (Option Device)
  | isActive (ownerId : UUID) : Eff Bool
  | getActive (deviceId : UUID) : Eff (Option DeviceConnection)
  /-- `DeviceConnection.close`, which swallows its exceptions. -/
  | closeConnection (conn : DeviceConnection) (code : Nat) (reason : String) : Eff Unit
  | setActive (conn : DeviceConnection) : Eff Unit
  /-- `del self.active_connections[device_id]`, if the connection is this one. -/
  | delActive (deviceId connectionId : UUID) : Eff Unit
  | setHash (key : String) (connectionId gatewayId : UUID) (connectedAt : Time) (ttl : Nat) : Eff Unit
  | getHash (key : String) : Eff (Option UUID)
  | deleteHash (key : String) : Eff Unit
  | delete (key : String) : Eff Unit

def raising {β : Type} (ch : Bool) (e : Err) (x : Ext) (a : β) (vs : List Ev) : Except Err β × Ext × List Ev :=
  if ch then (.ok a, x, vs) else (.error e, x, [])

def Eff.handle (C : Params) (ch : Bool) : {β : Type} → Eff β → Ext → Except Err β × Ext × List Ev
  | _, .uuid4, x => (.ok x.nextId, { x with nextId := x.nextId + 1 }, [.drew x.nextId])
  | _, .now, x => (.ok x.clock, x, [])
  | _, .urandomHex, x =>
    (.ok (C.urandomHex x.nonces), { x with nonces := x.nonces + 1 }, [.generated (C.urandomHex x.nonces)])
  | _, .accept, x => raising ch .websocket x () []
  | _, .sendJson m, x => raising ch .websocket x () [.sent m]
  | _, .close code reason, x => raising ch .websocket x () [.closed code reason]
  | _, .receive, x => (.ok x.inbox, x, [.received x.inbox])
  | _, .set key value _, x =>
    if !ch then (.error .valkey, x, [])
    else if x.connected then
      (.ok true, { x with valkey := fun k => if k = key then some value else x.valkey k }, [])
    else (.ok false, x, [])
  | _, .getdel key, x =>
    if !ch then (.error .valkey, x, [])
    else if x.connected then
      (.ok (x.valkey key), { x with valkey := fun k => if k = key then none else x.valkey k },
        [.getdel key (x.valkey key)])
    else (.ok none, x, [.getdel key none])
  | _, .getDevice id, x => raising ch .db x (x.db.devices.find id) [.deviceRead id (x.db.devices.find id)]
  | _, .isActive _, x => raising ch .db x x.stopped []
  | _, .getActive id, x => (.ok (x.activeConnections id), x, [])
  -- the socket is closed, also when `close` raises: it was closed before then
  | _, .closeConnection conn _ _, x => (.ok (), { x with closed := conn.connectionId :: x.closed }, [])
  | _, .setActive conn, x =>
    (.ok (),
      { x with activeConnections := fun id => if id = conn.deviceId then some conn else x.activeConnections id },
      [.registered conn])
  | _, .delActive id connectionId, x =>
    (.ok (),
      { x with
        activeConnections := fun k =>
          if k = id then (x.activeConnections id).filter (·.connectionId ≠ connectionId)
          else x.activeConnections k },
      [])
  | _, .setHash key connectionId .., x =>
    raising ch .valkey
      (if ch && x.connected then { x with hashes := fun k => if k = key then some connectionId else x.hashes k }
        else x) () []
  | _, .getHash key, x => raising ch .valkey x (if x.connected then x.hashes key else none) []
  | _, .deleteHash key, x =>
    raising ch .valkey
      (if ch && x.connected then { x with hashes := fun k => if k = key then none else x.hashes k } else x) () []
  | _, .delete key, x =>
    raising ch .valkey
      (if ch && x.connected then { x with valkey := fun k => if k = key then none else x.valkey k } else x) () []

/-- What happens besides: the database moves on, keys of Valkey expire, Valkey
comes and goes, its hashes change, connections end, time passes, identifiers and random bytes are
used elsewhere, and the sockets and `is_active` give any answer. -/
inductive ExtStep (x : Ext) : Ext → Prop
  | store {d} : x.db.KeepsDevices d → ExtStep x { x with db := d }
  | expire {key} : ExtStep x { x with valkey := fun k => if k = key then none else x.valkey k }
  | connected {b} : ExtStep x { x with connected := b }
  | hashes {f} : ExtStep x { x with hashes := f }
  | unregister {dev} :
      ExtStep x { x with activeConnections := fun id => if id = dev then none else x.activeConnections id }
  | closed {id} : ExtStep x { x with closed := id :: x.closed }
  | clock {t} : x.clock ≤ t → ExtStep x { x with clock := t }
  | nextId {n} : x.nextId ≤ n → ExtStep x { x with nextId := n }
  | nonces {n} : x.nonces ≤ n → ExtStep x { x with nonces := n }
  | inbox {r} : ExtStep x { x with inbox := r }
  | stopped {b} : ExtStep x { x with stopped := b }

abbrev Stmt := Prim Unit Empty Empty Empty Err Eff
abbrev Op := Prog Stmt Err

def effect {α : Type} (e : Eff α) : Op α := .call (.eff e)

/-! ## The challenge -/

def challengeKey (nonce : String) : String := "ws:challenge:" ++ nonce

def Params.nonceKey (C : Params) (nonce : String) : String := C.valkeyKeyPrefix ++ challengeKey nonce

def generateChallenge (C : Params) : Op String := do
  let nonce ← effect .urandomHex
  let createdAt ← effect .now
  let _ ← effect (.set (C.nonceKey nonce) ⟨createdAt, nonce⟩ 30)
  return nonce

def consumeChallenge (C : Params) (nonce : String) : Op Bool := do
  let value ← effect (.getdel (C.nonceKey nonce))
  return value.isSome

/-- `f"{device_id}:{connection_id}:{nonce}:{server_time_iso}:{protocol_version}:{app_version}"`. -/
def buildChallengeMessage (deviceId connectionId : UUID)
    (nonce serverTimeIso protocolVersion appVersion : String) : String :=
  .ofList (strUuid deviceId ++ ':' :: (strUuid connectionId ++ ':' :: (nonce.toList ++
    ':' :: (serverTimeIso.toList ++ ':' :: (protocolVersion.toList ++ ':' :: appVersion.toList)))))

def verifyEd25519Signature (C : Params) (publicKeyB64 message : String) : Json → Bool
  | .str signatureB64 => C.verify publicKeyB64 message signatureB64
  | _ => false

def Params.format (C : Params) : Json → String
  | .str s => s
  | j => C.str j

def verifyDeviceChallengeResponse (C : Params) (deviceId connectionId : UUID) (nonce : String)
    (serverTimeIso signatureB64 : Json) (publicKeyB64 : String) (protocolVersion appVersion : Json) :
    Op (Bool × String) := do
  let nonceValid ← consumeChallenge C nonce
  if !nonceValid then return (false, "Challenge nonce invalid or expired")
  else
    let message := buildChallengeMessage deviceId connectionId nonce
      (C.format serverTimeIso) (C.format protocolVersion)
      (C.format appVersion)
    if !verifyEd25519Signature C publicKeyB64 message signatureB64 then return (false, "Invalid device signature")
    else return (true, "")

/-! ## `ConnectionManager.register` -/

def closeOld : Option DeviceConnection → Op Unit
  | some old => effect (.closeConnection old 4000 "Replaced by new connection")
  | none => return ()

def register (conn : DeviceConnection) (gatewayInstanceId : UUID) : Op Unit := do
  let old ← effect (.getActive conn.deviceId)
  closeOld old
  effect (.setActive conn)
  let connectedAt ← effect .now
  effect (.setHash ("device:connection:" ++ .ofList (strUuid conn.deviceId)) conn.connectionId
    gatewayInstanceId connectedAt 180)

def deletePresence (C : Params) (deviceId connectionId : UUID) (valkeyConn : Option UUID) : Op Unit :=
  if valkeyConn = some connectionId then do
    effect (.deleteHash ("device:connection:" ++ .ofList (strUuid deviceId)))
    effect (.delete (C.valkeyKeyPrefix ++ ("device:presence:" ++ .ofList (strUuid deviceId))))
  else return ()

def unregister (C : Params) (deviceId connectionId : UUID) : Op Unit := do
  let valkeyConn ← effect (.getHash ("device:connection:" ++ .ofList (strUuid deviceId)))
  deletePresence C deviceId connectionId valkeyConn
  effect (.delActive deviceId connectionId)

def closeDeviceConnection (C : Params) (deviceId : UUID) (reason : String) : Op Unit := do
  match ← effect (.getActive deviceId) with
  | some conn =>
    effect (.closeConnection conn 4002 reason)
    unregister C deviceId conn.connectionId
  | none => return ()

/-! ## `websocket_endpoint` -/

def refuse (code message reason : String) : Op Unit := do
  effect (.sendJson (.error code message))
  effect (.close 4001 reason)

/-- The fields of an `auth_response`, with the defaults that `get` has for them. -/
structure AuthResponse where
  deviceIdStr : Json
  signatureB64 : Json
  clientProtocol : Json
  clientAppVersion : Json
  authServerTime : Json

def readResponse (fields : List (String × Json))
    (protocolVersion appVersion serverTimeIso : String) : AuthResponse where
  deviceIdStr := (getField fields "device_id").getD (.str "")
  signatureB64 := (getField fields "signature").getD (.str "")
  clientProtocol := (getField fields "protocol_version").getD (.str protocolVersion)
  clientAppVersion := (getField fields "app_version").getD (.str appVersion)
  authServerTime := (getField fields "server_time").getD (.str serverTimeIso)

/-- `UUID(device_id_str)`. -/
def parseDeviceId (C : Params) : Json → Except Err UUID
  | .str s =>
    match C.parseUuid s with
    | some id => .ok id
    | none => .error .valueError
  | .null => .error .typeError
  | _ => .error .attributeError

def welcome (connectionId deviceId ownerId : UUID) : Op Unit := do
  let emergencyStopActive ← effect (.isActive ownerId)
  let gatewayInstanceId ← effect .uuid4
  let serverTime ← effect .now
  effect (.sendJson (.welcome connectionId serverTime "v1" emergencyStopActive))
  register ⟨deviceId, ownerId, connectionId⟩ gatewayInstanceId

def authenticate (C : Params) (connectionId : UUID) (nonce : String) (a : AuthResponse)
    (deviceId : UUID) : Op Unit := do
  match ← effect (.getDevice deviceId) with
  | none => refuse "AUTH_FAILED" "Device not found or not trusted" "Device not authorized"
  | some device =>
    if device.trustStatus ≠ .trusted ∨ device.revokedAt.isSome then
      refuse "AUTH_FAILED" "Device not found or not trusted" "Device not authorized"
    else
      let result ← verifyDeviceChallengeResponse C deviceId connectionId nonce a.authServerTime a.signatureB64
        device.info.devicePublicIdentity a.clientProtocol a.clientAppVersion
      if result.1 then welcome connectionId deviceId device.ownerId
      else refuse "AUTH_FAILED" "Authentication failed" "Auth failed"

/-- `auth_data.get("type") != "auth_response"` is false. -/
def isAuthResponse (fields : List (String × Json)) : Bool :=
  match getField fields "type" with
  | some (.str s) => s == "auth_response"
  | _ => false

def respond (C : Params) (protocolVersion appVersion : String) (connectionId : UUID)
    (serverTimeIso nonce : String) :
    Json → Op Unit
  | .obj fields => do
    if !isAuthResponse fields then refuse "AUTH_FAILED" "Expected auth_response" "Protocol error"
    else
      let a := readResponse fields protocolVersion appVersion serverTimeIso
      match parseDeviceId C a.deviceIdStr with
      | .ok deviceId => authenticate C connectionId nonce a deviceId
      | .error .typeError => .throw .typeError
      | .error _ => refuse "AUTH_FAILED" "Invalid device_id" "Invalid device_id"
  -- only a dictionary has a `get`
  | _ => .throw .attributeError

/-- What follows `websocket.receive`. -/
def receiveResponse (C : Params) (protocolVersion appVersion : String) (connectionId : UUID)
    (serverTimeIso nonce : String) :
    Received → Op Unit
  | .frame authData => respond C protocolVersion appVersion connectionId serverTimeIso nonce authData
  | .undecodable => refuse "INVALID_JSON" "Invalid auth response" "Invalid JSON"
  | .empty => do
    -- this `close` stands in the `try` as well
    match ← (effect (.close 4001 "Empty auth frame")).attempt with
    | .ok _ => return ()
    | .error _ => effect (.close 4001 "Connection error during auth")
  | .timeout => refuse "AUTH_TIMEOUT" "Authentication timed out" "Auth timeout"
  | .raised => effect (.close 4001 "Connection error during auth")

def supportedProtocols : List String := ["v1"]

def websocketEndpoint (C : Params) (protocolVersion appVersion : String) : Op Unit := do
  let connectionId ← effect .uuid4
  let serverTime ← effect .now
  if protocolVersion ∉ supportedProtocols then
    effect (.close 4003 ("Protocol version '" ++ protocolVersion ++ "' not supported. Supported: ['v1']"))
  else
    effect .accept
    let nonce ← generateChallenge C
    effect (.sendJson (.authChallenge nonce connectionId (C.isoformat serverTime) ["v1"]))
    let r ← effect .receive
    receiveResponse C protocolVersion appVersion connectionId (C.isoformat serverTime) nonce r

/-! ## `device_lifecycle_callback` -/

/-- `bool(value)`. -/
def truthy : Json → Bool
  | .null => false
  | .bool b => b
  | .num m _ => m != 0
  | .nonFinite _ => true
  | .str s => s != ""
  | .arr l => !l.isEmpty
  | .obj l => !l.isEmpty

def isRevoked : Json → Bool
  | .str s => s == "revoked"
  | _ => false

/-- The device whose connection the callback closes. There is none if it returns at
once, or logs an exception of `json.loads`, `data.get` or `UUID`. -/
def revokedDevice (C : Params) : Option Json → Option UUID
  | some (.obj fields) =>
    let state := (getField fields "state").getD (.str "")
    let deviceIdStr := (getField fields "device_id").getD (.str "")
    if isRevoked state && truthy deviceIdStr then (parseDeviceId C deviceIdStr).toOption else none
  | _ => none

/-- `data` is what `json.loads` gives, or `none` if it raises. -/
def deviceLifecycleCallback (C : Params) (data : Option Json) : Op Unit :=
  match revokedDevice C data with
  | some deviceId => do
    -- what this raises is logged
    let _ ← (closeDeviceConnection C deviceId "Device revoked").attempt
    return ()
  | none => return ()

/-! ## All handshakes -/

/-- A client opens a connection, with these query parameters, or a message arrives on
`veyaan.device.lifecycle.>`. -/
inductive Call where
  | connect (protocolVersion appVersion : String)
  | lifecycle (data : Option Json)

theorem rows_framed : ∀ (w : Empty) (_d : Unit) (k : Empty), k ∉ (w.elim : List Empty) → () = () := fun w => w.elim

theorem rows_set : ∀ (w : Empty) (_d _d' : Unit) (k : Empty), k ∈ (w.elim : List Empty) → () = () := fun w => w.elim

def sys (C : Params) : Sys Unit Ext Empty Empty Unit Empty Ev Call Err Eff where
  apply w := w.elim
  keys w := w.elim
  row _ _ := ()
  frame := rows_framed
  sets := rows_set
  see t := t.elim
  rejected := .rejected
  handle ch e x := e.handle C ch x
  dbError := .db
  code
    | .connect protocolVersion appVersion => websocketEndpoint C protocolVersion appVersion
    | .lifecycle data => deviceLifecycleCallback C data
  admits _ _ _ := True
  env _ x x' := ExtStep x x'

abbrev Conf := Sys.Config Unit Ext Empty Empty Empty Ev Call Err Eff

def Reachable (C : Params) (c : Conf) : Prop := (sys C).Reachable (fun _ _ => True) c

end Ws

end Veyaan
