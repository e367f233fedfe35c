import Veyaan.Handshake
import Veyaan.Lib.Python

/-!
# The authentication phase, on any frame

`websocket_endpoint` again, from the first frame to `connection_manager.register`,
now with the frame as it arrives: bytes that need not be UTF-8, text that need
not be JSON, values of any type, and strings that have no UTF-8 form. `Ws` is
what it does on a frame whose strings all have one. The connection keeps the
versions that it was registered with.
-/

namespace Veyaan

open Python

namespace Ws

def perform {α : Type} (C : Params) : Op α → Ext → Except Err α × Ext × List Ev
  | .ret a, x => (.ok a, x, [])
  | .throw e, x => (.error e, x, [])
  | .op (.eff e) k, x =>
    let r := e.handle C true x
    let r' := perform C (k r.1) r.2.1
    (r'.1, r'.2.1, r.2.2 ++ r'.2.2)
  -- a handshake makes no other request
  | .op _ _, x => (.error .db, x, [])

section
variable {α β : Type} {C : Params} {x : Ext}

@[simp] theorem perform_ret (a : α) : perform C (.ret a) x = (.ok a, x, []) := rfl

@[simp] theorem perform_throw (e : Err) : perform C (.throw e : Op α) x = (.error e, x, []) := rfl

@[simp] theorem perform_effect (e : Eff α) : perform C (effect e) x = e.handle C true x := by
  have h : ∀ r : Except Err α × Ext × List Ev, perform C (Prog.ofExcept r.1) r.2.1 = (r.1, r.2.1, []) := by
    rintro ⟨r, x', l⟩
    cases r <;> rfl
  simp only [effect, Prog.call, perform, h, List.append_nil]

theorem perform_bind (f : α → Op β) : ∀ (p : Op α) (x : Ext), perform C (p.bind f) x = match perform C p x with
    | (.ok a, x', l) => ((perform C (f a) x').1, (perform C (f a) x').2.1, l ++ (perform C (f a) x').2.2)
    | (.error e, x', l) => (.error e, x', l)
  | .ret a, x => by simp
  | .throw e, x => by simp
  | .op c k, x => by
    cases c with
    | eff e =>
      simp only [Prog.op_bind, perform]
      rw [perform_bind f (k _)]
      rcases perform C (k (e.handle C true x).1) (e.handle C true x).2.1 with ⟨r, x', l⟩
      cases r <;> simp
    | read | fresh | forUpdate | skipLocked | stmt | commit | rollback => rfl

@[simp] theorem perform_attempt (e : Eff α) : perform C (effect e).attempt x =
    (.ok (e.handle C true x).1, (e.handle C true x).2.1, (e.handle C true x).2.2) := by
  have h : ∀ r : Except Err α × Ext × List Ev,
      perform C (Prog.ofExcept r.1 : Op α).attempt r.2.1 = (.ok r.1, r.2.1, []) := by
    rintro ⟨r, x', l⟩
    cases r <;> rfl
  simp only [effect, Prog.call, Prog.attempt, perform, h, List.append_nil]

theorem perform_bind_ok {p : Op α} {f : α → Op β} {a : α} {x' : Ext} {l : List Ev}
    (h : perform C p x = (.ok a, x', l)) :
    perform C (p.bind f) x = ((perform C (f a) x').1, (perform C (f a) x').2.1, l ++ (perform C (f a) x').2.2) := by
  rw [perform_bind, h]

end

structure Challenged where
  connectionId : UUID
  serverTimeIso : String
  nonce : String

/-- `websocket_endpoint` up to `websocket.receive`, unless it has returned. -/
def challengeDevice (C : Params) (protocolVersion : String) : Op (Option Challenged) := do
  let connectionId ← effect .uuid4
  let serverTime ← effect .now
  if protocolVersion ∉ supportedProtocols then do
    effect (.close 4003 ("Protocol version '" ++ protocolVersion ++ "' not supported. Supported: ['v1']"))
    return none
  else
    effect .accept
    let nonce ← generateChallenge C
    effect (.sendJson (.authChallenge nonce connectionId (C.isoformat serverTime) ["v1"]))
    return some ⟨connectionId, C.isoformat serverTime, nonce⟩

theorem websocketEndpoint_eq (C : Params) (protocolVersion appVersion : String) :
    websocketEndpoint C protocolVersion appVersion = (challengeDevice C protocolVersion).bind fun
      | none => .ret ()
      | some s => (effect .receive).bind
        (receiveResponse C protocolVersion appVersion s.connectionId s.serverTimeIso s.nonce) := by
  unfold websocketEndpoint challengeDevice
  by_cases hv : protocolVersion ∉ supportedProtocols
  · simp only [if_pos hv, Prog.bind_eq, Prog.bind_assoc]
    refine congrArg (Prog.bind _) (funext fun connectionId => ?_)
    refine congrArg (Prog.bind _) (funext fun serverTime => ?_)
    exact (Prog.bind_ret _).symm
  · simp only [if_neg hv, Prog.bind_eq, Prog.bind_assoc]
    rfl

namespace Auth

structure Decoders where
  /-- `json.loads(s)`, or any exception. -/
  loads : String → Option Value
  str : Value → Except Err Text

/-- What `websocket.receive` comes to. -/
inductive Received where
  | bytes (raw : ByteArray)
  | text (t : Text)
  | empty
  | timeout
  | raised

structure Connection extends DeviceConnection where
  protocolVersion : Value
  appVersion : Value

structure AuthResponse where
  deviceIdStr : Value
  signatureB64 : Value
  clientProtocol : Value
  clientAppVersion : Value
  authServerTime : Value

section
variable (C : Params) (D : Decoders) (protocolVersion appVersion : String) (s : Challenged)

def readResponse (fields : List (Text × Value)) : AuthResponse where
  deviceIdStr := (get fields "device_id").getD (.ofString "")
  signatureB64 := (get fields "signature").getD (.ofString "")
  clientProtocol := (get fields "protocol_version").getD (.ofString protocolVersion)
  clientAppVersion := (get fields "app_version").getD (.ofString appVersion)
  authServerTime := (get fields "server_time").getD (.ofString s.serverTimeIso)

/-- `auth_data.get("type") != "auth_response"` is false. -/
def isAuthResponse (fields : List (Text × Value)) : Bool := (get fields "type").any (·.isString "auth_response")

/-- `UUID(device_id_str)`. No digit is a surrogate. -/
def parseDeviceId : Value → Except Err UUID
  | .str t =>
    match t.encode.bind C.parseUuid with
    | some id => .ok id
    | none => .error .valueError
  | .none => .error .typeError
  | _ => .error .attributeError

def Decoders.format : Value → Except Err Text
  | .str t => .ok t
  | v => D.str v

def buildChallengeMessage (deviceId connectionId : UUID) (nonce : String)
    (serverTimeIso protocolVersion appVersion : Value) : Except Err String := do
  let serverTimeIso ← D.format serverTimeIso
  let protocolVersion ← D.format protocolVersion
  let appVersion ← D.format appVersion
  let msgStr : Text :=
    .ofString (.ofList (strUuid deviceId ++ ':' :: (strUuid connectionId ++ ':' :: (nonce.toList ++ [':'])))) ++
    serverTimeIso ++ .ofString ":" ++ protocolVersion ++ .ofString ":" ++ appVersion
  match msgStr.encode with
  | some message => .ok message
  | none => .error .valueError

def verifyEd25519Signature (publicKeyB64 message : String) : Value → Bool
  | .str t => t.encode.any (C.verify publicKeyB64 message)
  | _ => false

def verifyDeviceChallengeResponse (deviceId : UUID) (a : AuthResponse) (publicKeyB64 : String) :
    Op (Bool × String) := do
  let nonceValid ← consumeChallenge C s.nonce
  if !nonceValid then return (false, "Challenge nonce invalid or expired")
  else
    let message ← Prog.ofExcept (buildChallengeMessage D deviceId s.connectionId s.nonce
      a.authServerTime a.clientProtocol
      a.clientAppVersion)
    if !verifyEd25519Signature C publicKeyB64 message a.signatureB64 then return (false, "Invalid device signature")
    else return (true, "")

def refuse (code message reason : String) : Op (Option Connection) := do
  Ws.refuse code message reason
  return none

def authenticate (a : AuthResponse) (deviceId : UUID) : Op (Option Connection) := do
  match ← effect (.getDevice deviceId) with
  | none => refuse "AUTH_FAILED" "Device not found or not trusted" "Device not authorized"
  | some device =>
    if device.trustStatus ≠ .trusted ∨ device.revokedAt.isSome then
      refuse "AUTH_FAILED" "Device not found or not trusted" "Device not authorized"
    else
      let result ← verifyDeviceChallengeResponse C D s deviceId a device.info.devicePublicIdentity
      if result.1 then
        welcome s.connectionId deviceId device.ownerId
        return some ⟨⟨deviceId, device.ownerId, s.connectionId⟩, a.clientProtocol, a.clientAppVersion⟩
      else refuse "AUTH_FAILED" "Authentication failed" "Auth failed"

/-- What follows `json.loads`. -/
def respond : Value → Op (Option Connection)
  | .dict fields =>
    if !isAuthResponse fields then refuse "AUTH_FAILED" "Expected auth_response" "Protocol error"
    else
      let a := readResponse protocolVersion appVersion s fields
      match parseDeviceId C a.deviceIdStr with
      | .ok deviceId => authenticate C D s a deviceId
      | .error .typeError => .throw .typeError
      | .error _ => refuse "AUTH_FAILED" "Invalid device_id" "Invalid device_id"
  -- only a dictionary has a `get`
  | _ => .throw .attributeError

def parseResponse (raw : ByteArray) : Op (Option Connection) :=
  match (decode raw).bind D.loads with
  | some authData => respond C D protocolVersion appVersion s authData
  | none => refuse "INVALID_JSON" "Invalid auth response" "Invalid JSON"

/-- What follows `websocket.receive`. -/
def receiveResponse : Received → Op (Option Connection)
  | .bytes raw => parseResponse C D protocolVersion appVersion s raw
  | .text t =>
    match t.encode with
    | some m => parseResponse C D protocolVersion appVersion s m.toUTF8
    | none => do
      effect (.close 4001 "Connection error during auth")
      return none
  | .empty => do
    -- this `close` stands in the `try` as well
    match ← (effect (.close 4001 "Empty auth frame")).attempt with
    | .ok _ => return none
    | .error _ =>
      effect (.close 4001 "Connection error during auth")
      return none
  | .timeout => refuse "AUTH_TIMEOUT" "Authentication timed out" "Auth timeout"
  | .raised => do
    effect (.close 4001 "Connection error during auth")
    return none

def challenge (x : Ext) : Challenged := ⟨x.nextId, C.isoformat x.clock, C.urandomHex x.nonces⟩

/-- `websocket_endpoint` up to the registration. While it waits for the frame, the
surroundings change as `wait` says. -/
def websocketEndpoint (m : Received) (wait : Ext → Ext) (x : Ext) :
    Except Err (Option Connection) × Ext × List Ev :=
  match perform C (challengeDevice C protocolVersion) x with
  | (.ok none, x', l) => (.ok none, x', l)
  | (.ok (some s), x', l) =>
    let out := perform C (receiveResponse C D protocolVersion appVersion s m) (wait x')
    (out.1, out.2.1, l ++ out.2.2)
  | (.error e, x', l) => (.error e, x', l)

def Received.value : Received → Option Value
  | .bytes raw => (decode raw).bind D.loads
  | .text t => t.encode.bind D.loads
  | _ => none

end

/-! ## Frames of plain strings -/

section
variable (C : Params) (D : Decoders)

inductive Alike : Value → Json → Prop
  | str {t : Text} {s : String} : t.encode = some s → Alike (.str t) (.str s)
  | none : D.str .none = .ok (.ofString (C.str .null)) → Alike .none .null
  | other {v : Value} {j : Json} : (∀ t, v ≠ .str t) → v ≠ .none → (∀ s, j ≠ .str s) → j ≠ .null →
      D.str v = .ok (.ofString (C.str j)) → Alike v j

def FieldAlike (p : Text × Value) (q : String × Json) : Prop := p.1.encode = some q.1 ∧ Alike C D p.2 q.2

end

section
variable {C : Params} {D : Decoders} {v : Value} {j : Json}

theorem Alike.ofString (s : String) : Alike C D (.ofString s) (.str s) := .str (Text.encode_ofString s)

theorem lookup_alike {l : List (Text × Value)} {l' : List (String × Json)}
    (h : List.Forall₂ (FieldAlike C D) l l') (key : String) :
    Option.Rel (Alike C D) (l.lookup (.ofString key)) (l'.lookup key) := by
  induction h with
  | nil => exact .none
  | @cons p q l l' hp _ ih =>
    obtain ⟨p, v⟩ := p
    obtain ⟨q, j⟩ := q
    obtain ⟨hk, hv⟩ := hp
    obtain rfl := Text.eq_ofString hk
    by_cases hq : key = q
    · subst hq
      simpa using Option.Rel.some hv
    · have hne : Text.ofString key ≠ Text.ofString q := fun he => hq (Text.ofString_inj he)
      rw [List.lookup_cons, List.lookup_cons, beq_false_of_ne hq, beq_false_of_ne hne]
      exact ih

theorem get_alike {l : List (Text × Value)} {l' : List (String × Json)}
    (h : List.Forall₂ (FieldAlike C D) l l') (key : String) :
    Option.Rel (Alike C D) (get l key) (getField l' key) :=
  lookup_alike (List.rel_reverse h) key

theorem getD_alike {l : List (Text × Value)} {l' : List (String × Json)}
    (h : List.Forall₂ (FieldAlike C D) l l') (key s : String) :
    Alike C D ((get l key).getD (.ofString s)) ((getField l' key).getD (.str s)) := by
  have := get_alike h key
  generalize get l key = a, getField l' key = b at this
  cases this with
  | none => exact .ofString s
  | some hv => exact hv

theorem parseDeviceId_alike (h : Alike C D v j) : parseDeviceId C v = Ws.parseDeviceId C j := by
  cases h with
  | @str t s ht =>
    cases hs : C.parseUuid s <;> simp only [parseDeviceId, Ws.parseDeviceId, ht, Option.bind_some, hs]
  | none => rfl
  | other hs hn hs' hn' _ =>
    unfold parseDeviceId Ws.parseDeviceId
    split
    · exact absurd rfl (hs _)
    · exact absurd rfl hn
    · split
      · exact absurd rfl (hs' _)
      · exact absurd rfl hn'
      · rfl

theorem format_alike (h : Alike C D v j) : D.format v = .ok (.ofString (C.format j)) := by
  cases h with
  | str ht =>
    rw [Text.eq_ofString ht]
    rfl
  | none h => exact h
  | other hs hn hs' hn' h =>
    unfold Decoders.format Params.format
    split
    · exact absurd rfl (hs _)
    · split
      · exact absurd rfl (hs' _)
      · exact h

theorem verify_alike (h : Alike C D v j) (key message : String) :
    verifyEd25519Signature C key message v = Ws.verifyEd25519Signature C key message j := by
  cases h with
  | str ht => simp only [verifyEd25519Signature, Ws.verifyEd25519Signature, ht, Option.any_some]
  | none => rfl
  | other hs hn hs' hn' _ =>
    unfold verifyEd25519Signature Ws.verifyEd25519Signature
    split
    · exact absurd rfl (hs _)
    · split
      · exact absurd rfl (hs' _)
      · rfl

theorem isAuthResponse_alike {l : List (Text × Value)} {l' : List (String × Json)}
    (h : List.Forall₂ (FieldAlike C D) l l') :
    isAuthResponse l = Ws.isAuthResponse l' := by
  have := get_alike h "type"
  unfold isAuthResponse Ws.isAuthResponse
  generalize get l "type" = a, getField l' "type" = b at this
  cases this with
  | none => rfl
  | some hv =>
    cases hv with
    | @str t s ht =>
      rw [Text.eq_ofString ht]
      by_cases hs : s = "auth_response"
      · simp [Value.isString, hs]
      · have hne : Text.ofString s ≠ Text.ofString "auth_response" := fun he => hs (Text.ofString_inj he)
        simp [Value.isString, hs, hne]
    | none => rfl
    | other hs _ hs' _ _ =>
      rw [Option.any_some]
      unfold Value.isString
      split
      · exact absurd rfl (hs _)
      · split
        · rename_i heq
          exact absurd (Option.some.inj heq) (hs' _)
        · rfl

theorem buildChallengeMessage_alike {v₁ v₂ v₃ : Value} {j₁ j₂ j₃ : Json}
    (h₁ : Alike C D v₁ j₁) (h₂ : Alike C D v₂ j₂)
    (h₃ : Alike C D v₃ j₃) (deviceId connectionId : UUID) (nonce : String) :
    buildChallengeMessage D deviceId connectionId nonce v₁ v₂ v₃ =
      .ok (Ws.buildChallengeMessage deviceId connectionId nonce (C.format j₁) (C.format j₂) (C.format j₃)) := by
  unfold buildChallengeMessage
  rw [format_alike h₁, format_alike h₂, format_alike h₃]
  simp only [bind, Except.bind, Text.encode_append, Text.encode_ofString, Option.bind_some, Option.map_some]
  unfold Ws.buildChallengeMessage
  refine congrArg Except.ok (String.toList_injective ?_)
  simp

def done (p : Op (Option Connection)) : Op Unit := p.bind fun _ => .ret ()

theorem done_refuse (code message reason : String) :
    done (refuse code message reason) = Ws.refuse code message reason := by
  unfold done refuse
  rw [Prog.bind_eq, Prog.bind_assoc]
  exact Prog.bind_ret _

section
variable {protocolVersion appVersion : String} {s : Challenged} {l : List (Text × Value)}
    {l' : List (String × Json)}
  (h : List.Forall₂ (FieldAlike C D) l l')
include h

theorem readResponse_alike (protocolVersion appVersion : String) :
    let a := readResponse protocolVersion appVersion s l
    let a' := Ws.readResponse l' protocolVersion appVersion s.serverTimeIso
    Alike C D a.deviceIdStr a'.deviceIdStr ∧ Alike C D a.signatureB64 a'.signatureB64 ∧
      Alike C D a.authServerTime a'.authServerTime ∧ Alike C D a.clientProtocol a'.clientProtocol ∧
      Alike C D a.clientAppVersion a'.clientAppVersion :=
  ⟨getD_alike h .., getD_alike h .., getD_alike h .., getD_alike h .., getD_alike h ..⟩

theorem verify_challenge_alike (deviceId : UUID) (key : String) :
    verifyDeviceChallengeResponse C D s deviceId (readResponse protocolVersion appVersion s l) key =
      let a := Ws.readResponse l' protocolVersion appVersion s.serverTimeIso
      Ws.verifyDeviceChallengeResponse C deviceId s.connectionId s.nonce a.authServerTime
      a.signatureB64 key a.clientProtocol
        a.clientAppVersion := by
  obtain ⟨-, hsig, htime, hprotocol, happ⟩ := readResponse_alike (s := s) h protocolVersion appVersion
  unfold verifyDeviceChallengeResponse Ws.verifyDeviceChallengeResponse
  congr 1
  funext valid
  rw [buildChallengeMessage_alike htime hprotocol happ]
  simp only [Prog.bind_eq, Prog.ofExcept_ok, Prog.ret_bind]
  rw [verify_alike hsig]

theorem authenticate_alike (deviceId : UUID) :
    done (authenticate C D s (readResponse protocolVersion appVersion s l) deviceId) =
      Ws.authenticate C s.connectionId s.nonce
      (Ws.readResponse l' protocolVersion appVersion s.serverTimeIso) deviceId := by
  unfold authenticate Ws.authenticate done
  rw [Prog.bind_eq, Prog.bind_assoc]
  congr 1
  funext row
  cases row with
  | none => exact done_refuse ..
  | some row =>
    by_cases hr : row.trustStatus ≠ .trusted ∨ row.revokedAt.isSome = true
    · simp only [if_pos hr]
      exact done_refuse ..
    · simp only [if_neg hr, Prog.bind_eq]
      rw [Prog.bind_assoc, verify_challenge_alike h]
      congr 1
      funext result
      cases result.1 with
      | true =>
        simp only [if_true]
        rw [Prog.bind_assoc]
        exact Prog.bind_ret _
      | false => exact done_refuse ..

theorem respond_alike : done (respond C D protocolVersion appVersion s (.dict l)) =
    Ws.respond C protocolVersion appVersion s.connectionId s.serverTimeIso s.nonce (.obj l') := by
  obtain ⟨hid, -⟩ := readResponse_alike (s := s) h protocolVersion appVersion
  unfold respond Ws.respond
  dsimp only
  rw [isAuthResponse_alike h]
  cases Ws.isAuthResponse l' with
  | false => exact done_refuse ..
  | true =>
    simp only [Bool.not_true, Bool.false_eq_true, if_false, parseDeviceId_alike hid]
    cases Ws.parseDeviceId C (Ws.readResponse l' protocolVersion appVersion s.serverTimeIso).deviceIdStr with
    | ok deviceId => exact authenticate_alike h deviceId
    | error e =>
      cases e with
      | typeError => rfl
      | websocket | valkey | db | valueError | attributeError => exact done_refuse ..

theorem receiveResponse_alike {m : Received} (hm : m.value D = some (.dict l)) :
    done (receiveResponse C D protocolVersion appVersion s m) =
      Ws.receiveResponse C protocolVersion appVersion s.connectionId s.serverTimeIso
      s.nonce (.frame (.obj l')) := by
  cases m with
  | bytes raw =>
    simp only [Received.value] at hm
    simp only [receiveResponse, parseResponse, hm]
    exact respond_alike h
  | text t =>
    obtain ⟨r, hr, hl⟩ := Option.bind_eq_some_iff.mp hm
    simp only [receiveResponse, hr, parseResponse, decode_toUTF8, Option.bind_some, hl]
    exact respond_alike h
  | empty | timeout | raised => cases hm

end

end

end Auth

end Ws

end Veyaan
