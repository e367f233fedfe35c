import Veyaan.AuthPhase
import Veyaan.Authenticity

/-!
# What a first frame can do

A client chooses the frame, and with it every value that the phase reads. It is
refused, or it is registered, or one of three exceptions leaves the endpoint.
The version under which a connection is registered is the one in the frame,
which nobody has compared with the supported ones.
-/

namespace Veyaan.Ws.Auth

open Python

/-! ## What the parts of the phase come to -/

section
variable {C : Params} {x : Ext}

theorem perform_refuse (code message reason : String) :
    perform C (refuse code message reason) x =
    (.ok none, x, [.sent (.error code message), .closed 4001 reason]) := by
  simp [refuse, Ws.refuse, perform_bind, Eff.handle, raising]

def holds (C : Params) (x : Ext) (nonce : String) : Bool := x.connected && (x.valkey (C.nonceKey nonce)).isSome

theorem perform_consumeChallenge (nonce : String) :
    ∃ x' v, perform C (consumeChallenge C nonce) x = (.ok (holds C x nonce), x', [.getdel (C.nonceKey nonce) v]) ∧
      x'.activeConnections = x.activeConnections := by
  by_cases hc : x.connected = true
  · simp [consumeChallenge, perform_bind, Eff.handle, hc, holds]
  · simp [consumeChallenge, perform_bind, Eff.handle, hc, holds]

theorem perform_welcome (connectionId deviceId ownerId : UUID) :
    ∃ x', perform C (welcome connectionId deviceId ownerId) x = (.ok (), x', [.drew x.nextId,
      .sent (.welcome connectionId x.clock "v1" x.stopped), .registered ⟨deviceId, ownerId, connectionId⟩]) ∧
      x'.activeConnections deviceId = some ⟨deviceId, ownerId, connectionId⟩ := by
  cases hold : x.activeConnections deviceId with
  | none =>
    simp [welcome, register, closeOld, perform_bind, Eff.handle, raising, hold]
    split <;> simp
  | some old =>
    simp [welcome, register, closeOld, perform_bind, Eff.handle, raising, hold]
    split <;> simp

end

def registrations (l : List Ev) : List DeviceConnection :=
  l.filterMap fun | .registered conn => some conn | _ => none

def errors (l : List Ev) : List String := l.filterMap fun | .sent (.error code _) => some code | _ => none

section
variable (C : Params) (D : Decoders) (protocolVersion appVersion : String) (s : Challenged) (y : Ext)

def Trusts (deviceId : UUID) (row : Device) : Prop :=
  y.db.devices.find deviceId = some row ∧ row.trustStatus = .trusted ∧ row.revokedAt = none

def signedText (deviceId : UUID) (a : AuthResponse) : Except Err String :=
  buildChallengeMessage D deviceId s.connectionId s.nonce a.authServerTime a.clientProtocol a.clientAppVersion

inductive Escapes : Value → Prop
  /-- Only a dictionary has a `get`. -/
  | notAnObject {v : Value} : (∀ fields, v ≠ .dict fields) → Escapes v
  /-- `UUID(None)` is a `TypeError`. -/
  | noDeviceId {fields : List (Text × Value)} : isAuthResponse fields = true →
      (readResponse protocolVersion appVersion s fields).deviceIdStr = .none → Escapes (.dict fields)
  /-- The values of the frame have no text, or the text has no UTF-8 form. -/
  | noText {fields : List (Text × Value)} {deviceId : UUID} {row : Device} {e : Err} :
      isAuthResponse fields = true →
      parseDeviceId C (readResponse protocolVersion appVersion s fields).deviceIdStr = .ok deviceId →
      Trusts y deviceId row → holds C y s.nonce = true →
      signedText D s deviceId (readResponse protocolVersion appVersion s fields) = .error e →
      Escapes (.dict fields)

structure Authentic (fields : List (Text × Value)) (deviceId : UUID) (row : Device) (message : String) : Prop where
  type : isAuthResponse fields = true
  device : parseDeviceId C (readResponse protocolVersion appVersion s fields).deviceIdStr = .ok deviceId
  trusts : Trusts y deviceId row
  nonce : holds C y s.nonce = true
  text : signedText D s deviceId (readResponse protocolVersion appVersion s fields) = .ok message
  signed : verifyEd25519Signature C row.info.devicePublicIdentity message
    (readResponse protocolVersion appVersion s fields).signatureB64 = true

inductive Outcome (v : Option Value) : Except Err (Option Connection) × Ext × List Ev → Prop
  | refused {y' : Ext} {l : List Ev} {reason : String} : (∀ w, v = some w →
      ¬ Escapes C D protocolVersion appVersion s y w) →
      (∀ fields deviceId row message, v = some (.dict fields) →
        ¬ Authentic C D protocolVersion appVersion s y fields deviceId row message) →
      (errors l).length ≤ 1 → registrations l = [] → Ev.closed 4001 reason ∈ l →
      y'.activeConnections = y.activeConnections →
      Outcome v (.ok none, y', l)
  | escaped {w : Value} {e : Err} {y' : Ext} {l : List Ev} : v = some w →
      Escapes C D protocolVersion appVersion s y w →
      registrations l = [] → Outcome v (.error e, y', l)
  | registered {fields : List (Text × Value)} {deviceId : UUID} {row : Device}
      {message : String} {y' : Ext} {l : List Ev}
      {serverTime : Time} {stopped : Bool} {conn : Connection} : v = some (.dict fields) →
      Authentic C D protocolVersion appVersion s y fields deviceId row message →
      conn = ⟨⟨deviceId, row.ownerId, s.connectionId⟩,
        (readResponse protocolVersion appVersion s fields).clientProtocol,
        (readResponse protocolVersion appVersion s fields).clientAppVersion⟩ →
      Ev.sent (.welcome s.connectionId serverTime "v1" stopped) ∈ l → registrations l = [conn.toDeviceConnection] →
      y'.activeConnections deviceId = some conn.toDeviceConnection → Outcome v (.ok (some conn), y', l)

end

section
variable {C : Params} {D : Decoders} {protocolVersion appVersion : String} {s : Challenged} {y : Ext}

theorem escapes_dict {fields : List (Text × Value)}
    (h : Escapes C D protocolVersion appVersion s y (.dict fields)) :
    isAuthResponse fields = true ∧ ((readResponse protocolVersion appVersion s fields).deviceIdStr = .none ∨
      ∃ deviceId row e, parseDeviceId C (readResponse protocolVersion appVersion s
        fields).deviceIdStr = .ok deviceId ∧
        Trusts y deviceId row ∧ holds C y s.nonce = true ∧
        signedText D s deviceId (readResponse protocolVersion appVersion s fields) = .error e) := by
  generalize hw : Value.dict fields = w at h
  cases h with
  | notAnObject hn => exact absurd hw.symm (hn fields)
  | noDeviceId htype hd =>
    cases hw
    exact ⟨htype, .inl hd⟩
  | noText htype hd ht hn he =>
    cases hw
    exact ⟨htype, .inr ⟨_, _, _, hd, ht, hn, he⟩⟩

theorem parseDeviceId_none {v : Value} : parseDeviceId C v = .error .typeError ↔ v = .none := by
  cases v with
  | str t =>
    simp only [parseDeviceId]
    split <;> simp
  | none | bool | int | float | nonFinite | list | dict => simp [parseDeviceId]

theorem Outcome.of_refuse {v : Option Value} {code message reason : String}
    (hno : ∀ w, v = some w → ¬ Escapes C D protocolVersion appVersion s y w)
    (hna : ∀ fields deviceId row text, v = some (.dict fields) →
      ¬ Authentic C D protocolVersion appVersion s y fields deviceId row text) :
    Outcome C D protocolVersion appVersion s y v (perform C (refuse code message reason) y) := by
  rw [perform_refuse]
  exact .refused hno hna (by simp [errors]) rfl (List.mem_cons_of_mem _ (List.mem_singleton_self _)) rfl

/-- What is done before the frame is judged neither sends an error nor registers. -/
theorem Outcome.prepend {v : Option Value} {r : Except Err (Option Connection)} {y' : Ext} {l l' : List Ev}
    (h : Outcome C D protocolVersion appVersion s y v (r, y', l)) (he : errors l' = [])
    (hr : registrations l' = []) :
    Outcome C D protocolVersion appVersion s y v (r, y', l' ++ l) := by
  have herr : errors (l' ++ l) = errors l := by
    unfold errors at he ⊢
    rw [List.filterMap_append, he, List.nil_append]
  have hreg : registrations (l' ++ l) = registrations l := by
    unfold registrations at hr ⊢
    rw [List.filterMap_append, hr, List.nil_append]
  cases h with
  | refused hno hna hl hr' hc hy =>
    exact .refused hno hna (by rw [herr]; exact hl) (by rw [hreg]; exact hr') (List.mem_append_right _ hc) hy
  | escaped hv hesc hr' => exact .escaped hv hesc (by rw [hreg]; exact hr')
  | registered hv ha hc hw hr' hy =>
    exact .registered hv ha hc (List.mem_append_right _ hw) (by rw [hreg]; exact hr') hy

section
variable {fields : List (Text × Value)} {deviceId : UUID}
  (hd : parseDeviceId C (readResponse protocolVersion appVersion s fields).deviceIdStr = .ok deviceId)
include hd

theorem not_escapes_of (h : ∀ row e, Trusts y deviceId row → holds C y s.nonce = true →
      signedText D s deviceId (readResponse protocolVersion appVersion s fields) ≠ .error e) :
    ¬ Escapes C D protocolVersion appVersion s y (.dict fields) := by
  intro hesc
  obtain ⟨-, hnone | ⟨deviceId', row, e, hd', ht, hn, he⟩⟩ := escapes_dict hesc
  · rw [parseDeviceId_none.mpr hnone] at hd
    cases hd
  · obtain rfl : deviceId' = deviceId := Except.ok.inj (hd'.symm.trans hd)
    exact h row e ht hn he

theorem not_authentic_of (h : ∀ row text, Trusts y deviceId row → holds C y s.nonce = true →
      signedText D s deviceId (readResponse protocolVersion appVersion s fields) = .ok text →
      verifyEd25519Signature C row.info.devicePublicIdentity text
        (readResponse protocolVersion appVersion s fields).signatureB64 ≠ true)
        {deviceId' : UUID} {row : Device} {text : String} :
    ¬ Authentic C D protocolVersion appVersion s y fields deviceId' row text := by
  intro ha
  obtain rfl : deviceId' = deviceId := Except.ok.inj (ha.device.symm.trans hd)
  exact h _ _ ha.trusts ha.nonce ha.text ha.signed

theorem outcome_untrusted {code message reason : String} (h : ∀ row, ¬ Trusts y deviceId row) :
    Outcome C D protocolVersion appVersion s y (some (.dict fields))
    (perform C (refuse code message reason) y) := by
  apply Outcome.of_refuse
  · intro w hw
    cases hw
    exact not_escapes_of hd fun row _ ht _ _ => h row ht
  · intro f d row text hf
    cases hf
    exact not_authentic_of hd fun row _ ht _ _ _ => h row ht

theorem outcome_verified (htype : isAuthResponse fields = true) {row : Device} (ht : Trusts y deviceId row) :
    Outcome C D protocolVersion appVersion s y (some (.dict fields)) (perform C
      ((verifyDeviceChallengeResponse C D s deviceId (readResponse protocolVersion appVersion s fields)
        row.info.devicePublicIdentity).bind fun result =>
          if result.1 then (welcome s.connectionId deviceId row.ownerId).bind fun _ =>
          .ret (some ⟨⟨deviceId, row.ownerId, s.connectionId⟩,
            (readResponse protocolVersion appVersion s fields).clientProtocol,
            (readResponse protocolVersion appVersion s fields).clientAppVersion⟩)
          else refuse "AUTH_FAILED" "Authentication failed" "Auth failed") y) := by
  have hrow : ∀ {row'}, Trusts y deviceId row' → row' = row := fun h' => Option.some.inj (h'.1.symm.trans ht.1)
  obtain ⟨y', v, hconsume, hactive⟩ := perform_consumeChallenge (C := C) (x := y) s.nonce
  unfold verifyDeviceChallengeResponse
  rw [Prog.bind_eq, Prog.bind_assoc, perform_bind_ok hconsume]
  by_cases hn : holds C y s.nonce = true
  · simp only [hn, Bool.not_true, Bool.false_eq_true, if_false]
    cases htext : signedText D s deviceId (readResponse protocolVersion appVersion s fields) with
    | error e =>
      have hraise := htext
      unfold signedText at hraise
      rw [hraise]
      exact .escaped rfl (.noText htype hd ht hn htext) rfl
    | ok message =>
      have hmessage := htext
      unfold signedText at hmessage
      rw [hmessage]
      by_cases hsig : verifyEd25519Signature C row.info.devicePublicIdentity message
          (readResponse protocolVersion appVersion s fields).signatureB64 = true
      · obtain ⟨y'', hwelcome, hput⟩ := perform_welcome (C := C) (x := y') s.connectionId deviceId row.ownerId
        have hauth : Authentic C D protocolVersion appVersion s y fields deviceId row message :=
          ⟨htype, hd, ht, hn, htext, hsig⟩
        simp only [Prog.bind_eq, Prog.ofExcept_ok, Prog.ret_bind, hsig, Bool.not_true,
          Bool.false_eq_true, if_false, if_true, Prog.pure_eq]
        rw [perform_bind_ok hwelcome]
        exact .registered rfl hauth rfl (.tail _ (.tail _ (.head _))) rfl hput
      · simp only [Prog.bind_eq, Prog.ofExcept_ok, Prog.ret_bind,
          Bool.eq_false_iff.mpr hsig, Bool.not_false, if_true, Prog.pure_eq, Bool.false_eq_true, if_false]
        rw [perform_refuse]
        refine .refused ?_ ?_ (by simp [errors]) rfl (.tail _ (.tail _ (.head _))) hactive
        · intro w hw
          cases hw
          refine not_escapes_of hd fun row' e _ _ he => ?_
          rw [htext] at he
          cases he
        · intro f d row' text hf
          cases hf
          refine not_authentic_of hd fun row' text ht' _ hok hs => ?_
          rw [htext] at hok
          cases hok
          rw [hrow ht'] at hs
          exact hsig hs
  · simp only [Bool.eq_false_iff.mpr hn, Bool.not_false, if_true, Prog.bind_eq, Prog.pure_eq,
      Prog.ret_bind, Bool.false_eq_true, if_false]
    rw [perform_refuse]
    refine .refused ?_ ?_ (by simp [errors]) rfl (.tail _ (.tail _ (.head _))) hactive
    · intro w hw
      cases hw
      exact not_escapes_of hd fun _ _ _ hn' _ => hn hn'
    · intro f d row' text hf
      cases hf
      exact not_authentic_of hd fun _ _ _ hn' _ _ => hn hn'

theorem outcome_authenticate (htype : isAuthResponse fields = true) :
    Outcome C D protocolVersion appVersion s y (some (.dict fields))
    (perform C (authenticate C D s (readResponse protocolVersion appVersion s fields) deviceId) y) := by
  have hread : perform C (effect (.getDevice deviceId)) y =
      (.ok (y.db.devices.find deviceId), y, [.deviceRead deviceId (y.db.devices.find deviceId)]) := by
    rw [perform_effect]
    rfl
  unfold authenticate
  rw [Prog.bind_eq, perform_bind_ok hread]
  apply Outcome.prepend _ rfl rfl
  cases hrow : y.db.devices.find deviceId with
  | none =>
    apply outcome_untrusted hd
    intro row ht
    rw [ht.1] at hrow
    cases hrow
  | some row =>
    by_cases h : row.trustStatus ≠ .trusted ∨ row.revokedAt.isSome = true
    · simp only [if_pos h]
      apply outcome_untrusted hd
      intro row' ht
      rw [ht.1] at hrow
      cases hrow
      rcases h with h | h
      · exact h ht.2.1
      · rw [ht.2.2] at h
        cases h
    · simp only [if_neg h]
      apply outcome_verified hd htype
      refine ⟨hrow, ?_, ?_⟩
      · by_contra hne
        exact h (.inl hne)
      · by_contra hne
        exact h (.inr (Option.isSome_iff_ne_none.mpr hne))

end

theorem Authentic.not_escapes {fields : List (Text × Value)} {deviceId : UUID} {row : Device} {message : String}
    (h : Authentic C D protocolVersion appVersion s y fields deviceId row message) :
    ¬ Escapes C D protocolVersion appVersion s y (.dict fields) := by
  apply not_escapes_of h.device
  intro _ e _ _ he
  rw [h.text] at he
  cases he

theorem outcome_respond (v : Value) : Outcome C D protocolVersion appVersion s y (some v)
    (perform C (respond C D protocolVersion appVersion s v) y) := by
  cases v with
  | dict fields =>
    unfold respond
    by_cases htype : isAuthResponse fields = true
    · simp only [htype, Bool.not_true, Bool.false_eq_true, if_false]
      cases hd : parseDeviceId C (readResponse protocolVersion appVersion s fields).deviceIdStr with
      | ok deviceId => exact outcome_authenticate hd htype
      | error e =>
        have hna : ∀ fields' deviceId row text, some (Value.dict fields) = some (.dict fields') →
            ¬ Authentic C D protocolVersion appVersion s y fields' deviceId row text := by
          intro fields' deviceId row text hf ha
          cases hf
          have := ha.device
          rw [hd] at this
          cases this
        have hno : e ≠ .typeError → ∀ w, some (Value.dict fields) = some w →
            ¬ Escapes C D protocolVersion appVersion s y w := by
          intro hne w hw hesc
          cases hw
          obtain ⟨-, hnone | ⟨_, _, _, hok, _⟩⟩ := escapes_dict hesc
          · rw [parseDeviceId_none.mpr hnone] at hd
            exact hne (Except.error.inj hd).symm
          · rw [hd] at hok
            cases hok
        cases e with
        | typeError => exact .escaped rfl (.noDeviceId htype (parseDeviceId_none.mp hd)) rfl
        | websocket | valkey | db | valueError | attributeError => exact Outcome.of_refuse (hno (by simp)) hna
    · simp only [Bool.eq_false_iff.mpr htype, Bool.not_false, if_true]
      apply Outcome.of_refuse
      · intro w hw hesc
        cases hw
        exact htype (escapes_dict hesc).1
      · intro fields' deviceId row text hf ha
        cases hf
        exact htype ha.type
  | none | bool | int | float | nonFinite | str | list =>
    exact .escaped rfl (.notAnObject fun _ h => nomatch h) rfl

theorem outcome_parse (raw : ByteArray) : Outcome C D protocolVersion appVersion s y ((decode raw).bind D.loads)
    (perform C (parseResponse C D protocolVersion appVersion s raw) y) := by
  unfold parseResponse
  cases (decode raw).bind D.loads with
  | some v => exact outcome_respond v
  | none => exact Outcome.of_refuse nofun nofun

/-- What the phase comes to on any frame. -/
theorem outcome_receive (m : Received) : Outcome C D protocolVersion appVersion s y (m.value D)
    (perform C (receiveResponse C D protocolVersion appVersion s m) y) := by
  have hnone : ∀ w, (none : Option Value) = some w → ¬ Escapes C D protocolVersion appVersion s y w := by
    intro w hw
    cases hw
  have hnobody : ∀ fields deviceId row message, (none : Option Value) = some (.dict fields) →
      ¬ Authentic C D protocolVersion appVersion s y fields deviceId row message := by
    intro fields deviceId row message hw
    cases hw
  have hclose : ∀ {reason}, perform C (effect (.close 4001 reason)) y = (.ok (), y, [.closed 4001 reason]) := by
    intro reason
    rw [perform_effect]
    rfl
  cases m with
  | bytes raw => exact outcome_parse raw
  | text t =>
    simp only [receiveResponse, Received.value]
    cases t.encode with
    | none =>
      rw [Prog.bind_eq, perform_bind_ok hclose]
      exact .refused hnone hnobody (by simp [errors]) rfl (.head _) rfl
    | some m =>
      have hparse : Outcome C D protocolVersion appVersion s y _ _ := outcome_parse m.toUTF8
      rwa [decode_toUTF8] at hparse
  | empty =>
    have hempty : perform C (effect (.close 4001 "Empty auth frame")).attempt y =
        (.ok (.ok ()), y, [.closed 4001 "Empty auth frame"]) := by
      rw [perform_attempt]
      rfl
    rw [receiveResponse, Prog.bind_eq, perform_bind_ok hempty]
    exact .refused hnone hnobody (by simp [errors]) rfl (.head _) rfl
  | timeout => exact Outcome.of_refuse hnone hnobody
  | raised =>
    rw [receiveResponse, Prog.bind_eq, perform_bind_ok hclose]
    exact .refused hnone hnobody (by simp [errors]) rfl (.head _) rfl

end

/-! ## The endpoint -/

section
variable {C : Params} {x : Ext} {protocolVersion : String}

def challenged (C : Params) (protocolVersion : String) (x : Ext) : Ext :=
  (perform C (challengeDevice C protocolVersion) x).2.1

theorem perform_challengeDevice (hv : protocolVersion ∈ supportedProtocols) : ∃ l,
    perform C (challengeDevice C protocolVersion) x =
    (.ok (some (challenge C x)), challenged C protocolVersion x, l) ∧
      errors l = [] ∧ registrations l = [] := by
  by_cases hc : x.connected = true
  · simp [challengeDevice, generateChallenge, perform_bind, Eff.handle, raising, hv, hc, challenged,
      challenge, errors, registrations]
  · simp [challengeDevice, generateChallenge, perform_bind, Eff.handle, raising, hv, hc, challenged,
      challenge, errors, registrations]

theorem perform_unsupported (hv : protocolVersion ∉ supportedProtocols) : ∃ x' l,
    perform C (challengeDevice C protocolVersion) x = (.ok none, x', l) ∧ registrations l = [] := by
  simp [challengeDevice, perform_bind, Eff.handle, raising, hv, registrations]

end

def versionedAnswer : String :=
  "\x7b\"type\": \"auth_response\", \"device_id\": \"00000000-0000-0000-0000-000000000005\", \"signature\": " ++
  "\"wjcFIpgher0z75Slhgo9SF4cmt79FYvc96JH77SUpXPiBvHOVgEnfHdvk+hhaYkc5z07IAhBbbi7uKFv29//CA==\", " ++
  "\"protocol_version\": \"v2\", \"app_version\": \"1.0.0\"\x7d"

def versionedFields : List (Text × Value) := [(.ofString "type", .ofString "auth_response"),
  (.ofString "device_id", .ofString "00000000-0000-0000-0000-000000000005"),
  (.ofString "signature",
    .ofString "wjcFIpgher0z75Slhgo9SF4cmt79FYvc96JH77SUpXPiBvHOVgEnfHdvk+hhaYkc5z07IAhBbbi7uKFv29//CA=="),
  (.ofString "protocol_version", .ofString "v2"), (.ofString "app_version", .ofString "1.0.0")]

def demoDecoders : Decoders where
  loads s :=
    if s = "[]" then some (.list []) else if s = versionedAnswer then some (.dict versionedFields) else none
  str _ := .ok []

theorem versioned_value : (Received.bytes versionedAnswer.toUTF8).value demoDecoders =
    some (.dict versionedFields) := by
  have hne : versionedAnswer ≠ "[]" := by decide +kernel
  simp only [Received.value, decode_toUTF8, Option.bind_some, demoDecoders, if_neg hne, if_true]

def versionedText : String :=
  "00000000-0000-0000-0000-000000000005:00000000-0000-0000-0000-000000000001:" ++
    "0000000000000000000000000000000000000000000000000000000000000000:2026-01-01T00:00:00+00:00:v2:1.0.0"

def versionedParams : Params where
  urandomHex := demoParams.urandomHex
  isoformat := demoParams.isoformat
  parseUuid := demoParams.parseUuid
  str := demoParams.str
  verify k m s := k == "A6EHv/POEL4dcN0Y50vAmWfk1jCbpQ1fHdyGZBJVMbg=" && m == versionedText &&
    s == "wjcFIpgher0z75Slhgo9SF4cmt79FYvc96JH77SUpXPiBvHOVgEnfHdvk+hhaYkc5z07IAhBbbi7uKFv29//CA=="

theorem versioned_authentic : Authentic versionedParams demoDecoders "v1" "1.0.0"
    (challenge versionedParams demoSocket)
    (challenged versionedParams "v1" demoSocket) versionedFields 5 demoDevice versionedText where
  type := by decide
  device := by decide
  trusts := ⟨rfl, rfl, rfl⟩
  nonce := by decide +kernel
  text := by decide +kernel
  signed := by decide +kernel

inductive Settled (active : UUID → Option DeviceConnection) : Except Err (Option Connection) × Ext × List Ev → Prop
  | registered {conn : Connection} {y : Ext} {l : List Ev} {serverTime : Time} {stopped : Bool} :
      Ev.sent (.welcome conn.connectionId serverTime "v1" stopped) ∈ l →
      registrations l = [conn.toDeviceConnection] →
      y.activeConnections conn.deviceId = some conn.toDeviceConnection → Settled active (.ok (some conn), y, l)
  | refused {y : Ext} {l : List Ev} {reason : String} : (errors l).length ≤ 1 → Ev.closed 4001 reason ∈ l →
      registrations l = [] → y.activeConnections = active → Settled active (.ok none, y, l)

section
variable (C : Params) (D : Decoders) (protocolVersion appVersion : String) (m : Received)
    (wait : Ext → Ext) (x : Ext)

theorem outcome_endpoint (hv : protocolVersion ∈ supportedProtocols) :
    Outcome C D protocolVersion appVersion (challenge C x) (wait (challenged C protocolVersion x)) (m.value D)
      (websocketEndpoint C D protocolVersion appVersion m wait x) := by
  obtain ⟨l, hchallenge, he, hr⟩ := perform_challengeDevice (C := C) (x := x) hv
  unfold websocketEndpoint
  rw [hchallenge]
  exact (outcome_receive m).prepend he hr

/-- The handshake settles every frame but those on which an exception leaves it. -/
theorem handshake_total_iff (hv : protocolVersion ∈ supportedProtocols) :
    Settled (wait (challenged C protocolVersion x)).activeConnections
        (websocketEndpoint C D protocolVersion appVersion m wait x) ↔
      ∀ v, m.value D = some v →
        ¬ Escapes C D protocolVersion appVersion (challenge C x) (wait (challenged C protocolVersion x)) v := by
  have h := outcome_endpoint C D protocolVersion appVersion m wait x hv
  generalize websocketEndpoint C D protocolVersion appVersion m wait x = out at h ⊢
  cases h with
  | refused hno _ he hr hc hy => exact ⟨fun _ => hno, fun _ => .refused he hc hr hy⟩
  | escaped hm hesc _ => exact ⟨nofun, fun h => absurd hesc (h _ hm)⟩
  | registered hm ha hc hw hr hy =>
    subst hc
    constructor
    · intro _ v hv
      rw [hm] at hv
      cases hv
      exact ha.not_escapes
    · intro _
      exact .registered hw hr hy

theorem handshake_total_versioned : Settled (challenged versionedParams "v1" demoSocket).activeConnections
    (websocketEndpoint versionedParams demoDecoders "v1" "1.0.0"
      (.bytes versionedAnswer.toUTF8) id demoSocket) := by
  refine (handshake_total_iff versionedParams demoDecoders "v1" "1.0.0" _ id demoSocket (by decide)).mpr ?_
  intro v hv
  cases versioned_value.symm.trans hv
  exact versioned_authentic.not_escapes

/-- The frame `[]` is JSON, but no object. -/
theorem list_frame_escapes : ¬ Settled (challenged demoParams "v1" demoSocket).activeConnections
    (websocketEndpoint demoParams demoDecoders "v1" "1.0.0" (.bytes "[]".toUTF8) id demoSocket) := by
  have hvalue : (Received.bytes "[]".toUTF8).value demoDecoders = some (.list []) := by
    simp only [Received.value, decode_toUTF8, Option.bind_some]
    rfl
  have h := outcome_endpoint demoParams demoDecoders "v1" "1.0.0" (.bytes "[]".toUTF8) id demoSocket (by decide)
  generalize websocketEndpoint demoParams demoDecoders "v1" "1.0.0" (.bytes "[]".toUTF8) id demoSocket = out at h ⊢
  cases h with
  | refused hno _ _ _ _ _ => exact absurd (.notAnObject fun _ h => by cases h) (hno _ hvalue)
  | escaped _ _ _ =>
    intro hs
    cases hs
  | registered hm _ _ _ _ _ => cases hvalue.symm.trans hm

def Signed (nonce : String) (y : Ext) (conn : Connection) : Prop :=
  ∃ row serverTime message signature, Trusts y conn.deviceId row ∧
    buildChallengeMessage D conn.deviceId conn.connectionId nonce serverTime conn.protocolVersion
    conn.appVersion = .ok message ∧
    verifyEd25519Signature C row.info.devicePublicIdentity message signature = true

def Supported (version : Value) : Prop := version ∈ supportedProtocols.map Value.ofString

theorem supported_ofString {version : String} : Supported (.ofString version) ↔ version ∈ supportedProtocols := by
  constructor
  · intro h
    obtain ⟨v, hv, he⟩ := List.mem_map.mp h
    cases Text.ofString_inj (Value.str.inj he)
    exact hv
  · intro h
    exact List.mem_map.mpr ⟨version, h, rfl⟩

def OnlySupported : Prop :=
  ∀ c ∈ registrations (websocketEndpoint C D protocolVersion appVersion m wait x).2.2, ∃ conn : Connection,
    conn.toDeviceConnection = c ∧ (websocketEndpoint C D protocolVersion appVersion m wait x).1 = .ok (some conn) ∧
      Supported conn.protocolVersion ∧ Signed C D (challenge C x).nonce (wait (challenged C protocolVersion x)) conn

/-- The frame that registers a connection must not name another version. -/
theorem only_supported_iff : OnlySupported C D protocolVersion appVersion m wait x ↔
      (protocolVersion ∈ supportedProtocols → ∀ fields deviceId row message, m.value D = some (.dict fields) →
        Authentic C D protocolVersion appVersion (challenge C x)
        (wait (challenged C protocolVersion x)) fields deviceId row
          message → ∀ v, get fields "protocol_version" = some v → Supported v) := by
  unfold OnlySupported
  by_cases hv : protocolVersion ∈ supportedProtocols
  · have h := outcome_endpoint C D protocolVersion appVersion m wait x hv
    generalize websocketEndpoint C D protocolVersion appVersion m wait x = out at h ⊢
    cases h with
    | refused _ hna _ hr _ _ =>
      simp only [hr]
      exact ⟨fun _ _ f d row text hm ha => absurd ha (hna f d row text hm), fun _ _ hc => nomatch hc⟩
    | escaped hm hesc hr =>
      simp only [hr]
      constructor
      · intro _ _ f d row text hm' ha
        obtain rfl := Option.some.inj (hm.symm.trans hm')
        exact absurd hesc ha.not_escapes
      · intro _ _ hc
        nomatch hc
    | registered hm ha hc hw hr hy =>
      subst hc
      simp only [hr, List.mem_singleton, forall_eq]
      constructor
      · rintro ⟨conn, -, hconn, hsup, -⟩ - f d row text hm' - v hget
        obtain rfl := Option.some.inj (Except.ok.inj hconn)
        cases hm.symm.trans hm'
        simpa [readResponse, hget] using hsup
      · intro h
        refine ⟨_, rfl, rfl, ?_, _, _, _, _, ha.trusts, ha.text, ha.signed⟩
        simp only [readResponse]
        cases hget : get _ "protocol_version" with
        | none => exact supported_ofString.mpr hv
        | some v => exact h hv _ _ _ _ hm ha v hget
  · obtain ⟨x', l, hclose, hr⟩ := perform_unsupported (C := C) (x := x) hv
    unfold websocketEndpoint
    rw [hclose]
    simp only [hr]
    exact ⟨fun _ h => absurd h hv, fun _ _ hc => nomatch hc⟩

end

/-- The query is in order, the frame names version 2, and the connection is registered with it. -/
theorem version_two_registered : ¬ OnlySupported versionedParams demoDecoders "v1" "1.0.0"
    (.bytes versionedAnswer.toUTF8) id demoSocket := by
  have h :=
    outcome_endpoint versionedParams demoDecoders "v1" "1.0.0"
    (.bytes versionedAnswer.toUTF8) id demoSocket (by decide)
  unfold OnlySupported
  generalize websocketEndpoint versionedParams demoDecoders "v1" "1.0.0"
    (.bytes versionedAnswer.toUTF8) id demoSocket = out at h ⊢
  cases h with
  | refused _ hna _ _ _ _ => exact absurd versioned_authentic (hna _ _ _ _ versioned_value)
  | escaped hm hesc _ =>
    obtain rfl := Option.some.inj (versioned_value.symm.trans hm)
    exact absurd hesc versioned_authentic.not_escapes
  | registered hm ha hc hw hr hy =>
    cases versioned_value.symm.trans hm
    subst hc
    intro hall
    obtain ⟨conn, -, hconn, hsup, -⟩ := hall _ (by rw [hr]; exact List.mem_singleton_self _)
    obtain rfl := Option.some.inj (Except.ok.inj hconn)
    have hin : "v2" ∈ supportedProtocols := supported_ofString.mp hsup
    exact absurd hin (by decide)

end Veyaan.Ws.Auth
