import Veyaan.Services

/-!
# `DeviceService`

Pairing and revocation. A refused pairing code is counted in a commit of its
own, before the error is raised; everything else is one transaction.
-/

namespace Veyaan

def DeviceInfo.storable (i : DeviceInfo) : Bool :=
  varcharOk 255 i.displayName && varcharOk 100 i.deviceType && varcharOk 100 i.operatingSystem &&
    varcharOk 50 i.appVersion && varcharOk 20 i.protocolVersion && textOk i.devicePublicIdentity

/-! ## Pairing -/

def insertPairing (p : PairingRequest) (d : DB) : Except Err (List Write) :=
  if (d.pairings.find p.id).isSome then .error .integrity
  else if p.info.storable && varcharOk 64 p.pairingCodeHash then .ok [.pairing p]
  else .error .data

theorem insertPairing_ok {p : PairingRequest} {d : DB} {ws : List Write} : insertPairing p d = .ok ws ↔
    d.pairings.find p.id = none ∧ p.info.storable = true ∧
    varcharOk 64 p.pairingCodeHash = true ∧ ws = [.pairing p] := by
  unfold insertPairing
  rw [← Option.not_isSome_iff_eq_none]
  by_cases hf : (d.pairings.find p.id).isSome <;> by_cases hi : p.info.storable = true <;>
    by_cases hh : varcharOk 64 p.pairingCodeHash = true <;> simp [hf, hi, hh, eq_comm]

def newPairing (P : Params) (info : DeviceInfo) (id : UUID) (pairingCode : String)
    (now : Time) : PairingRequest where
  id := id
  info := { info with protocolVersion := if info.protocolVersion = "" then "v1" else info.protocolVersion }
  pairingCodeHash := P.sha256 pairingCode
  attemptCount := 0
  ownerId := none
  status := .pending
  expiresAt := now + P.pairingCodeTtlMinutes * 60000000
  confirmedAt := none

/-- `start_pairing`; the identifier of the request and the code. -/
def startPairing (P : Params) (info : DeviceInfo) : Op (UUID × String) :=
  withSession do
    let pairingCode ← effect .tokenUrlsafe
    let now ← effect .now
    let id ← effect .uuid4
    let _ ← execute [.pairing id] (insertPairing (newPairing P info id pairingCode now))
    -- session.refresh(pairing)
    let _ ← select fun d => d.pairings.find id
    commit (.startPairing id)
    return (id, pairingCode)

/-- `UPDATE pairing_requests SET … WHERE id = …`, on a row that is locked. -/
def updatePairing (id : UUID) (f : PairingRequest → PairingRequest) (d : DB) : Except Err (List Write) :=
  match d.pairings.find id with
  | none => .error .db
  | some p => .ok [.pairing { f p with id := p.id }]

/-- `INSERT INTO devices`, with the constraint `chk_device_type`. -/
def insertDevice (r : Device) (d : DB) : Except Err (List Write) :=
  if (d.devices.find r.id).isSome || !d.isUser r.ownerId || r.info.deviceType ∉ ["macbook", "iphone", "ipad"] then
    .error .integrity
  else if r.info.storable then .ok [.device r]
  else .error .data

theorem insertDevice_ok {r : Device} {d : DB} {ws : List Write} : insertDevice r d = .ok ws ↔
    d.devices.find r.id = none ∧ d.isUser r.ownerId = true ∧ r.info.deviceType ∈ ["macbook", "iphone", "ipad"] ∧
      r.info.storable = true ∧ ws = [.device r] := by
  unfold insertDevice
  rw [← Option.not_isSome_iff_eq_none]
  by_cases hf : (d.devices.find r.id).isSome <;> by_cases hu : d.isUser r.ownerId <;>
    by_cases ht : r.info.deviceType ∈ ["macbook", "iphone", "ipad"] <;> by_cases hs : r.info.storable = true <;>
      simp [hf, hu, ht, hs, eq_comm]

theorem insertDevice_error {r : Device} {d : DB} {e : Err} (h : insertDevice r d = .error e) :
    e = .integrity ∨ e = .data := by
  unfold insertDevice at h
  split at h
  · cases h; exact .inl rfl
  · split at h <;> cases h
    exact .inr rfl

def insertCredential (r : DeviceCredential) (d : DB) : Except Err (List Write) :=
  if (d.credentials.find r.id).isSome || (d.devices.find r.deviceId).isNone then .error .integrity
  else if varcharOk 64 r.credentialHash then .ok [.credential r]
  else .error .data

theorem insertCredential_error {r : DeviceCredential} {d : DB} {e : Err} (h : insertCredential r d = .error e) :
    e = .integrity ∨ e = .data := by
  unfold insertCredential at h
  split at h
  · cases h; exact .inl rfl
  · split at h <;> cases h
    exact .inr rfl

def refusePairing {α : Type} (t : Tag) (pairingId : UUID)
    (f : PairingRequest → PairingRequest) (e : Err) : Op α := do
  let _ ← execute [.pairing pairingId] (updatePairing pairingId f)
  commit t
  raise e

/-- The device that `confirm_pairing` makes of a request. -/
def PairingRequest.device (pairing : PairingRequest) (id ownerId : UUID) : Device where
  id := id
  ownerId := ownerId
  info := pairing.info
  trustStatus := .trusted
  revokedAt := none

def newCredential (P : Params) (id deviceId : UUID) (credentialSecret : String)
    (now : Time) : DeviceCredential where
  id := id
  deviceId := deviceId
  credentialHash := P.sha256 credentialSecret
  expiresAt := some (now + P.deviceCredentialTtlDays * 86400000000)
  revokedAt := none

def confirmAudit (ownerId deviceId : UUID) (pairing : PairingRequest) : AuditLog :=
  { action := .devicePairConfirmed, userId := ownerId, deviceId := some deviceId,
    note := some pairing.info.displayName }

/-- The success path of `confirm_pairing`; the device and its credential. -/
def confirmDevice (P : Params) (a : Attempt) (ownerId : UUID) : Op (UUID × String) := do
  let pairing := a.read
  let deviceId ← effect .uuid4
  -- the first flush: the counter and the device
  let _ ← execute [.pairing pairing.id] (updatePairing pairing.id
    fun p => { p with attemptCount := pairing.attemptCount + 1 })
  let _ ← execute [.device deviceId] (insertDevice (pairing.device deviceId ownerId))
  let credentialSecret ← effect .tokenUrlsafe
  let now ← effect .now
  let confirmedAt ← effect .now
  let credentialId ← effect .uuid4
  -- the second flush
  let _ ← execute [.credential credentialId] (insertCredential
    (newCredential P credentialId deviceId credentialSecret now))
  -- the owner is a user, as the device refers to him
  let _ ← execute [.pairing pairing.id] (updatePairing pairing.id fun p =>
    { p with status := .confirmed, ownerId := some ownerId, confirmedAt := some confirmedAt })
  let _ ← execute [] (insertAudit (confirmAudit ownerId deviceId pairing))
  commit (.confirmPairing a deviceId)
  -- session.refresh(device)
  let _ ← select fun d => d.devices.find deviceId
  return (deviceId, credentialSecret)

def PairingStatus.value : PairingStatus → String
  | .pending => "pending"
  | .confirmed => "confirmed"
  | .expired => "expired"
  | .rejected => "rejected"

def confirmPairing (P : Params) (pairingId ownerId : UUID) (pairingCode : String) : Op (UUID × String) :=
  withSession do
    match ← selectForUpdate (fun d => d.pairings.find pairingId) (fun p => .pairing p.id) with
    | none => raise (.api .pairingInvalid "Pairing request not found" 404)
    | some pairing =>
      if pairing.status ≠ .pending then
        columnValue P
        raise (.api .pairingInvalid ("Pairing is " ++ pairing.status.value) 400)
      else
        let now ← effect .now
        if pairing.expiresAt < now then
          refusePairing (.refusePairing pairingId) pairingId (fun p => { p with status := .expired })
            (.api .pairingExpired "Pairing code has expired" 400)
        else if P.maxPairingAttempts < pairing.attemptCount + 1 then
          refusePairing (.refusePairing pairingId) pairingId
            (fun p => { p with attemptCount := pairing.attemptCount + 1, status := .rejected })
            (.api .pairingInvalid "Too many failed pairing attempts" 429)
        else
          let attempt : Attempt := ⟨pairing, now, pairingCode⟩
          if ← effect (.compareDigest (P.sha256 pairingCode) attempt) then confirmDevice P attempt ownerId
          else
            refusePairing (.wrongCode attempt) pairingId
              (fun p => { p with attemptCount := pairing.attemptCount + 1 })
              (.api .pairingInvalid "Invalid pairing code" 400)

/-! ## Revocation -/

/-- `UPDATE devices SET … WHERE id = …`, on a row that is there. -/
def updateDevice (id : UUID) (f : Device → Device) (d : DB) : Except Err (List Write) :=
  match d.devices.find id with
  | none => .error .db
  | some r => .ok [.device { f r with id := r.id }]

def DB.credentialsOf (d : DB) (deviceId : UUID) : List DeviceCredential :=
  d.credentials.rows.filter (·.deviceId == deviceId)

/-- `UPDATE device_credentials SET revoked_at = … WHERE device_id = …`. -/
def revokeCredentials (deviceId : UUID) (now : Time) : Op Nat :=
  .call (.stmt (fun d => (d.credentialsOf deviceId).map fun r => .credential r.id)
    (fun d => .ok ((d.credentialsOf deviceId).map fun r => .credential { r with revokedAt := some now })))

def revokeDevice (deviceId ownerId : UUID) : Op Bool :=
  withSession do
    match ← select fun d => (d.devices.find deviceId).filter (·.ownerId == ownerId) with
    | none => return false
    | some _ =>
      let revokedAt ← effect .now
      let now ← effect .now
      -- the statement flushes the device first
      let _ ← execute [.device deviceId] (updateDevice deviceId fun r =>
        { r with trustStatus := .revoked, revokedAt := some revokedAt })
      let _ ← revokeCredentials deviceId now
      let _ ← execute [] (insertAudit { action := .deviceRevoked, userId := ownerId, deviceId := some deviceId })
      addEvent .deviceRevoked .device deviceId (.deviceLifecycle deviceId "revoked" (some ownerId))
      commit (.revoke deviceId)
      return true

end Veyaan
