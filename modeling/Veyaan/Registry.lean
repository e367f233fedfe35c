import Veyaan.Pairing
import Veyaan.Serial.Workers

/-!
# The registry of devices

Devices, their credentials and the audit rows about them are written by two
calls, the confirmation of a pairing and the revocation. In a serial run the
three tables tell one story: who paired a device is who owns it, each pairing is
audited once, and with a device all of its credentials are revoked.
-/

open Relation (ReflTransGen)

namespace Veyaan

open Sys

def AuditLog.ofDevice (a : AuditLog) : Bool := a.action == .devicePairConfirmed || a.action == .deviceRevoked

def DB.deviceAudits (d : DB) : List AuditLog := d.audits.filter AuditLog.ofDevice

def AuditLog.pairs (id : UUID) (a : AuditLog) : Bool := a.action == .devicePairConfirmed && a.deviceId == some id

structure Registry (d₀ d : DB) : Prop where
  grown : ∀ id, d.devices.find id = none → d₀.devices.find id = none
  credential : ∀ id r, d.credentials.find id = some r →
    ∃ dev, d.devices.find r.deviceId = some dev ∧ (dev.trustStatus = .revoked → r.revokedAt.isSome)
  named : ∀ a ∈ d.deviceAudits, ∃ id dev, a.deviceId = some id ∧
    d.devices.find id = some dev ∧ a.userId = dev.ownerId ∧
    (a.action = .deviceRevoked → dev.trustStatus = .revoked) ∧
    (a.action = .devicePairConfirmed → a.note = some dev.info.displayName)
  paired : ∀ id, d.deviceAudits.countP (AuditLog.pairs id) =
    if (d.devices.find id).isSome ∧ d₀.devices.find id = none then 1 else 0
  revoked : ∀ id dev, d.devices.find id = some dev → dev.trustStatus = .revoked →
    (∃ a ∈ d.deviceAudits, a.action = .deviceRevoked ∧ a.deviceId = some id) ∨
      ∃ dev₀, d₀.devices.find id = some dev₀ ∧ dev₀.trustStatus = .revoked

theorem Registry.congr {d₀ d d' : DB} (h : Registry d₀ d) (hdev : d'.devices = d.devices)
    (hcred : d'.credentials = d.credentials) (haud : d'.deviceAudits = d.deviceAudits) : Registry d₀ d' := by
  refine ⟨?_, ?_, ?_, ?_, ?_⟩
  · rw [hdev]
    exact h.grown
  · rw [hdev, hcred]
    exact h.credential
  · rw [hdev, haud]
    exact h.named
  · rw [hdev, haud]
    exact h.paired
  · rw [hdev, haud]
    exact h.revoked

/-! ## Rows that are not the registry's -/

def Write.offRegistry : Write → Bool
  | .device _ => false
  | .credential _ => false
  | .audit a => !a.ofDevice
  | _ => true

section
variable {P : Params} {d₀ d v : DB} {ws : List Write}

theorem Registry.write_off (h : Registry d₀ d) (hw : ∀ w ∈ ws, w.offRegistry = true) :
    Registry d₀ (d.write ws) := by
  induction ws generalizing d with
  | nil => exact h
  | cons w ws ih =>
    refine ih ?_ fun x hx => hw x (List.mem_cons_of_mem _ hx)
    have hoff := hw w (List.mem_cons_self ..)
    cases w with
    | device => cases hoff
    | credential => cases hoff
    | audit a =>
      simp only [Write.offRegistry, Bool.not_eq_true'] at hoff
      exact h.congr rfl rfl (by simp [DB.deviceAudits, Write.apply, hoff])
    | _ => exact h.congr rfl rfl rfl

theorem moveRows_off {c : Command} {new : CommandState} {source : Source} {m : Option Metadata} {u n : Time} :
    ∀ w ∈ moveRows c new source m u n, w.offRegistry = true := by
  simp [moveRows, Write.offRegistry]

theorem createRows_off {c : Command} {tid : UUID} {new : CommandState} {u₁ n₁ u₂ n₂ : Time} :
    ∀ w ∈ createRows c tid new u₁ n₁ u₂ n₂, w.offRegistry = true := by
  simp [createRows, insertRows, moveRows, Write.offRegistry]

theorem BlockRows.off {ids : List UUID} (h : BlockRows v ids ws) : ∀ w ∈ ws, w.offRegistry = true := by
  induction h with
  | nil => simp
  | skip _ _ ih => exact ih
  | block _ _ _ ih =>
    intro w hw
    rcases List.mem_append.mp hw with hw | hw
    · exact moveRows_off w hw
    · exact ih w hw

theorem Rounds.off {M : DB → List Write → Prop} (hM : ∀ v ws, M v ws → ∀ w ∈ ws, w.offRegistry = true)
    (h : Rounds M v ws) : ∀ w ∈ ws, w.offRegistry = true := by
  induction h with
  | nil => simp
  | cons hm _ ih =>
    intro w hw
    rcases List.mem_append.mp hw with hw | hw
    · exact hM _ _ hm w hw
    · exact ih w hw

theorem PublishRows.off (h : PublishRows v ws) : ∀ w ∈ ws, w.offRegistry = true := by
  intro w hw
  cases h with
  | mark =>
    obtain ⟨e, -, rfl⟩ := List.mem_map.mp hw
    rfl
  | block =>
    rcases List.mem_append.mp hw with hw | hw
    · exact moveRows_off w hw
    · obtain ⟨e, -, rfl⟩ := List.mem_map.mp hw
      rfl

theorem ExpireRows.off (h : ExpireRows v ws) : ∀ w ∈ ws, w.offRegistry = true := by
  intro w hw
  cases h with
  | skip => cases hw
  | expire =>
    rcases List.mem_append.mp hw with hw | hw
    · exact moveRows_off w hw
    · obtain ⟨t, -, rfl⟩ := List.mem_map.mp hw
      rfl

theorem handleRows_off {k : Lifecycle} {p : LifecyclePayload} {u n : Time} :
    ∀ w ∈ handleRows d k p u n, w.offRegistry = true := by
  intro w hw
  unfold handleRows at hw
  split at hw
  · cases hw
  · split at hw
    · rcases List.mem_append.mp hw with hw | hw
      · exact moveRows_off w hw
      · cases ht : k.task p with
        | none =>
          rw [ht] at hw
          cases hw
        | some f =>
          rw [ht] at hw
          obtain ⟨t, -, rfl⟩ := List.mem_map.mp hw
          rfl
    · cases hw

/-! ## The two calls -/

theorem registry_pair {p : PairingRequest} {o deviceId credentialId : UUID} {secret : String} {now at' : Time}
    (h : Registry d₀ d) (hnew : d.devices.find deviceId = none) :
    Registry d₀ (d.write (confirmRows P p o deviceId credentialId secret now at')) := by
  have hdev : ∀ id, (d.write (confirmRows P p o deviceId credentialId secret now at')).devices.find id =
      if deviceId = id then some (p.device deviceId o) else d.devices.find id := fun id => Table.find_put ..
  have haud : (d.write (confirmRows P p o deviceId credentialId secret now at')).deviceAudits =
      d.deviceAudits ++ [confirmAudit o deviceId p] := List.filter_append ..
  -- what is said of devices that were there before
  have hold : ∀ id dev, d.devices.find id = some dev → deviceId ≠ id := by
    rintro id dev hd rfl
    rw [hnew] at hd
    cases hd
  refine ⟨fun id hn => ?_, fun id r hr => ?_, fun a ha => ?_, fun id => ?_, fun id dev hd hst => ?_⟩
  · rw [hdev] at hn
    split at hn
    · cases hn
    · exact h.grown id hn
  · have hr : (d.credentials.put (newCredential P credentialId deviceId secret now)).find id = some r := hr
    rw [Table.find_put] at hr
    split at hr
    · cases hr
      exact ⟨p.device deviceId o, by rw [hdev]; exact if_pos rfl, fun hst => by cases hst⟩
    · obtain ⟨dev, hd, hrev⟩ := h.credential id r hr
      exact ⟨dev, by rw [hdev, if_neg (hold _ dev hd)]; exact hd, hrev⟩
  · rw [haud] at ha
    rcases List.mem_append.mp ha with ha | ha
    · obtain ⟨id, dev, hid, hd, hrest⟩ := h.named a ha
      exact ⟨id, dev, hid, by rw [hdev, if_neg (hold _ dev hd)]; exact hd, hrest⟩
    · rw [List.mem_singleton.mp ha]
      exact ⟨deviceId, p.device deviceId o, rfl, by rw [hdev, if_pos rfl], rfl,
        fun hact => (by cases hact), fun _ => rfl⟩
  · rw [haud, List.countP_append, h.paired id, hdev]
    by_cases hid : deviceId = id
    · subst hid
      simp [hnew, h.grown _ hnew, AuditLog.pairs, confirmAudit]
    · simp [hid, AuditLog.pairs, confirmAudit]
  · rw [hdev] at hd
    split at hd
    · cases hd
      cases hst
    · rw [haud]
      refine (h.revoked id dev hd hst).imp_left ?_
      rintro ⟨a, ha, hact⟩
      exact ⟨a, List.mem_append_left _ ha, hact⟩

theorem find_write_credentials {f : DeviceCredential → DeviceCredential} (hf : ∀ r, (f r).id = r.id) {id : UUID}
    {r : DeviceCredential} : ∀ {l : List DeviceCredential} {d : DB},
      (d.write (l.map fun r => .credential (f r))).credentials.find id = some r →
      (∃ x ∈ l, r = f x) ∨ d.credentials.find id = some r ∧ ∀ x ∈ l, x.id ≠ id
  | [], _, h => .inr ⟨h, by simp⟩
  | y :: l, d, h => by
    rcases find_write_credentials hf (l := l) (d := (Write.credential (f y)).apply d) h with ⟨x, hx, he⟩ | ⟨h, hne⟩
    · exact .inl ⟨x, List.mem_cons_of_mem _ hx, he⟩
    · simp only [Write.apply, Table.find_put, key_credential, hf] at h
      by_cases hid : y.id = id
      · rw [if_pos hid] at h
        cases h
        exact .inl ⟨y, List.mem_cons_self .., rfl⟩
      · rw [if_neg hid] at h
        refine .inr ⟨h, fun x hx => ?_⟩
        rcases List.mem_cons.mp hx with rfl | hx
        · exact hid
        · exact hne x hx

def revokeRows (d : DB) (dev : Device) (revokedAt now : Time) (e : OutboxEvent) : List Write :=
  .device { dev with trustStatus := .revoked, revokedAt := some revokedAt } ::
    (d.credentialsOf dev.id).map (fun r => .credential { r with revokedAt := some now }) ++
    [.audit { action := .deviceRevoked, userId := dev.ownerId, deviceId := some dev.id }, .outbox e]

theorem write_credentials_only {l : List DeviceCredential} {f : DeviceCredential → DeviceCredential} : ∀ d : DB,
    (d.write (l.map fun r => .credential (f r))).devices = d.devices ∧
      (d.write (l.map fun r => .credential (f r))).audits = d.audits := by
  induction l with
  | nil => exact fun _ => ⟨rfl, rfl⟩
  | cons y l ih => exact fun d => ih ((Write.credential (f y)).apply d)

theorem registry_revoke {dev : Device} {revokedAt now : Time} {e : OutboxEvent} (h : Registry d₀ d)
    (hfind : d.devices.find dev.id = some dev) : Registry d₀ (d.write (revokeRows d dev revokedAt now e)) := by
  let d₁ := (Write.device { dev with trustStatus := .revoked, revokedAt := some revokedAt }).apply d
  let d₂ := d₁.write ((d.credentialsOf dev.id).map fun r => .credential { r with revokedAt := some now })
  have hwrite : d.write (revokeRows d dev revokedAt now e) = d₂.write
      [.audit { action := .deviceRevoked, userId := dev.ownerId, deviceId := some dev.id }, .outbox e] := by
    rw [revokeRows, List.cons_append, DB.write_cons, DB.write_append]
  obtain ⟨hdevs, hauds⟩ := write_credentials_only (l := d.credentialsOf dev.id)
    (f := fun r => { r with revokedAt := some now }) d₁
  have hdev : ∀ id, (d.write (revokeRows d dev revokedAt now e)).devices.find id =
      if dev.id = id then some { dev with trustStatus := .revoked, revokedAt := some revokedAt }
          else d.devices.find id := by
    intro id
    rw [hwrite]
    show d₂.devices.find id = _
    rw [hdevs]
    exact Table.find_put ..
  have haud : (d.write (revokeRows d dev revokedAt now e)).deviceAudits = d.deviceAudits ++
      [{ action := .deviceRevoked, userId := dev.ownerId, deviceId := some dev.id }] := by
    rw [hwrite]
    show List.filter _ (d₂.audits ++ _) = _
    rw [hauds, List.filter_append]
    rfl
  -- a device that was there is there, with its owner and its name, and revoked if it was
  have hstay : ∀ id x, d.devices.find id = some x →
    ∃ x', (d.write (revokeRows d dev revokedAt now e)).devices.find id = some x' ∧
      x'.ownerId = x.ownerId ∧ x'.info = x.info ∧ (x.trustStatus = .revoked → x'.trustStatus = .revoked) := by
    intro id x hx
    rw [hdev]
    by_cases hid : dev.id = id
    · subst hid
      rw [hfind] at hx
      cases hx
      exact ⟨_, if_pos rfl, rfl, rfl, fun _ => rfl⟩
    · exact ⟨x, by rw [if_neg hid]; exact hx, rfl, rfl, fun hst => hst⟩
  refine ⟨fun id hn => ?_, fun id r hr => ?_, fun a ha => ?_, fun id => ?_, fun id x hx hst => ?_⟩
  · rw [hdev] at hn
    split at hn
    · cases hn
    · exact h.grown id hn
  · rw [hwrite] at hr
    have hr : d₂.credentials.find id = some r := hr
    rcases find_write_credentials (f := fun r => { r with revokedAt := some now }) (fun _ => rfl) hr with
      ⟨x, hx, rfl⟩ | ⟨hr, hne⟩
    · have hxd : x.deviceId = dev.id := by simpa using (List.mem_filter.mp hx).2
      exact ⟨_, by rw [hdev]; exact if_pos hxd.symm, fun _ => rfl⟩
    · have hr : d.credentials.find id = some r := hr
      have hnot : dev.id ≠ r.deviceId := by
        intro he
        have hmem : r ∈ d.credentialsOf dev.id := List.mem_filter.mpr ⟨Table.mem_of_find hr, by simp [he]⟩
        exact hne r hmem (by simpa using Table.key_of_find hr)
      obtain ⟨x, hx, hrev⟩ := h.credential id r hr
      exact ⟨x, by rw [hdev, if_neg hnot]; exact hx, hrev⟩
  · rw [haud] at ha
    rcases List.mem_append.mp ha with ha | ha
    · obtain ⟨id, x, hid, hx, ho, hrev, hnote⟩ := h.named a ha
      obtain ⟨x', hx', ho', hinfo, hrev'⟩ := hstay id x hx
      exact ⟨id, x', hid, hx', ho.trans ho'.symm, fun hact => hrev' (hrev hact),
        fun hact => by rw [hinfo]; exact hnote hact⟩
    · rw [List.mem_singleton.mp ha]
      have hd := hdev dev.id
      rw [if_pos rfl] at hd
      exact ⟨dev.id, _, rfl, hd, rfl, fun _ => rfl, fun hact => by cases hact⟩
  · rw [haud, List.countP_append, h.paired id, hdev]
    by_cases hid : dev.id = id
    · subst hid
      simp [hfind, AuditLog.pairs]
    · simp [hid, AuditLog.pairs]
  · rw [haud]
    by_cases hid : dev.id = id
    · exact .inl ⟨_, List.mem_append_right _ (List.mem_singleton.mpr rfl), rfl, by rw [hid]⟩
    · rw [hdev, if_neg hid] at hx
      refine (h.revoked id x hx hst).imp_left ?_
      rintro ⟨a, ha, hact⟩
      exact ⟨a, List.mem_append_left _ ha, hact⟩

/-! ## All calls -/

theorem Rows.registry {call : Call} (h : Rows P d call ws) (hr : Registry d₀ d) : Registry d₀ (d.write ws) := by
  cases h with
  | createAwaiting =>
    refine hr.write_off fun w hw => ?_
    rcases List.mem_append.mp hw with hw | hw
    · exact createRows_off w hw
    · cases List.mem_singleton.mp hw
      rfl
  | createQueued =>
    refine hr.write_off fun w hw => ?_
    rcases List.mem_append.mp hw with hw | hw
    · exact createRows_off w hw
    · cases List.mem_singleton.mp hw
      rfl
  | cancel => exact hr.write_off moveRows_off
  | approve =>
    exact hr.write_off (by simp [approveRows, moveRows, Write.offRegistry, decisionAudit, AuditLog.ofDevice])
  | reject => exact hr.write_off (by simp [moveRows, Write.offRegistry, decisionAudit, AuditLog.ofDevice])
  | activate _ _ hb _ =>
    refine hr.write_off fun w hw => ?_
    simp only [List.cons_append, List.mem_cons, List.mem_append, List.not_mem_nil, or_false] at hw
    rcases hw with rfl | hw | rfl | rfl
    · rfl
    · exact hb.off w hw
    · rfl
    · rfl
  | reactivate => exact hr.write_off (by simp [Write.offRegistry])
  | release => exact hr.write_off (by simp [Write.offRegistry, AuditLog.ofDevice])
  | startPairing => exact hr.write_off (by simp [Write.offRegistry])
  | confirmPairing _ _ _ _ hnew => exact registry_pair hr hnew
  | @revoke id o dev revokedAt now eid at' hfind ho =>
    have hid : dev.id = id := by simpa using Table.key_of_find hfind
    subst hid ho
    exact registry_revoke hr hfind
  | batch h => exact hr.write_off (h.off fun _ _ => PublishRows.off)
  | tasks h =>
    refine hr.write_off fun w hw => ?_
    simp only [List.mem_append, List.mem_map] at hw
    rcases hw with (⟨_, -, rfl⟩ | ⟨_, -, rfl⟩) | hw
    · rfl
    · rfl
    · exact h.off (fun _ _ => ExpireRows.off) w hw
  | consume => exact hr.write_off handleRows_off

theorem Refusal.registry {call : Call} (h : Refusal P d call ws) (hr : Registry d₀ d) :
    Registry d₀ (d.write ws) := by
  cases h <;> exact hr.write_off (by simp [Write.offRegistry])

end

/-- **The registry tells one story**: in a serial run, the credentials of a revoked device
are revoked, each device that was paired has one audit row that says so, in the name of
its owner, and each revocation has one as well. -/
theorem registry_sound {P : Params} {c₀ c : Conf} (h₀ : Initial Init c₀)
    (hcred : ∀ id r, c₀.world.sh.db.credentials.find id = some r →
      ∃ dev, c₀.world.sh.db.devices.find r.deviceId = some dev ∧ (dev.trustStatus = .revoked → r.revokedAt.isSome))
    (hr : ReflTransGen (sys P).SerialStep c₀ c) : Registry c₀.world.sh.db c.world.sh.db := by
  have hstart : Registry c₀.world.sh.db c₀.world.sh.db := by
    have hnone : c₀.world.sh.db.deviceAudits = [] := by rw [DB.deviceAudits, h₀.init.audits]; rfl
    refine ⟨fun _ hn => hn, hcred, by simp [hnone], fun id => ?_, fun id dev hd hst => .inr ⟨dev, hd, hst⟩⟩
    rw [hnone, if_neg]
    · rfl
    · rintro ⟨hs, hn⟩
      rw [hn] at hs
      cases hs
  have hseq : (sys P).Sequential (Registry c₀.world.sh.db) c₀ :=
    ⟨hstart, fun j _ => h₀.sess j, .inl ⟨by rw [h₀.procs]; simp, h₀.locks⟩⟩
  exact (hseq.serially (.init h₀) hr fun c call hreach _ hJ =>
    solo_keeps (reachable_inv hreach).db call hJ fun ws hw => hw.elim (fun h => h.registry hJ)
      fun h => h.registry hJ).2.store

def pairedAndRevoked : List (Turn Move) :=
  .other (.call (.confirmPairing 3 7 demoExt.token)) :: steps 0 16 ++ .other (.call (.revoke 10 7)) :: steps 1 12

theorem registry_sound_revoked : ∃ c₀ c, Initial Init c₀ ∧ ReflTransGen (sys demo).SerialStep c₀ c ∧
    (∃ dev, c.world.sh.db.devices.find 10 = some dev ∧ dev.trustStatus = .revoked) ∧
    (∃ r, c.world.sh.db.credentials.find 11 = some r ∧ r.deviceId = 10) ∧
    Registry c₀.world.sh.db c.world.sh.db := by
  have h₀ : Initial Init (fresh pairingDB demoExt) :=
    ⟨rfl, rfl, fun _ => rfl, fun _ => rfl, rfl, rfl, rfl, rfl, rfl, rfl, rfl, fun _ => rfl, rfl, rfl⟩
  have hplay : (playIf (moves demo) serially pairedAndRevoked (fresh pairingDB demoExt)).any (fun c =>
      (c.world.sh.db.devices.find 10).any (·.trustStatus == .revoked) &&
        (c.world.sh.db.credentials.find 11).any (·.deviceId == 10)) = true := by decide +kernel
  obtain ⟨c, hc, hφ⟩ := (Option.any_eq_true _ _).mp hplay
  simp only [Bool.and_eq_true, Option.any_eq_true, beq_iff_eq] at hφ
  have hr : ReflTransGen (sys demo).SerialStep (fresh pairingDB demoExt) c :=
    playIf_runs _ (Q := (sys demo).SerialStep) serially_step hc
  exact ⟨_, c, h₀, hr, hφ.1, hφ.2, registry_sound h₀ (fun id r hn => by cases hn) hr⟩

end Veyaan
