import Veyaan.Schedule
import Veyaan.Serial.Devices

/-!
# From a pairing request to its device

`start_pairing` commits every request whose texts fit, and `confirm_pairing` makes a
device of it in a table that takes three types of device only.
-/

namespace Veyaan

open Sys

def DeviceInfo.admitted (i : DeviceInfo) : Bool :=
  let between (lo hi : Nat) (s : String) := decide (lo ≤ s.length) && decide (s.length ≤ hi)
  between 1 255 i.displayName && between 1 100 i.deviceType && between 1 100 i.operatingSystem &&
    between 1 50 i.appVersion && decide (1 ≤ i.devicePublicIdentity.length) &&
    decide (i.protocolVersion.length ≤ 20)

section
variable {P : Params} {d : DB} {id owner : UUID} {code : String}

/-- Hashes that fit and new identifiers leave nothing that could stop a confirmation but
the request and its owner. -/
theorem within_confirmEnds {J : Ext → Prop} (hsha : ∀ s, varcharOk 64 (P.sha256 s) = true)
    (hids : ∀ y, J y → d.devices.find y.nextId = none ∧ d.credentials.find y.nextId = none) :
    within P false J (fun _ => True) (confirmPairing P id owner code)
    (fun r d' _ => ConfirmEnds P J d id owner code r d') d
      (.idle d) := by
  refine within_confirmPairing (fun hbad => absurd hbad ?_) fun r d' h => ⟨trivial, by simp, h⟩
  rintro (h | ⟨s, h⟩ | ⟨y, hy, h⟩)
  · cases h
  · rw [hsha s] at h
    cases h
  · exact h.elim (· (hids y hy).1) (· (hids y hy).2)

theorem calm_confirmPairing {J : Ext → Prop} {j : Nat} {w w' : Wd} {x : Except Err (UUID × String)}
    (hsha : ∀ s, varcharOk 64 (P.sha256 s) = true) (hw : (sys P).Matches j w d (.idle d))
    (hids : ∀ n, w.sh.ext.nextId ≤ n → d.devices.find n = none ∧ d.credentials.find n = none)
    (hrun : (sys P).Calm J j (confirmPairing P id owner code) w x w') :
    ConfirmEnds P (fun y => J y ∧ w.sh.ext.nextId ≤ y.nextId) d id owner code x w'.sh.db := by
  obtain ⟨d', o', hm, hends⟩ := calm_sound hw (within_confirmEnds hsha fun y hy => hids _ hy.2) (calm_nextId hrun)
  rw [hm.db]
  exact hends

/-! ## From the request to the device -/

/-- The confirmation has committed a trusted device of the owner with the fields of the
request, and a credential for the secret that it returns. -/
def Pairs (P : Params) (id : UUID) (info : DeviceInfo) (owner : UUID)
    (x : Except Err (UUID × String)) (d d' : DB) : Prop :=
  ∃ deviceId secret c, x = .ok (deviceId, secret) ∧
    d'.devices.rows = d.devices.rows ++ [⟨deviceId, owner, info, .trusted, none⟩] ∧
    d'.credentials.rows = d.credentials.rows ++ [c] ∧ c.deviceId = deviceId ∧ c.credentialHash = P.sha256 secret ∧
    c.revokedAt = none ∧ ∃ p, d'.pairings.find id = some p ∧ p.status = .confirmed ∧ p.ownerId = some owner

theorem confirmRows_pairs {p : PairingRequest} {deviceId credentialId : UUID}
    {secret : String} {now confirmedAt : Time}
    (hp : d.pairings.find id = some p) (hdev : d.devices.find deviceId = none)
    (hcred : d.credentials.find credentialId = none) :
    Pairs P id p.info owner (.ok (deviceId, secret)) d
      (d.write (confirmRows P p owner deviceId credentialId secret now confirmedAt)) := by
  have hid : p.id = id := by simpa using Table.key_of_find hp
  refine ⟨deviceId, secret, newCredential P credentialId deviceId secret now, rfl, Table.rows_put_new hdev,
    Table.rows_put_new hcred, rfl, rfl, rfl, ?_⟩
  subst hid
  exact ⟨_, Table.find_put_self .., rfl, rfl⟩

theorem start_pairing_committed {info : DeviceInfo} {i : Nat} {w w' : Wd} (hw : (sys P).Matches i w d (.idle d))
    (hrun : (sys P).Alone true i (startPairing P info) w (.ok (id, code)) w') : ∃ now,
      w'.sh.db.pairings.find id = some (newPairing P info id code now) ∧
      (newPairing P info id code now).info.storable = true := by
  have hsolo : solo P true (fun _ => True) (startPairing P info) (fun x d' _ => ∀ a, x = .ok a → ∃ now,
      d'.pairings.find a.1 = some (newPairing P info a.1 a.2 now) ∧
      (newPairing P info a.1 a.2 now).info.storable = true)
      d (.idle d) := by
    refine within_startPairing (fun _ _ hx => by cases hx) fun id code now hn hs ws hws => ?_
    subst hws
    have hfind : (d.write [.pairing (newPairing P info id code now)]).pairings.find id =
        some (newPairing P info id code now) :=
      Table.find_put_self ..
    refine ⟨trivial, fun a ha => (by cases ha), fun a ha => ?_⟩
    cases ha
    exact ⟨now, hfind, hs⟩
  obtain ⟨d', o', hm, hpost⟩ := alone_sound hw hsolo hrun
  rw [hm.db]
  exact hpost _ rfl

/-- **From a request to its device.** The first confirmation of a committed request, with
its code and in time, makes the device exactly if the table of devices knows its type,
and any attempt at all is allowed. -/
theorem pairing_confirms_iff {info : DeviceInfo} {i j : Nat} {w₀ w₁ w w' : Wd} {d₀ : DB} {p : PairingRequest}
    {x : Except Err (UUID × String)} (hsha : ∀ s, varcharOk 64 (P.sha256 s) = true)
    (hw₀ : (sys P).Matches i w₀ d₀ (.idle d₀))
    (hstart : (sys P).Alone true i (startPairing P info) w₀ (.ok (id, code)) w₁)
    (hp : w₁.sh.db.pairings.find id = some p)
    -- no confirmation has been tried before
    (hw : (sys P).Matches j w d (.idle d)) (hfirst : d.pairings.find id = some p) (howner : d.isUser owner = true)
    (hids : ∀ n, w.sh.ext.nextId ≤ n → d.devices.find n = none ∧ d.credentials.find n = none)
    (hrun : (sys P).Calm (fun y => y.clock ≤ p.expiresAt) j (confirmPairing P id owner code) w x w') :
    Pairs P id { info with protocolVersion := if info.protocolVersion = "" then "v1"
      else info.protocolVersion } owner x d
      w'.sh.db ↔ (info.deviceType ∈ ["macbook", "iphone", "ipad"] ∧ 0 < P.maxPairingAttempts) := by
  obtain ⟨now, hp', hs⟩ := start_pairing_committed hw₀ hstart
  cases hp.symm.trans hp'
  have hends := calm_confirmPairing hsha hw hids hrun
  generalize w'.sh.db = d' at hends ⊢
  have hno : ∀ {e d'}, ¬ Pairs P id
      { info with protocolVersion := if info.protocolVersion = "" then "v1" else info.protocolVersion }
          owner (.error e) d d' := by
    rintro e d' ⟨_, _, _, hx, -⟩
    cases hx
  have htakes : d.takesDevice (newPairing P info id code now) owner =
      decide (info.deviceType ∈ ["macbook", "iphone", "ipad"]) := by
    rw [DB.takesDevice, howner, hs, Bool.and_true, Bool.true_and]
    rfl
  cases hends with
  | missing hn =>
    rw [hfirst] at hn
    cases hn
  | plain hq hst _ | decided hq hst _ =>
    cases hfirst.symm.trans hq
    exact absurd rfl hst
  | expired hq _ hy hexp =>
    cases hfirst.symm.trans hq
    exact absurd hexp (Nat.not_lt.mpr hy.1)
  | exceeded hq _ _ _ hmax =>
    cases hfirst.symm.trans hq
    refine iff_of_false hno fun h => ?_
    have hmax : P.maxPairingAttempts < 0 + 1 := hmax
    omega
  | wrongCode hq _ _ _ _ hcode =>
    cases hfirst.symm.trans hq
    exact absurd rfl hcode
  | refused hq _ _ _ _ _ hno' _ =>
    cases hfirst.symm.trans hq
    rw [htakes] at hno'
    refine iff_of_false hno fun h => ?_
    rw [decide_eq_true h.1] at hno'
    cases hno'
  | paired hq _ _ _ hmax _ hyes hdev hcred =>
    cases hfirst.symm.trans hq
    rw [htakes] at hyes
    refine iff_of_true (confirmRows_pairs hfirst hdev hcred) ⟨of_decide_eq_true hyes, ?_⟩
    have hmax : ¬ P.maxPairingAttempts < 0 + 1 := hmax
    omega

end

structure Enrols (info : DeviceInfo) (a : UUID × String) (w : Wd) (p : PairingRequest)
    (x : Except Err (UUID × String)) (w' : Wd) : Prop where
  start : (sys demo).Alone true 0 (startPairing demo info) demoStart.world (.ok a) w
  request : w.sh.db.pairings.find a.1 = some p
  owner : w.sh.db.isUser 7 = true
  unused : ∀ n, w.sh.ext.nextId ≤ n → w.sh.db.devices.find n = none ∧ w.sh.db.credentials.find n = none
  confirm : (sys demo).Calm (fun y => y.clock ≤ p.expiresAt) 0 (confirmPairing demo a.1 7 a.2)
    (fresh w.sh.db w.sh.ext).world x w'

def enrol (info : DeviceInfo) : Option (Except Err (UUID × String) × Wd) :=
  ((sys demo).finish 0 (startPairing demo info) demoStart.world).bind fun (r, w) =>
    match r with
    | .error _ => none
    | .ok a => (w.sh.db.pairings.find a.1).bind fun p =>
      if w.sh.db.isUser 7 && w.sh.db.devices.rows.all (fun r => decide (r.id < w.sh.ext.nextId)) &&
          w.sh.db.credentials.rows.all (fun r => decide (r.id < w.sh.ext.nextId)) then
        (sys demo).finishIn (fun y => decide (y.clock ≤ p.expiresAt)) 0 (confirmPairing demo a.1 7 a.2)
          (fresh w.sh.db w.sh.ext).world
      else none

theorem enrol_run {info : DeviceInfo} {x : Except Err (UUID × String)} {w' : Wd} (h : enrol info = some (x, w')) :
    ∃ a w p, Enrols info a w p x w' := by
  obtain ⟨⟨r, w⟩, hstart, h⟩ := Option.bind_eq_some_iff.mp h
  cases r with
  | error e => cases h
  | ok a =>
    obtain ⟨p, hp, h⟩ := Option.bind_eq_some_iff.mp h
    split at h
    · rename_i hok
      simp only [Bool.and_eq_true, List.all_eq_true, decide_eq_true_eq] at hok
      obtain ⟨⟨howner, hdev⟩, hcred⟩ := hok
      refine ⟨a, w, p, (finish_alone hstart).mono, hp, howner, fun n hn => ⟨?_, ?_⟩, ?_⟩
      · exact Table.find_none fun r hr => Nat.ne_of_lt (Nat.lt_of_lt_of_le (hdev r hr) hn)
      · exact Table.find_none fun r hr => Nat.ne_of_lt (Nat.lt_of_lt_of_le (hcred r hr) hn)
      · exact (finishIn_calm h).imp fun y hy => of_decide_eq_true hy
    · cases h

theorem demo_sha256 (s : String) : varcharOk 64 (demo.sha256 s) = true := by
  simp only [demo]
  split <;> decide

/-- An `android` device is accepted, and its request as well. -/
theorem pairing_rejects_device : ¬ ∀ (info : DeviceInfo) a w p x w', info.admitted = true → Enrols info a w p x w' →
    Pairs demo a.1 { info with protocolVersion := if info.protocolVersion = "" then "v1"
      else info.protocolVersion } 7 x w.sh.db w'.sh.db := by
  intro hall
  have h : (enrol { laptop with deviceType := "android" }).any
      (fun x => match x.1 with | .ok _ => false | .error _ => true) = true := by
    decide +kernel
  obtain ⟨⟨x, w'⟩, hx, herr⟩ := (Option.any_eq_true _ _).mp h
  obtain ⟨a, w, p, hen⟩ := enrol_run hx
  obtain ⟨_, _, _, rfl, -⟩ := hall _ a w p x w' (by decide) hen
  cases herr

theorem pairing_confirms_iff_laptop : ∃ a w p x w', Enrols laptop a w p x w' ∧
    Pairs demo a.1 laptop 7 x w.sh.db w'.sh.db := by
  obtain ⟨⟨x, w'⟩, hx⟩ := Option.isSome_iff_exists.mp (show (enrol laptop).isSome = true by decide +kernel)
  obtain ⟨a, w, p, hen⟩ := enrol_run hx
  exact ⟨a, w, p, x, w', hen, (pairing_confirms_iff demo_sha256
    (fresh_matches demoDB demoExt 0) hen.start hen.request
    (fresh_matches w.sh.db w.sh.ext 0) hen.request hen.owner hen.unused hen.confirm).mpr ⟨by decide, by decide⟩⟩

end Veyaan
