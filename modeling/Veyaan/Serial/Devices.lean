import Veyaan.Serial.Calls

/-!
# `DeviceService` alone

A refused pairing commits what it has counted, and raises; a device is paired or
revoked in one transaction.
-/

namespace Veyaan

open Sys

section
variable {P : Params} {d : DB}

/-! ## Pairing -/

theorem within_startPairing {fails : Bool} {J : Ext → Prop} {I : DB → Prop} {info : DeviceInfo}
    {Q : Except Err (UUID × String) → DB → Open DB → Prop} (hE : ∀ e, Q (.error e) d (.idle d))
    (hk : ∀ id code now, d.pairings.find id = none → (newPairing P info id code now).info.storable = true →
      ∀ ws, ws = [.pairing (newPairing P info id code now)] →
        I (d.write ws) ∧ Q (.error .db) (d.write ws) (.idle (d.write ws)) ∧ Q (.ok (id, code))
        (d.write ws) (.idle (d.write ws))) :
    within P fails J I (startPairing P info) Q d (.idle d) := by
  refine solo_withSession (solo_token fun code => solo_now fun now => solo_uuid4 fun id => ?_)
  refine solo_execute rfl (fun _ => hE _) (fun e _ => hE e) fun ws hws => ?_
  obtain ⟨hn, hs, -, rfl⟩ := insertPairing_ok.mp hws
  obtain ⟨hI, herr, hok⟩ := hk id code now hn hs _ rfl
  exact solo_select rfl (fun _ => hE _) (solo_commit rfl (fun _ => hE _) hI ⟨fun _ => herr, fun _ => ⟨hI, hok⟩⟩)

theorem solo_startPairing {info : DeviceInfo} : solo P true (Wrote P (.startPairing info) d) (startPairing P info)
    (fun _ d' o' => Wrote P (.startPairing info) d d' ∧ o'.locks = false) d (.idle d) := by
  refine within_startPairing (fun _ => ⟨.inl rfl, rfl⟩) fun id code now hn _ ws hws => ?_
  have hrows : Rows P d (.startPairing info) ws := hws ▸ .startPairing hn
  exact ⟨.inr ⟨ws, .inl hrows, rfl⟩, ⟨.inr ⟨ws, .inl hrows, rfl⟩, rfl⟩, .inr ⟨ws, .inl hrows, rfl⟩, rfl⟩

section
variable {fails : Bool} {J : Ext → Prop} {β : Type} {Q : Except Err β → DB → Open DB → Prop}
    {I : DB → Prop} {p : PairingRequest}

theorem within_updatePairing {o : Open DB} {id : UUID} {g : PairingRequest → PairingRequest} {f : Nat → Op β}
    (ho : o.failed = false) (hp : o.view.pairings.find id = some p) (hg : (g p).id = p.id)
    (hE : fails = true → ∀ o', Q (.error .db) d o')
    (hk : within P fails J I (f 1) Q d (.seeing (o.view.write [.pairing (g p)]))) :
    within P fails J I ((execute [.pairing id] (updatePairing id g)).bind f) Q d o := by
  refine solo_execute ho (fun h => hE h _) (fun e he => ?_) fun ws hws => ?_
  · simp only [updatePairing, hp] at he
    cases he
  · simp only [updatePairing, hp] at hws
    cases hws
    rw [show ({ g p with id := p.id } : PairingRequest) = g p by rw [← hg]]
    exact hk

theorem within_refusePairing {t : Tag} {id : UUID} {e : Err} {g : PairingRequest → PairingRequest}
    (hp : d.pairings.find id = some p) (hg : (g p).id = p.id) (hE : fails = true → ∀ o', Q (.error .db) d o')
    (hI : I (d.write [.pairing (g p)])) (hk : Q (.error e) (d.write [.pairing (g p)])
      (.idle (d.write [.pairing (g p)]))) :
    within P fails J I (refusePairing (α := β) t id g e) Q d (Open.idle d).lock := by
  unfold refusePairing
  refine within_updatePairing rfl hp hg hE ?_
  exact solo_commit rfl (fun h => hE h _) hI hk

/-- The success path goes wrong when a statement fails, and when the database does not
take its rows. -/
theorem within_confirmDevice {Q : Except Err (UUID × String) → DB → Open DB → Prop}
    {id owner : UUID} {code : String} {t : Time} (hp : d.pairings.find id = some p)
    (hE : (fails = true ∨ d.takesDevice p owner = false ∨ (∃ s, varcharOk 64 (P.sha256 s) = false) ∨
      ∃ x, J x ∧ (d.devices.find x.nextId ≠ none ∨ d.credentials.find x.nextId ≠ none)) →
      ∀ e o, e.classified = false → Q (.error e) d o)
    (hk : ∀ deviceId credentialId secret now confirmedAt, d.takesDevice p owner = true →
      d.devices.find deviceId = none →
      d.credentials.find credentialId = none →
      ∀ ws, ws = confirmRows P p owner deviceId credentialId secret now confirmedAt →
        I (d.write ws) ∧ (fails = true → Q (.error .db) (d.write ws) (Open.idle (d.write ws)).fail) ∧
          Q (.ok (deviceId, secret)) (d.write ws) (.idle (d.write ws))) :
    within P fails J I (confirmDevice P ⟨p, t, code⟩ owner) Q d (Open.idle d).lock := by
  have hfail : fails = true → ∀ o, Q (.error .db) d o := fun h o => hE (.inl h) .db o rfl
  have hid : p.id = id := by simpa using Table.key_of_find hp
  unfold confirmDevice
  refine within_uuid4 fun x hx => within_updatePairing rfl (by rw [hid]; exact hp) rfl hfail ?_
  refine solo_execute rfl (fun h => hfail h _)
    (fun e he => hE ?_ _ _ (not_classified (insertDevice_error he))) fun ws hws => ?_
  · by_cases htakes : d.takesDevice p owner = true
    · refine .inr (.inr (.inr ⟨x, hx, .inl fun hn => ?_⟩))
      simp only [DB.takesDevice, Bool.and_eq_true, decide_eq_true_eq] at htakes
      obtain ⟨⟨hu, ht⟩, hs⟩ := htakes
      have hok : insertDevice (p.device x.nextId owner)
        (d.write [.pairing { p with attemptCount := p.attemptCount + 1 }]) =
          .ok [.device (p.device x.nextId owner)] := insertDevice_ok.mpr ⟨hn, hu, ht, hs, rfl⟩
      exact absurd (hok.symm.trans he) (by simp)
    · exact .inr (.inl (by simpa using htakes))
  obtain ⟨hdev, hu, ht, hs, rfl⟩ := insertDevice_ok.mp hws
  have hu : d.isUser owner = true := hu
  have hs : p.info.storable = true := hs
  have ht : p.info.deviceType ∈ ["macbook", "iphone", "ipad"] := ht
  have htakes : d.takesDevice p owner = true := by
    rw [DB.takesDevice, hu, hs, decide_eq_true ht]
    rfl
  refine solo_token fun secret => solo_now fun now => solo_now fun confirmedAt => within_uuid4 fun y hy => ?_
  refine solo_execute rfl (fun h => hfail h _)
    (fun e he => hE ?_ _ _ (not_classified (insertCredential_error he))) fun ws hws => ?_
  · simp only [insertCredential] at he
    split at he
    · rename_i hbad
      rcases Bool.or_eq_true_iff.mp hbad with hused | hno
      · refine .inr (.inr (.inr ⟨y, hy, .inr fun hn => ?_⟩))
        have hused : (d.credentials.find y.nextId).isSome = true := hused
        rw [hn] at hused
        cases hused
      · have hfound : (((d.devices).put (p.device x.nextId owner)).find x.nextId).isNone = true := hno
        rw [Table.find_put, if_pos (by rfl)] at hfound
        cases hfound
    · split at he <;> cases he
      rename_i hhash
      exact .inr (.inr (.inl ⟨secret, Bool.eq_false_iff.mpr hhash⟩))
  simp only [insertCredential] at hws
  split at hws
  · cases hws
  rename_i hn'
  split at hws <;> cases hws
  have hcred : d.credentials.find y.nextId = none := by
    simp only [Bool.or_eq_true, not_or] at hn'
    exact Option.not_isSome_iff_eq_none.mp hn'.1
  refine within_updatePairing (p := { p with attemptCount := p.attemptCount + 1 })
    rfl (Table.find_put_self ..) rfl hfail ?_
  refine within_insertAudit rfl (fun h o _ => hfail h o) (fun e o hno _ _ => ?_) fun _ _ => ?_
  · -- the owner and the name have passed with the device
    have hname : textOk p.info.displayName = true := by
      simp only [DeviceInfo.storable, varcharOk, Bool.and_eq_true] at hs
      exact hs.1.1.1.1.1.2
    have hno : (d.isUser owner && textOk p.info.displayName) = false := hno
    rw [hu, hname] at hno
    cases hno
  obtain ⟨hI, herr, hok⟩ := hk x.nextId y.nextId secret now confirmedAt htakes hdev hcred _ rfl
  exact solo_commit rfl (fun h => hfail h _) hI (solo_select rfl herr hok)

end

/-- How a confirmation ends in which no statement fails, and what it leaves. -/
inductive ConfirmEnds (P : Params) (J : Ext → Prop) (d : DB) (id owner : UUID) (code : String) :
    Except Err (UUID × String) → DB → Prop
  | missing : d.pairings.find id = none →
      ConfirmEnds P J d id owner code (.error (.api .pairingInvalid "Pairing request not found" 404)) d
  | plain {p} : d.pairings.find id = some p → p.status ≠ .pending → P.plainStr = true →
      ConfirmEnds P J d id owner code (.error .attributeError) d
  | decided {p} : d.pairings.find id = some p → p.status ≠ .pending → P.plainStr = false →
      ConfirmEnds P J d id owner code (.error (.api .pairingInvalid ("Pairing is " ++ p.status.value) 400)) d
  | expired {p x} : d.pairings.find id = some p → p.status = .pending → J x → p.expiresAt < x.clock →
      ConfirmEnds P J d id owner code (.error (.api .pairingExpired "Pairing code has expired" 400))
        (d.write [.pairing { p with status := .expired }])
  | exceeded {p x} : d.pairings.find id = some p → p.status = .pending → J x → ¬ p.expiresAt < x.clock →
      P.maxPairingAttempts < p.attemptCount + 1 →
      ConfirmEnds P J d id owner code (.error (.api .pairingInvalid "Too many failed pairing attempts" 429))
        (d.write [.pairing { p with attemptCount := p.attemptCount + 1, status := .rejected }])
  | wrongCode {p x} : d.pairings.find id = some p → p.status = .pending → J x → ¬ p.expiresAt < x.clock →
      ¬ P.maxPairingAttempts < p.attemptCount + 1 → P.sha256 code ≠ p.pairingCodeHash →
      ConfirmEnds P J d id owner code (.error (.api .pairingInvalid "Invalid pairing code" 400))
        (d.write [.pairing { p with attemptCount := p.attemptCount + 1 }])
  | refused {p x e} : d.pairings.find id = some p → p.status = .pending → J x → ¬ p.expiresAt < x.clock →
      ¬ P.maxPairingAttempts < p.attemptCount + 1 → P.sha256 code = p.pairingCodeHash →
      d.takesDevice p owner = false →
      e.classified = false → ConfirmEnds P J d id owner code (.error e) d
  | paired {p x deviceId credentialId secret now confirmedAt} : d.pairings.find id = some p → p.status = .pending →
      J x → ¬ p.expiresAt < x.clock → ¬ P.maxPairingAttempts < p.attemptCount + 1 →
      P.sha256 code = p.pairingCodeHash →
      d.takesDevice p owner = true → d.devices.find deviceId = none → d.credentials.find credentialId = none →
      ConfirmEnds P J d id owner code (.ok (deviceId, secret))
        (d.write (confirmRows P p owner deviceId credentialId secret now confirmedAt))

theorem within_confirmPairing {fails : Bool} {J : Ext → Prop} {I : DB → Prop} {id owner : UUID} {code : String}
    {Q : Except Err (UUID × String) → DB → Open DB → Prop}
    (hE : (fails = true ∨ (∃ s, varcharOk 64 (P.sha256 s) = false) ∨
      ∃ x, J x ∧ (d.devices.find x.nextId ≠ none ∨ d.credentials.find x.nextId ≠ none)) →
      ∀ e, Q (.error e) d (.idle d))
    (hk : ∀ x d', ConfirmEnds P J d id owner code x d' →
      I d' ∧ (fails = true → Q (.error .db) d' (.idle d')) ∧ Q x d' (.idle d')) :
    within P fails J I (confirmPairing P id owner code) Q d (.idle d) := by
  have hends : ∀ {e d'}, ConfirmEnds P J d id owner code (.error e) d' → Q (.error e) d' (.idle d') :=
    fun h => (hk _ _ h).2.2
  refine solo_withSession (solo_selectForUpdate rfl (fun h => hE (.inl h) _) ?_)
  cases hp : d.pairings.find id with
  | none =>
    simp only [Open.idle, hp]
    exact hends (.missing hp)
  | some p =>
    simp only [Open.idle, hp]
    by_cases hpend : p.status = .pending
    · rw [if_neg (by simp [hpend])]
      refine within_now fun x hx => ?_
      by_cases hexp : p.expiresAt < x.clock
      · rw [if_pos hexp]
        have h : ConfirmEnds P J d id owner code _ _ := .expired hp hpend hx hexp
        exact within_refusePairing hp rfl (fun h _ => hE (.inl h) _) (hk _ _ h).1 (hends h)
      rw [if_neg hexp]
      by_cases hmax : P.maxPairingAttempts < p.attemptCount + 1
      · rw [if_pos hmax]
        have h : ConfirmEnds P J d id owner code _ _ := .exceeded hp hpend hx hexp hmax
        exact within_refusePairing hp rfl (fun h _ => hE (.inl h) _) (hk _ _ h).1 (hends h)
      rw [if_neg hmax]
      refine solo_compareDigest ?_
      by_cases hcode : P.sha256 code = p.pairingCodeHash
      · rw [if_pos (by simpa using hcode)]
        refine within_confirmDevice hp (fun hbad e o he => ?_)
          fun deviceId credentialId secret now confirmedAt htakes hdev hcred ws hws => ?_
        · rcases hbad with h | h | h | h
          · exact hE (.inl h) _
          · exact hends (.refused hp hpend hx hexp hmax hcode h he)
          · exact hE (.inr (.inl h)) _
          · exact hE (.inr (.inr h)) _
        · subst hws
          have h : ConfirmEnds P J d id owner code _
              (d.write (confirmRows P p owner deviceId credentialId secret now confirmedAt)) :=
            .paired hp hpend hx hexp hmax hcode htakes hdev hcred
          obtain ⟨hI, herr, hok⟩ := hk _ _ h
          exact ⟨hI, herr, fun hf => herr (hf.resolve_right (by simp [Open.idle])), fun _ => ⟨hI, hok⟩⟩
      · rw [if_neg (by simpa using hcode)]
        have h : ConfirmEnds P J d id owner code _ _ := .wrongCode hp hpend hx hexp hmax hcode
        exact within_refusePairing hp rfl (fun h _ => hE (.inl h) _) (hk _ _ h).1 (hends h)
    · rw [if_pos hpend]
      exact solo_columnValue (fun hP => hends (.plain hp hpend hP)) fun hP => hends (.decided hp hpend hP)

theorem ConfirmEnds.wrote {J : Ext → Prop} {id owner : UUID} {code : String}
    {x : Except Err (UUID × String)} {d' : DB}
    (h : ConfirmEnds P J d id owner code x d') : Wrote P (.confirmPairing id owner code) d d' := by
  cases h with
  | missing | plain | decided | refused => exact .inl rfl
  | expired hp hpend => exact .inr ⟨_, .inr (.pairingExpired hp hpend), rfl⟩
  | exceeded hp hpend _ _ hmax => exact .inr ⟨_, .inr (.tooManyAttempts hp hpend hmax), rfl⟩
  | wrongCode hp hpend _ _ _ hcode => exact .inr ⟨_, .inr (.wrongCode hp hpend hcode), rfl⟩
  | paired hp hpend _ _ hmax hcode _ hdev hcred =>
    exact .inr ⟨_, .inl (.confirmPairing hp hpend (Nat.not_lt.mp hmax) hcode hdev hcred), rfl⟩

theorem solo_confirmPairing {id owner : UUID} {code : String} :
    solo P true (Wrote P (.confirmPairing id owner code) d) (confirmPairing P id owner code)
      (fun _ d' o' => Wrote P (.confirmPairing id owner code) d d' ∧ o'.locks = false) d (.idle d) :=
  within_confirmPairing (fun _ _ => ⟨.inl rfl, rfl⟩) fun _ _ h => ⟨h.wrote, fun _ => ⟨h.wrote, rfl⟩, h.wrote, rfl⟩

/-! ## Revocation -/

theorem write_credentials_outbox {g : DeviceCredential → DeviceCredential} :
    ∀ (rs : List DeviceCredential) (v : DB),
    (v.write (rs.map fun r => .credential (g r))).outbox = v.outbox
  | [], _ => rfl
  | r :: rs, v => write_credentials_outbox rs ((Write.credential (g r)).apply v)

theorem solo_revokeDevice {id owner : UUID} : solo P true (Wrote P (.revoke id owner) d) (revokeDevice id owner)
    (fun _ d' o' => Wrote P (.revoke id owner) d d' ∧ o'.locks = false) d (.idle d) := by
  refine solo_session (solo_select rfl (fun _ => ends_error) ?_)
  split
  · exact ends_idle
  rename_i dev hsome
  obtain ⟨hdev, howner⟩ := Option.filter_eq_some_iff.mp hsome
  have hid : dev.id = id := by simpa using Table.key_of_find hdev
  refine solo_now fun revokedAt => solo_now fun now => ?_
  refine solo_execute rfl (fun _ => ends_error) (fun _ _ => ends_error) fun ws hws => ?_
  simp only [updateDevice, Open.idle] at hws hdev
  simp only [hdev] at hws
  cases hws
  refine alone_bind ?_
  refine ⟨fun _ => ends_error, fun _ => ?_⟩
  refine solo_insertAudit rfl (fun _ _ _ => ends_error) ?_
  refine solo_addEvent rfl (fun _ _ _ => ends_error) fun eid at' hn => ?_
  have hout : ((d.write [.device { dev with trustStatus := .revoked, revokedAt := some revokedAt }]).write
      ((d.credentialsOf id).map fun r => .credential { r with revokedAt := some now })).outbox = d.outbox :=
    write_credentials_outbox ..
  have hrows : Rows P d (.revoke id owner)
      (.device { dev with trustStatus := .revoked, revokedAt := some revokedAt } ::
      (d.credentialsOf id).map (fun r => .credential { r with revokedAt := some now }) ++
      [.audit { action := .deviceRevoked, userId := owner, deviceId := some id },
        .outbox (newEvent .deviceRevoked .device id (.deviceLifecycle id "revoked" (some owner)) eid at')]) :=
    .revoke hdev (by simpa using howner) ((congrArg (·.find eid) hout).symm.trans hn)
  exact solo_commitRows hrows (by rw [DB.write_append]; rfl) (ends_wrote hrows)

end

end Veyaan
