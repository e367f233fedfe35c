import Veyaan.Devices
import Veyaan.Refine.Stops

/-!
# `DeviceService` follows the protocol

Nothing here touches a command. What a device keeps for its whole life is its
owner; the credentials and the pairing requests may change freely.
-/

open Relation (ReflTransGen)

namespace Veyaan

open Sys

section
variable {P : Params} {i : Nat} {w w' : Wd} {L : List (Key × Row)} {ws : List Write}

/-! ## Statements -/

theorem insertPairing_cases {p : PairingRequest} {d : DB} {us : List Write} (h : insertPairing p d = .ok us) :
    us = [.pairing p] ∧ d.pairings.find p.id = none := by
  unfold insertPairing at h
  split at h
  · cases h
  · rename_i hn
    split at h <;> cases h
    exact ⟨rfl, Option.not_isSome_iff_eq_none.mp hn⟩

theorem insertPairing_error {p : PairingRequest} {d : DB} {x : Err} (h : insertPairing p d = .error x) :
    ∀ v, x ≠ .trigger v := by
  unfold insertPairing at h
  intro v hv
  subst hv
  split at h
  · cases h
  · split at h <;> cases h

theorem updatePairing_error {id : UUID} {f : PairingRequest → PairingRequest} {d : DB} {x : Err}
    (h : updatePairing id f d = .error x) : ∀ v, x ≠ .trigger v := by
  unfold updatePairing at h
  intro v hv
  subst hv
  split at h <;> cases h

theorem insertDevice_cases {r : Device} {d : DB} {us : List Write} (h : insertDevice r d = .ok us) :
    us = [.device r] ∧ d.devices.find r.id = none :=
  have ⟨hn, _, _, _, hus⟩ := insertDevice_ok.mp h
  ⟨hus, hn⟩

theorem not_trigger {x : Err} (h : x = .integrity ∨ x = .data) (v : Veto) : x ≠ .trigger v := by
  rcases h with rfl | rfl <;> simp

theorem insertCredential_cases {r : DeviceCredential} {d : DB} {us : List Write}
    (h : insertCredential r d = .ok us) :
    us = [.credential r] ∧ d.credentials.find r.id = none := by
  unfold insertCredential at h
  split at h
  · cases h
  · rename_i hn
    split at h <;> cases h
    simp only [Bool.or_eq_true, not_or, Bool.not_eq_true, Option.isSome_eq_false_iff,
      Option.isNone_iff_eq_none] at hn
    exact ⟨rfl, hn.1⟩

theorem updateDevice_cases {id : UUID} {f : Device → Device} {d : DB} {us : List Write}
    (h : updateDevice id f d = .ok us) : ∃ r, d.devices.find id = some r ∧ us = [.device { f r with id }] := by
  unfold updateDevice at h
  split at h <;> cases h
  rename_i r hr
  have hid : r.id = id := by simpa using Table.key_of_find hr
  exact ⟨r, hr, by rw [hid]⟩

theorem updateDevice_error {id : UUID} {f : Device → Device} {d : DB} {x : Err}
    (h : updateDevice id f d = .error x) : ∀ v, x ≠ .trigger v := by
  unfold updateDevice at h
  intro v hv
  subst hv
  split at h <;> cases h

theorem view_device {s s' : St} {id : UUID} (he : s.db.row (.device id) = s'.db.row (.device id)) :
    ((sys P).applyAll ws s.db).devices.find id = ((sys P).applyAll ws s'.db).devices.find id := by
  have := row_congr (S := sys P) (k := .device id) ws he
  simpa only [sys, DB.row, Row.device.injEq] using this

theorem view_credential {s s' : St} {id : UUID} (he : s.db.row (.credential id) = s'.db.row (.credential id)) :
    ((sys P).applyAll ws s.db).credentials.find id = ((sys P).applyAll ws s'.db).credentials.find id := by
  have := row_congr (S := sys P) (k := .credential id) ws he
  simpa only [sys, DB.row, Row.credential.injEq] using this

theorem view_pairing {s s' : St} {id : UUID} (he : s.db.row (.pairing id) = s'.db.row (.pairing id)) :
    ((sys P).applyAll ws s.db).pairings.find id = ((sys P).applyAll ws s'.db).pairings.find id := by
  have := row_congr (S := sys P) (k := .pairing id) ws he
  simpa only [sys, DB.row, Row.pairing.injEq] using this

/-- A statement whose writes are allowed in every store that agrees on the rows
that it locks. -/
theorem wps_executeReady {α : Type} {Q : Except Err α → Wd → Prop} {t : Tag} {ks : List Key}
    {fn : DB → Except Err (List Write)} {f : Nat → Op α} (h : Rdy P t i w L ws) (hE : ∀ w' e, Q (.error e) w')
    (herr : ∀ d x, fn d = .error x → ∀ v, x ≠ .trigger v)
    (hok : ∀ us (s s' : St), fn ((sys P).applyAll ws s.db) = .ok us → (∀ k ∈ ks, s'.db.row k = s.db.row k) →
      (sys P).Chain (Write.Allowed i t s') ((sys P).applyAll ws s'.db) us)
    (hk : ∀ w' us n, After P i [] w w' → fn ((sys P).applyAll ws w'.sh.db) = .ok us →
      Rdy P t i w' (ks.map (fun k => (k, w'.sh.db.row k)) ++ L) (ws ++ us) → wps P i (f n) Q w') :
    wps P i ((execute ks fn).bind f) Q w := by
  refine wps_execute h.toHeld (fun w' _ e _ _ => hE w' e) (fun _ _ _ _ hfn => sayOk_rejected (herr _ _ hfn))
    fun w₁ us s₁ hfn h₁ => hk w₁ us _ s₁ hfn ⟨h₁, fun s hg hL => chain_append.mpr ⟨?_, hok us w₁.sh s hfn ?_⟩⟩
  · exact h.chain s (s₁.shared.trans hg) fun p hp => hL p (List.mem_append_right _ hp)
  · intro k hk
    exact hL (k, w₁.sh.db.row k) (List.mem_append_left _ (List.mem_map_of_mem hk))

/-! ## Pairing -/

theorem wps_updatePairing {α : Type} {Q : Except Err α → Wd → Prop} {t : Tag} {id : UUID} {p : PairingRequest}
    {g : PairingRequest → PairingRequest} {f : Nat → Op α} (h : Rdy P t i w L ws)
    (hv : ∀ d, (sys P).Agrees L d → ((sys P).applyAll ws d).pairings.find id = some p) (hp : p.status = .pending)
    (hs : p.Same (g p)) (hE : ∀ w' e, Q (.error e) w')
    (hk : ∀ w' n, After P i [] w w' → Rdy P t i w' L (ws ++ [.pairing (g p)]) → wps P i (f n) Q w') :
    wps P i ((execute [.pairing id] (updatePairing id g)).bind f) Q w := by
  have hg : ({ g p with id := p.id } : PairingRequest) = g p := by rw [← hs.id]
  refine wps_execute h.toHeld (fun w' _ e _ _ => hE w' e)
    (fun _ _ _ _ hfn => sayOk_rejected (updatePairing_error hfn))
    fun w₁ us s₁ hfn h₁ => ?_
  have h₁ : Holds P i w₁ L (ws ++ us) := h₁.mono fun q hq => List.mem_append_right _ hq
  simp only [updatePairing, hv _ h₁.agrees, hg] at hfn
  cases hfn
  refine hk w₁ _ s₁ (h.append s₁.shared h₁ fun s _ hL => ⟨.pairing (p := p) ?_ hp hs, trivial⟩)
  have hid : p.id = id := by simpa using Table.key_of_find (hv _ hL)
  rw [hs.id, hid]
  exact hv _ hL

def Pending (P : Params) (L : List (Key × Row)) (p : PairingRequest) : Prop :=
  (∀ d, (sys P).Agrees L d → d.pairings.find p.id = some p) ∧ p.status = .pending

theorem wps_refusePairing {α : Type} {t : Tag} {p : PairingRequest} {g : PairingRequest → PairingRequest} {e : Err}
    (h : Holds P i w L []) (hp : Pending P L p) (hs : p.Same (g p))
    (hc : ∀ s : St, (sys P).Agrees L s.db → t.Closes P s i ((sys P).applyAll [.pairing (g p)] s.db)) :
    wps P i (refusePairing (α := α) t p.id g e) (Done P i) w := by
  have h : Rdy P t i w L [] := Held.ready h
  unfold refusePairing
  refine wps_updatePairing h hp.1 hp.2 hs (fun _ _ => done_error) fun w₁ n s₁ h₁ => ?_
  exact wps_commitChain h₁ (fun _ _ _ _ _ => done_error) (fun w' _ h' => hc _ h'.agrees) fun w₂ s₂ h₂ => done_error

theorem refines_startPairing {info : DeviceInfo} (h : Holds P i w [] []) :
    wps P i (startPairing P info) (fun _ w' => Holds P i w' [] []) w := by
  unfold startPairing
  refine wps_withSession (wps_token h fun w₁ code s₁ h₁ => wps_now h₁
    fun w₂ s₂ h₂ => wps_uuid4 h₂ fun w₃ id s₃ h₃ => ?_)
  have h₃ : Rdy P (.startPairing id) i w₃ [] [] := Held.ready h₃
  refine wps_executeReady h₃ (fun _ _ => done_error) (fun _ _ => insertPairing_error) (fun us s s' hfn hL => ?_)
    fun w₄ us n s₄ _ h₄ => ?_
  · obtain ⟨rfl, hn⟩ := insertPairing_cases hfn
    exact ⟨.newPairing ((view_pairing (hL _ (List.mem_cons_self ..))).trans hn), trivial⟩
  refine wps_select h₄.toHeld (fun _ _ _ => done_error) fun w₅ s₅ h₅ => ?_
  exact wps_commitChain (h₄.since s₅.shared h₅) (fun _ _ _ _ _ => done_error) (fun _ _ _ => trivial)
    fun w₆ s₆ h₆ => done_ok h₆

theorem wps_confirmDevice {a : Attempt} {o : UUID} (h : Holds P i w L []) (hp : Pending P L a.read) (ha : a.Valid P)
    (hr : a.Right P) : wps P i (confirmDevice P a o) (Done P i) w := by
  unfold confirmDevice
  refine wps_uuid4 h fun w₁ deviceId s₁ h₁ => ?_
  have h₁ : Rdy P (.confirmPairing a deviceId) i w₁ L [] := Held.ready h₁
  refine wps_updatePairing h₁ hp.1 hp.2 ⟨rfl, rfl, rfl, Nat.le_succ _⟩ (fun _ _ => done_error) fun w₂ n s₂ h₂ => ?_
  refine wps_executeReady h₂ (fun _ _ => done_error) (fun _ _ h => not_trigger (insertDevice_error h))
    (fun us s s' hfn hL => ?_)
    fun w₃ us₃ n s₃ hfn h₃ => ?_
  · obtain ⟨rfl, hn⟩ := insertDevice_cases hfn
    exact ⟨.newDevice ((view_device (hL _ (List.mem_cons_self ..))).trans hn) rfl, trivial⟩
  obtain ⟨rfl, hdev⟩ := insertDevice_cases hfn
  refine wps_token h₃.toHeld fun w₄ secret s₄ h₄ => wps_now h₄ fun w₅ s₅ h₅ => wps_now h₅ fun w₆ s₆ h₆ =>
    wps_uuid4 h₆ fun w₇ credentialId s₇ h₇ => ?_
  have h₇ := h₃.since (s₄.then (s₅.then (s₆.then s₇))).shared h₇
  refine wps_executeReady h₇ (fun _ _ => done_error) (fun _ _ h => not_trigger (insertCredential_error h))
    (fun us s s' hfn hL => ?_)
    fun w₈ us₈ n s₈ hfn h₈ => ?_
  · obtain ⟨rfl, hn⟩ := insertCredential_cases hfn
    exact ⟨.newCredential ((view_credential (hL _ (List.mem_cons_self ..))).trans hn) rfl, trivial⟩
  obtain ⟨rfl, hcred⟩ := insertCredential_cases hfn
  refine wps_updatePairing h₈ (p := { a.read with attemptCount := a.read.attemptCount + 1 })
    (fun d _ => Table.find_put_self ..) hp.2 ⟨rfl, rfl, rfl, Nat.le_refl _⟩ (fun _ _ => done_error)
    fun w₉ n s₉ h₉ => ?_
  refine wps_put (insertAudit_cases _) h₉.toHeld (fun _ _ _ _ _ => done_error) fun w₁₀ s₁₀ h₁₀ => ?_
  have h₁₀ := h₉.append s₁₀.shared h₁₀ fun _ _ _ => ⟨.audit rfl rfl, trivial⟩
  refine wps_commitChain h₁₀ (fun _ _ _ _ _ => done_error) (fun w' _ h' => ?_) fun w₁₁ s₁₁ h₁₁ => ?_
  · have hL := h'.agrees
    -- the rows that the inserts have locked are still missing
    have hdev : w'.sh.db.devices.find deviceId = none := by
      have := hL (.device deviceId, w₃.sh.db.row (.device deviceId)) (by simp)
      exact (Row.device.inj this).trans hdev
    have hcred : w'.sh.db.credentials.find credentialId = none := by
      have := hL (.credential credentialId, w₈.sh.db.row (.credential credentialId)) (by simp)
      exact (Row.credential.inj this).trans hcred
    exact ⟨ha, hr, hp.1 _ fun q hq => hL q (by simp [hq]), ⟨_, Table.find_put_self .., rfl⟩, ⟨_, rfl, hdev, rfl⟩,
      ⟨_, rfl, hcred, rfl⟩⟩
  · exact wps_select h₁₁ (fun _ _ _ => done_error) fun w₁₂ s₁₂ h₁₂ => done_ok h₁₂

theorem refines_confirmPairing {pairingId o : UUID} {code : String} (h : Holds P i w [] []) :
    wps P i (confirmPairing P pairingId o code) (fun _ w' => Holds P i w' [] []) w := by
  unfold confirmPairing
  refine wps_withSession (wps_selectForUpdate h (fun _ _ _ => done_error) (fun _ _ _ _ => done_error)
    fun w₁ pairing s₁ hf h₁ => ?_)
  have hid : pairing.id = pairingId := by simpa using Table.key_of_find hf
  subst hid
  dsimp only
  split
  · exact wps_columnValue done_error done_error
  rename_i hst
  have hp : Pending P [(Key.pairing pairing.id, w₁.sh.db.row (.pairing pairing.id))] pairing := by
    refine ⟨fun d hd => ?_, by simpa using hst⟩
    exact (Row.pairing.inj (hd _ (List.mem_singleton.mpr rfl))).trans hf
  refine wps_now h₁ fun w₂ s₂ h₂ => ?_
  split
  · exact wps_refusePairing h₂ hp ⟨rfl, rfl, rfl, Nat.le_refl _⟩ fun _ _ => trivial
  rename_i htime
  split
  · exact wps_refusePairing h₂ hp ⟨rfl, rfl, rfl, Nat.le_succ _⟩ fun _ _ => trivial
  rename_i hmax
  have ha : Attempt.Valid P ⟨pairing, w₂.sh.ext.clock, code⟩ := ⟨hp.2, htime, Nat.not_lt.mp hmax⟩
  refine wps_say (b := P.sha256 code == pairing.pairingCodeHash) (fun _ _ => rfl) h₂
    (fun w' _ h' => ⟨ha, by simp [Attempt.Right], hp.1 _ h'.agrees⟩) fun w₃ s₃ h₃ => ?_
  split
  · rename_i hcode
    exact wps_confirmDevice h₃ hp ha (by simpa [Attempt.Right] using hcode)
  · rename_i hcode
    refine wps_refusePairing h₃ hp ⟨rfl, rfl, rfl, Nat.le_succ _⟩ fun s hL => ?_
    exact ⟨ha, by simpa [Attempt.Right] using hcode, hp.1 _ hL, Table.find_put_self ..⟩

/-! ## Revocation -/

theorem credentials_devices {now : Time} : ∀ (rs : List DeviceCredential) (d : DB),
    ((sys P).applyAll (rs.map fun r => Write.credential { r with revokedAt := some now }) d).devices = d.devices
  | [], _ => rfl
  | r :: rs, d => credentials_devices rs ((Write.credential { r with revokedAt := some now }).apply d)

theorem wps_revokeCredentials {α : Type} {t : Tag} {deviceId : UUID} {now : Time} {f : Nat → Op α}
    (h : Rdy P t i w L ws)
    (hk : ∀ w' L' us n, After P i [] w w' → (∀ d, ((sys P).applyAll us d).devices = d.devices) →
      Rdy P t i w' L' (ws ++ us) → wps P i (f n) (Done P i) w') :
    wps P i ((revokeCredentials deviceId now).bind f) (Done P i) w := by
  unfold revokeCredentials
  refine wps_updateAll h (fun _ => rfl) (fun d => ?_) (fun s d d' r hr hrow => ?_) (fun _ _ _ => done_error)
    fun w₁ L₁ rs n s₁ h₁ => hk w₁ L₁ _ n s₁ (credentials_devices rs) h₁
  · exact d.credentials.nodup_filter _ fun _ _ he => Key.credential.inj he
  · exact .credential (r := r) ((Row.credential.inj hrow).trans (Table.find_of_mem (List.mem_filter.mp hr).1))

theorem revoked_applyAll {r : Device} {us : List Write} {a : AuditLog} {deviceId : UUID}
    {d : DB} (hid : r.id = deviceId)
    (hr : r.trustStatus = .revoked) (hus : ∀ d, ((sys P).applyAll us d).devices = d.devices) :
    ((sys P).applyAll ([] ++ [.device r] ++ us ++ [.audit a]) d).Revoked deviceId := by
  refine ⟨r, ?_, hr⟩
  have hdev := hus ((Write.device r).apply d)
  rw [applyAll_append, applyAll_append, ← hid]
  exact (congrArg (·.find r.id) hdev).trans (Table.find_put_self ..)

theorem refines_revokeDevice {deviceId o : UUID} (h : Holds P i w [] []) :
    wps P i (revokeDevice deviceId o) (fun _ w' => Holds P i w' [] []) w := by
  unfold revokeDevice
  refine wps_withSession (wps_select h (fun _ _ _ => done_error) fun w₁ s₁ h₁ => ?_)
  split
  · exact done_ok h₁
  refine wps_now h₁ fun w₂ s₂ h₂ => wps_now h₂ fun w₃ s₃ h₃ => ?_
  have h₃ : Rdy P (.revoke deviceId) i w₃ [] [] := Held.ready h₃
  refine wps_executeReady h₃ (fun _ _ => done_error) (fun _ _ => updateDevice_error) (fun us s s' hfn hL => ?_)
    fun w₄ us n s₄ hus h₄ => ?_
  · obtain ⟨r, hr, rfl⟩ := updateDevice_cases hfn
    exact ⟨.device ((view_device (hL _ (List.mem_cons_self ..))).trans hr) ⟨rfl, rfl, fun _ => rfl⟩, trivial⟩
  obtain ⟨r, -, rfl⟩ := updateDevice_cases hus
  refine wps_revokeCredentials h₄ fun w₅ L₅ us₅ n s₅ hcreds h₅ => ?_
  refine wps_put (insertAudit_cases _) h₅.toHeld (fun _ _ _ _ _ => done_error) fun w₆ s₆ h₆ => ?_
  have h₆ := h₅.append s₆.shared h₆ fun _ _ _ => ⟨.audit rfl rfl, trivial⟩
  refine wps_addEvent h₆.toHeld (fun _ _ _ _ _ => done_error) fun w₇ e s₇ he hn h₇ => ?_
  exact wps_commitChain (Rdy.notice h₆ s₇ he (by decide) (by intro k c p hm; cases hm)
    (by intro dev st o' hm d; cases hm; exact revoked_applyAll rfl rfl hcreds)
    (by simp [OutboxEvent.stop, he.eventType, Tag.notice]) hn h₇) (fun _ _ _ _ _ => done_error) (fun _ _ _ =>
    trivial) fun w₈ s₈ h₈ => done_ok h₈

end

end Veyaan
