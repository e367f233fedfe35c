import Veyaan.Enrolment

/-!
# Which exceptions reach the caller

A status column reads back as a plain string, which has no `value`. The guards that
ask for it raise `AttributeError` in place of their `ApiError`, and what PostgreSQL
refuses behind the guards escapes as it is.
-/

namespace Veyaan

open Sys

section
variable {α : Type}

def Classified (x : Except Err α) : Prop := ∀ e, x = .error e → e.classified = true

def Raises (x : Except Err α) (code : ErrorCode) : Prop := ∃ text status, x = .error (.api code text status)

theorem classified_ok {a : α} : Classified (.ok a) := fun _ h => by cases h

theorem classified_api {code : ErrorCode} {text : String} {status : Nat} :
    Classified (.error (.api code text status) : Except Err α) := fun _ h => by
  cases h
  rfl

theorem not_raises_ok {a : α} {code : ErrorCode} : ¬ Raises (.ok a) code := by
  rintro ⟨_, _, h⟩
  cases h

theorem raises_api {code code' : ErrorCode} {text : String} {status : Nat} :
    Raises (.error (.api code text status) : Except Err α) code' ↔ code = code' := by
  constructor
  · rintro ⟨_, _, h⟩
    cases h
    rfl
  · rintro rfl
    exact ⟨_, _, rfl⟩

theorem not_classified_error {e : Err} (h : e.classified = false) :
    ¬ Classified (.error e : Except Err α) := fun hc => by
  rw [hc e rfl] at h
  cases h

end

/-! ## What the operations are to raise -/

structure CreateDocumented (P : Params) (d : DB) (r : CreateCommandRequest) (owner : UUID)
    (x : Except Err CreateCommandResponse) : Prop where
  classified : Classified x
  revoked : Raises x .deviceRevoked ↔
    ∃ dev, d.devices.find r.deviceId = some dev ∧ dev.ownerId = owner ∧ dev.trustStatus ≠ .trusted
  invalid : ∀ dev df, d.devices.find r.deviceId = some dev → dev.ownerId = owner → dev.trustStatus = .trusted →
    d.byIdempotencyKey r.deviceId r.idempotencyKey = none → commandRegistry r.commandType = some df →
    P.schemaOk r.commandType r.parameters = false →
    -- the stop comes first
    Raises x .emergencyStopActive ∨ ∃ code text, x = .error (.api code text 422)

structure DecideDocumented (d : DB) (id owner : UUID) (x : Except Err (Option Unit)) : Prop where
  classified : Classified x
  decided : Raises x .approvalAlreadyDecided ↔
    ∃ a, d.approvals.find id = some a ∧ a.ownerId = owner ∧ a.status ≠ .pending

structure ConfirmDocumented (d : DB) (id : UUID) (x : Except Err (UUID × String)) : Prop where
  classified : Classified x
  invalid : ∀ p, d.pairings.find id = some p → p.status ≠ .pending → Raises x .pairingInvalid

section
variable {P : Params} {J : Ext → Prop} {d : DB} {id owner : UUID}

/-! ## `create_command` -/

def DB.owns (d : DB) (owner deviceId : UUID) : Bool := (d.devices.find deviceId).any (·.ownerId == owner)

theorem owns_iff {deviceId : UUID} : d.owns owner deviceId = true ↔
    ∃ dev, d.devices.find deviceId = some dev ∧ dev.ownerId = owner := by
  simp only [DB.owns, Option.any_eq_true, beq_iff_eq]

/-- The guard of `create_command` fails on every device of the caller. -/
theorem within_createPlain {r : CreateCommandRequest} (hP : P.plainStr = true) :
    within P false J (fun _ => True) (createCommand P r owner) (fun x _ _ => x = .error
      (if d.owns owner r.deviceId then .attributeError else .api .deviceNotFound "Device not found" 404)) d
      (.idle d) := by
  refine solo_withSession (solo_select rfl (by simp) ?_)
  cases hdev : d.devices.find r.deviceId with
  | none =>
    simp only [Open.idle, hdev]
    show Except.error _ = _
    simp [DB.owns, hdev]
  | some dev =>
    simp only [Open.idle, hdev]
    by_cases howner : dev.ownerId = owner
    · rw [if_neg (by simp [howner])]
      refine solo_columnValue (fun _ => ?_) fun hno => ?_
      · show Except.error _ = _
        simp [DB.owns, hdev, howner]
      · rw [hP] at hno
        cases hno
    · rw [if_pos howner]
      show Except.error _ = _
      simp [DB.owns, hdev, howner]

theorem create_documented_iff {r : CreateCommandRequest} {i : Nat} {w w' : Wd}
    {x : Except Err CreateCommandResponse}
    (hP : P.plainStr = true) (hw : (sys P).Matches i w d (.idle d))
    (hrun : (sys P).Calm J i (createCommand P r owner) w x w') :
    CreateDocumented P d r owner x ↔ d.owns owner r.deviceId = false := by
  obtain ⟨_, _, -, hx⟩ := calm_sound hw (within_createPlain hP) hrun
  subst hx
  cases hown : d.owns owner r.deviceId with
  | true => exact iff_of_false (fun h => not_classified_error rfl h.classified) (by simp)
  | false =>
    have hno : ∀ dev, d.devices.find r.deviceId = some dev → dev.ownerId ≠ owner := fun dev hdev ho => by
      rw [owns_iff.mpr ⟨dev, hdev, ho⟩] at hown
      cases hown
    refine iff_of_true ⟨classified_api, ?_, fun dev _ hdev ho => absurd ho (hno dev hdev)⟩ rfl
    rw [if_neg (by simp), raises_api]
    refine iff_of_false (by simp) ?_
    rintro ⟨dev, hdev, ho, -⟩
    exact hno dev hdev ho

/-! ## `decide_approval` -/

def DB.decisionEscapes (P : Params) (d : DB) (id owner : UUID) (approve : Bool) (nonce : String)
    (note : Option String) (late : Bool) : Prop :=
  ∃ a, d.approvals.find id = some a ∧ a.ownerId = owner ∧ (a.status ≠ .pending ∨
    late = false ∧ P.sha256 nonce = a.decisionNonceHash ∧ (note.all textOk = false ∨
      approve = false ∧ ∃ c, d.commands.find a.commandId = some c ∧ c.state = .validated))

theorem decide_documented_iff {approve : Bool} {nonce : String} {note : Option String} {late : Bool}
    {x : Except Err (Option Unit)} {d' : DB} (hP : P.plainStr = true)
    (hJ : ∀ y, J y → ∀ a, d.approvals.find id = some a → decide (a.expiresAt < y.clock) = late)
    (hends : DecideEnds P J d id owner approve nonce note x d') :
    DecideDocumented d id owner x ↔ ¬ d.decisionEscapes P id owner approve nonce note late := by
  -- the approval is still pending
  have hfree : ∀ {a} {x : Except Err (Option Unit)}, d.approvals.find id = some a →
    a.status = .pending → Classified x →
      ¬ Raises x .approvalAlreadyDecided → ¬ (late = false ∧
        P.sha256 nonce = a.decisionNonceHash ∧ (note.all textOk = false ∨
        approve = false ∧ ∃ c, d.commands.find a.commandId = some c ∧ c.state = .validated)) →
      (DecideDocumented d id owner x ↔ ¬ d.decisionEscapes P id owner approve nonce note late) := by
    intro a x ha hst hc hr hno
    refine iff_of_true ⟨hc, iff_of_false hr ?_⟩ ?_
    · rintro ⟨b, hb, -, hne⟩
      cases ha.symm.trans hb
      exact hne hst
    · rintro ⟨b, hb, -, hor⟩
      cases ha.symm.trans hb
      exact hor.elim (absurd hst) hno
  have hbad : ∀ {e}, e.classified = false → ¬ DecideDocumented d id owner (.error e) := fun he h =>
    not_classified_error he h.classified
  cases hends with
  | missing ha =>
    refine iff_of_true ⟨classified_ok, iff_of_false not_raises_ok ?_⟩ ?_
    · rintro ⟨a, ha', -⟩
      cases ha.symm.trans ha'
    · rintro ⟨a, ha', -⟩
      cases ha.symm.trans ha'
  | foreign ha ho =>
    refine iff_of_true ⟨classified_ok, iff_of_false not_raises_ok ?_⟩ ?_
    · rintro ⟨a, ha', ho', -⟩
      cases ha.symm.trans ha'
      exact ho ho'
    · rintro ⟨a, ha', ho', -⟩
      cases ha.symm.trans ha'
      exact ho ho'
  | plain ha ho hst => exact iff_of_false (hbad rfl) fun h => h ⟨_, ha, ho, .inl hst⟩
  | decided _ _ _ hno =>
    rw [hP] at hno
    cases hno
  | badNote ha ho hst hy hexp hn hnote =>
    have hl := hJ _ hy _ ha
    rw [decide_eq_false hexp] at hl
    exact iff_of_false (hbad rfl) fun h => h ⟨_, ha, ho, .inr ⟨hl.symm, hn, .inl hnote⟩⟩
  | vetoed ha ho hst hy hexp hn _ happ hc hval he =>
    have hl := hJ _ hy _ ha
    rw [decide_eq_false hexp] at hl
    exact iff_of_false (hbad he) fun h => h ⟨_, ha, ho, .inr ⟨hl.symm, hn, .inr ⟨happ, _, hc, hval⟩⟩⟩
  | expired ha ho hst hy hexp =>
    have hl := hJ _ hy _ ha
    rw [decide_eq_true hexp] at hl
    refine hfree ha hst classified_api (by simp [raises_api]) fun h => ?_
    rw [← hl] at h
    cases h.1
  | wrongNonce ha ho hst _ _ hn => exact hfree ha hst classified_api (by simp [raises_api]) fun h => hn h.2.1
  | stopped ha ho hst _ _ _ hnote happ =>
    refine hfree ha hst classified_api (by simp [raises_api]) fun h => ?_
    rcases h.2.2 with h | ⟨h, -⟩
    · rw [hnote] at h; cases h
    · rw [happ] at h; cases h
  | invalidState ha ho hst _ _ _ hnote hc hno =>
    refine hfree ha hst classified_api (by simp [raises_api]) fun h => ?_
    rcases h.2.2 with h | ⟨h, c, hc', hval⟩
    · rw [hnote] at h; cases h
    · cases hc.symm.trans hc'
      rw [h, hval] at hno
      cases hno
  | approved ha ho hst _ hnote happ =>
    refine hfree ha hst classified_ok not_raises_ok fun h => ?_
    rcases h.2.2 with h | ⟨h, -⟩
    · rw [hnote] at h; cases h
    · rw [happ] at h; cases h
  | rejected ha ho hst _ hnote happ hc _ hval =>
    refine hfree ha hst classified_ok not_raises_ok fun h => ?_
    rcases h.2.2 with h | ⟨-, c, hc', hval'⟩
    · rw [hnote] at h; cases h
    · cases hc.symm.trans hc'
      exact hval hval'

/-! ## `confirm_pairing` -/

def DB.confirmEscapes (P : Params) (d : DB) (id owner : UUID) (code : String) (late : Bool) : Prop :=
  ∃ p, d.pairings.find id = some p ∧ (p.status ≠ .pending ∨
    late = false ∧ p.attemptCount < P.maxPairingAttempts ∧ P.sha256 code = p.pairingCodeHash ∧
      (p.info.deviceType ∉ ["macbook", "iphone", "ipad"] ∨ d.isUser owner = false))

theorem confirm_documented_iff {code : String} {late : Bool} {x : Except Err (UUID × String)}
    {d' : DB} (hP : P.plainStr = true) (hinfo : ∀ p, d.pairings.find id = some p → p.info.storable = true)
    (hJ : ∀ y, J y → ∀ p, d.pairings.find id = some p → decide (p.expiresAt < y.clock) = late)
    (hends : ConfirmEnds P J d id owner code x d') :
    ConfirmDocumented d id x ↔ ¬ d.confirmEscapes P id owner code late := by
  have hfree : ∀ {p} {x : Except Err (UUID × String)}, d.pairings.find id = some p →
    p.status = .pending → Classified x →
      ¬ (late = false ∧ p.attemptCount < P.maxPairingAttempts ∧ P.sha256 code = p.pairingCodeHash ∧
        (p.info.deviceType ∉ ["macbook", "iphone", "ipad"] ∨ d.isUser owner = false)) →
      (ConfirmDocumented d id x ↔ ¬ d.confirmEscapes P id owner code late) := by
    intro p x hp hst hc hno
    refine iff_of_true ⟨hc, fun q hq hne => ?_⟩ ?_
    · cases hp.symm.trans hq
      exact absurd hst hne
    · rintro ⟨q, hq, hor⟩
      cases hp.symm.trans hq
      exact hor.elim (absurd hst) hno
  have hbad : ∀ {e}, e.classified = false → ¬ ConfirmDocumented d id (.error e) :=
    fun he h => not_classified_error he h.classified
  have htakes : ∀ {p}, d.pairings.find id = some p → (d.takesDevice p owner = false ↔
      (p.info.deviceType ∉ ["macbook", "iphone", "ipad"] ∨ d.isUser owner = false)) := by
    intro p hp
    rw [DB.takesDevice, hinfo p hp, Bool.and_true, Bool.and_eq_false_iff, decide_eq_false_iff_not, or_comm]
  cases hends with
  | missing hp =>
    refine iff_of_true ⟨classified_api, fun q hq _ => ?_⟩ ?_
    · cases hp.symm.trans hq
    · rintro ⟨q, hq, -⟩
      cases hp.symm.trans hq
  | plain hp hst => exact iff_of_false (hbad rfl) fun h => h ⟨_, hp, .inl hst⟩
  | decided _ _ hno =>
    rw [hP] at hno
    cases hno
  | expired hp hst hy hexp =>
    have hl := hJ _ hy _ hp
    rw [decide_eq_true hexp] at hl
    refine hfree hp hst classified_api fun h => ?_
    rw [← hl] at h
    cases h.1
  | exceeded hp hst _ _ hmax => exact hfree hp hst classified_api fun h => Nat.not_lt.mpr h.2.1 hmax
  | wrongCode hp hst _ _ _ hcode => exact hfree hp hst classified_api fun h => hcode h.2.2.1
  | refused hp hst hy hexp hmax hcode hno he =>
    have hl := hJ _ hy _ hp
    rw [decide_eq_false hexp] at hl
    exact iff_of_false (hbad he) fun h => h ⟨_, hp, .inr ⟨hl.symm, Nat.not_lt.mp hmax, hcode, (htakes hp).mp hno⟩⟩
  | paired hp hst _ _ _ _ hyes =>
    refine hfree hp hst classified_ok fun h => ?_
    rw [(htakes hp).mpr h.2.2.2] at hyes
    cases hyes

/-! ## All three -/

theorem calm_decideApproval {approve : Bool} {nonce : String} {note : Option String} {i : Nat} {w w' : Wd}
    {x : Except Err (Option Unit)} (hw : (sys P).Matches i w d (.idle d)) (htyped : d.Typed)
    (hrefs : ∀ a, d.approvals.find id = some a → ∃ c dev, d.commands.find a.commandId = some c ∧
      d.devices.find c.deviceId = some dev)
    (hids : ∀ n, w.sh.ext.nextId ≤ n → d.outbox.find n = none) (hup : ∀ y, J y → y.valkey = .up)
    (hrun : (sys P).Calm J i (decideApproval P id owner approve nonce note) w x w') :
    DecideEnds P (fun y => J y ∧ w.sh.ext.nextId ≤ y.nextId) d id owner approve nonce note x w'.sh.db := by
  have hbad : ¬ (false = true ∨ ¬ d.Typed ∨ ∃ y : Ext, (J y ∧ w.sh.ext.nextId ≤ y.nextId) ∧
      (d.outbox.find y.nextId ≠ none ∨ y.valkey ≠ .up)) := by
    rintro (h | h | ⟨y, hy, h | h⟩)
    · cases h
    · exact h htyped
    · exact h (hids _ hy.2)
    · exact h (hup y hy.1)
  obtain ⟨d', o', hm, hends⟩ := calm_sound hw (within_decideApproval (I := fun _ => True)
    (Q := fun x d' _ => DecideEnds P _ d id owner approve nonce note x d') hrefs (fun h => (hbad h).elim)
    fun x d' h => ⟨trivial, by simp, h⟩) (calm_nextId hrun)
  rw [hm.db]
  exact hends

/-- **Exceptions.** Whatever the tables hold, while Valkey answers, the three operations raise
what they are to raise, exactly off the paths that come upon a plain string, a value or a row that
PostgreSQL refuses, or a transition that the trigger does not know. -/
theorem errors_documented_iff {i : Nat} {w : Wd} (hP : P.plainStr = true)
    (hsha : ∀ s, varcharOk 64 (P.sha256 s) = true) (hw : (sys P).Matches i w d (.idle d)) (htyped : d.Typed)
    (hrefs : ∀ id a, d.approvals.find id = some a → ∃ c dev, d.commands.find a.commandId = some c ∧
      d.devices.find c.deviceId = some dev)
    (hids : ∀ n, w.sh.ext.nextId ≤ n → d.devices.find n = none ∧
      d.credentials.find n = none ∧ d.outbox.find n = none) :
    (∀ r owner x w', (sys P).Calm (fun _ => True) i (createCommand P r owner) w x w' →
      (CreateDocumented P d r owner x ↔ d.owns owner r.deviceId = false)) ∧
    (∀ id owner approve nonce note late x w',
      (sys P).Calm (fun y => y.valkey = .up ∧ ∀ a, d.approvals.find id = some a →
        decide (a.expiresAt < y.clock) = late) i (decideApproval P id owner approve nonce note) w x w' →
      (DecideDocumented d id owner x ↔ ¬ d.decisionEscapes P id owner approve nonce note late)) ∧
    (∀ id owner code late x w',
      (sys P).Calm (fun y => ∀ p, d.pairings.find id = some p → decide (p.expiresAt < y.clock) = late) i
        (confirmPairing P id owner code) w x w' →
      (ConfirmDocumented d id x ↔ ¬ d.confirmEscapes P id owner code late)) := by
  refine ⟨fun r owner x w' hrun => create_documented_iff hP hw hrun,
    fun id owner approve nonce note late x w' hrun => ?_, fun id owner code late x w' hrun => ?_⟩
  · exact decide_documented_iff hP (fun y hy => hy.1.2)
      (calm_decideApproval hw htyped (hrefs id) (fun n hn => (hids n hn).2.2) (fun y hy => hy.1) hrun)
  · exact confirm_documented_iff hP (htyped.pairing id) (fun y hy => hy.1)
      (calm_confirmPairing hsha hw (fun n hn => ⟨(hids n hn).1, (hids n hn).2.1⟩) hrun)

end

def plain : Params := { demo with plainStr := true }

/-- The owner of a trusted device creates a command for it. -/
theorem create_undocumented : ¬ ∀ r owner x w',
    (sys plain).Alone false 0 (createCommand plain r owner) demoStart.world x w' →
    CreateDocumented plain demoDB r owner x := by
  intro hall
  obtain ⟨⟨x, w'⟩, hx⟩ := Option.isSome_iff_exists.mp
    (show ((sys plain).finish 0 (createCommand plain (ping false) 7) demoStart.world).isSome = true by
      decide +kernel)
  have hrun := finish_alone hx
  have hno := (create_documented_iff rfl (fresh_matches demoDB demoExt 0) hrun.calm).mp (hall _ _ x w' hrun)
  revert hno
  decide

theorem laptop_nodup : ([⟨3, laptop, demo.sha256 demoExt.token, 0, none, .pending, 10, none⟩].map
    fun p : PairingRequest => key p).Nodup := by
  decide

def grantedDB : DB :=
  { demoDB with
    commands :=
      ⟨[⟨5, 1, "system.ping", .obj [], .low, "ping-5", .queued, true, false, some 1000, none,
      none, none, none, none, none, none, none, 0⟩], by decide⟩
    approvals := ⟨[⟨4, 5, 7, .low, "Approve system.ping", "", .approved, "", 1000, some 0, none⟩], by decide⟩
    pairings := ⟨[⟨3, laptop, demo.sha256 demoExt.token, 0, none, .pending, 10, none⟩], laptop_nodup⟩ }

theorem granted_typed : grantedDB.Typed := by
  refine ⟨fun id c hc => ?_, fun id a ha => ?_, fun id p hp => ?_⟩
  · cases List.mem_singleton.mp (Table.mem_of_find hc)
    decide
  · cases List.mem_singleton.mp (Table.mem_of_find ha)
    decide
  · cases List.mem_singleton.mp (Table.mem_of_find hp)
    decide

theorem granted_refs (id : UUID) (a : Approval) (ha : grantedDB.approvals.find id = some a) : ∃ c dev,
    grantedDB.commands.find a.commandId = some c ∧ grantedDB.devices.find c.deviceId = some dev := by
  cases List.mem_singleton.mp (Table.mem_of_find ha)
  exact ⟨_, _, rfl, rfl⟩

theorem granted_ids (n : UUID) (hn : demoExt.nextId ≤ n) : grantedDB.devices.find n = none ∧
    grantedDB.credentials.find n = none ∧ grantedDB.outbox.find n = none := by
  refine ⟨Table.find_none fun r hr => Nat.ne_of_lt (Nat.lt_of_lt_of_le ?_ hn), rfl, rfl⟩
  revert r
  decide

/-- The request is confirmed, and the approval cannot be denied any more. -/
theorem errors_documented_iff_granted : ∃ x w' y v',
    (sys plain).Calm (fun y => ∀ p, grantedDB.pairings.find 3 = some p → decide (p.expiresAt < y.clock) = false) 0
      (confirmPairing plain 3 7 demoExt.token) (fresh grantedDB demoExt).world x w' ∧
      ConfirmDocumented grantedDB 3 x ∧
    (sys plain).Calm (fun y => y.valkey = .up ∧
      ∀ a, grantedDB.approvals.find 4 = some a → decide (a.expiresAt < y.clock) = false) 0
      (decideApproval plain 4 7 false "" none) (fresh grantedDB demoExt).world y v' ∧
      ¬ DecideDocumented grantedDB 4 7 y := by
  obtain ⟨⟨x, w'⟩, hx⟩ := Option.isSome_iff_exists.mp (show ((sys plain).finishIn (fun y => decide (y.clock ≤ 10)) 0
    (confirmPairing plain 3 7 demoExt.token) (fresh grantedDB demoExt).world).isSome = true by decide +kernel)
  obtain ⟨⟨y, v'⟩, hy⟩ := Option.isSome_iff_exists.mp
    (show ((sys plain).finishIn (fun y => y.valkey == .up && decide (y.clock ≤ 10)) 0
    (decideApproval plain 4 7 false "" none) (fresh grantedDB demoExt).world).isSome = true by decide +kernel)
  have hconfirm : (sys plain).Calm (fun y => ∀ p, grantedDB.pairings.find 3 = some p →
    decide (p.expiresAt < y.clock) = false) 0
      (confirmPairing plain 3 7 demoExt.token) (fresh grantedDB demoExt).world x w' :=
    (finishIn_calm hx).imp fun y hy p hp => by
      cases List.mem_singleton.mp (Table.mem_of_find hp)
      simpa using hy
  have hdecide : (sys plain).Calm (fun y => y.valkey = .up ∧
      ∀ a, grantedDB.approvals.find 4 = some a → decide (a.expiresAt < y.clock) = false) 0
      (decideApproval plain 4 7 false "" none) (fresh grantedDB demoExt).world y v' :=
    (finishIn_calm hy).imp fun y hy => by
      simp only [Bool.and_eq_true, beq_iff_eq, decide_eq_true_eq] at hy
      refine ⟨hy.1, fun a ha => ?_⟩
      cases List.mem_singleton.mp (Table.mem_of_find ha)
      exact decide_eq_false (Nat.not_lt.mpr (Nat.le_trans hy.2 (by decide)))
  obtain ⟨-, hd, hc⟩ := errors_documented_iff (P := plain) rfl demo_sha256
    (fresh_matches grantedDB demoExt 0) granted_typed
    granted_refs granted_ids
  refine ⟨x, w', y, v', hconfirm, (hc _ _ _ _ _ _ hconfirm).mpr ?_, hdecide,
    fun h => (hd _ _ _ _ _ _ _ _ hdecide).mp h ?_⟩
  · rintro ⟨p, hp, hor⟩
    cases List.mem_singleton.mp (Table.mem_of_find hp)
    revert hor
    decide
  · exact ⟨_, rfl, rfl, .inl (by decide)⟩

end Veyaan
