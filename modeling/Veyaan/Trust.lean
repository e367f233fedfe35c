import Veyaan.Schedule
import Veyaan.Serial.Workers

/-!
# Work for trusted devices

`create_command` refuses a device that is not trusted. `decide_approval` queues
the command of its approval without another look at the device, which may have
been revoked since. One call after the other, a command is queued for a trusted
device alone if every approval is granted while the device is trusted.
-/

open Relation (ReflTransGen)

namespace Veyaan

open Sys

section
variable {P : Params} {d v : DB} {ws : List Write} {call : Call}

/-! ## Rows that queue nothing -/

def Write.mild : Write → Bool
  | .command c => c.state != .queued
  | .device _ => false
  | _ => true

theorem find_write_command {id : UUID} {c : Command} : ∀ {ws : List Write} {d : DB},
    (d.write ws).commands.find id = some c → .command c ∈ ws ∨ d.commands.find id = some c
  | [], _, h => .inr h
  | w :: ws, d, h => by
    rcases @find_write_command id c ws _ h with h | h
    · exact .inl (List.mem_cons_of_mem _ h)
    · cases w with
      | command x =>
        simp only [Write.apply, Table.find_put] at h
        split at h
        · cases h; exact .inl (List.mem_cons_self ..)
        · exact .inr h
      | _ => exact .inr h

theorem write_devices : ∀ {ws : List Write} (d : DB), (∀ r, .device r ∉ ws) → (d.write ws).devices = d.devices
  | [], _, _ => rfl
  | w :: ws, d, h => by
    rw [DB.write_cons, write_devices _ fun r hr => h r (List.mem_cons_of_mem _ hr)]
    cases w with
    | device r => exact absurd (List.mem_cons_self ..) (h r)
    | _ => rfl

theorem moveRows_mild {c : Command} {new : CommandState} {source : Source} {m : Option Metadata} {u n : Time}
    (hn : new ≠ .queued) : ∀ w ∈ moveRows c new source m u n, w.mild = true := by
  simp [moveRows, Write.mild, hn]

theorem BlockRows.mild {ids : List UUID} (h : BlockRows v ids ws) : ∀ w ∈ ws, w.mild = true := by
  induction h with
  | nil => simp
  | skip _ _ ih => exact ih
  | block _ _ _ ih =>
    intro w hw
    rcases List.mem_append.mp hw with hw | hw
    · exact moveRows_mild (by decide) w hw
    · exact ih w hw

theorem Rounds.mild {M : DB → List Write → Prop} (hM : ∀ v ws, M v ws → ∀ w ∈ ws, w.mild = true)
    (h : Rounds M v ws) :
    ∀ w ∈ ws, w.mild = true := by
  induction h with
  | nil => simp
  | cons hm _ ih =>
    intro w hw
    rcases List.mem_append.mp hw with hw | hw
    · exact hM _ _ hm w hw
    · exact ih w hw

theorem PublishRows.mild (h : PublishRows v ws) : ∀ w ∈ ws, w.mild = true := by
  intro w hw
  cases h with
  | mark => obtain ⟨e, -, rfl⟩ := List.mem_map.mp hw; rfl
  | block =>
    rcases List.mem_append.mp hw with hw | hw
    · exact moveRows_mild (by decide) w hw
    · obtain ⟨e, -, rfl⟩ := List.mem_map.mp hw; rfl

theorem ExpireRows.mild (h : ExpireRows v ws) : ∀ w ∈ ws, w.mild = true := by
  intro w hw
  cases h with
  | skip => cases hw
  | expire =>
    rcases List.mem_append.mp hw with hw | hw
    · exact moveRows_mild (by decide) w hw
    · obtain ⟨t, -, rfl⟩ := List.mem_map.mp hw; rfl

theorem handleRows_mild {k : Lifecycle} {p : LifecyclePayload} {u n : Time} :
    ∀ w ∈ handleRows d k p u n, w.mild = true := by
  intro w hw
  have hk : k.target p ≠ .queued := fun h => by
    have := k.target_mem p
    rw [h] at this
    simp at this
  unfold handleRows at hw
  split at hw
  · cases hw
  · split at hw
    · rcases List.mem_append.mp hw with hw | hw
      · exact moveRows_mild hk w hw
      · cases ht : k.task p with
        | none => rw [ht] at hw; cases hw
        | some f =>
          rw [ht] at hw
          obtain ⟨t, -, rfl⟩ := List.mem_map.mp hw
          rfl
    · cases hw

/-! ## What a call may do -/

def DB.Unrevoked (d : DB) : Prop :=
  ∀ id r, d.devices.find id = some r → r.trustStatus = .trusted → r.revokedAt = none

structure Trusting (d d' : DB) : Prop where
  unrevoked : d.Unrevoked → d'.Unrevoked
  revoked : ∀ id r, d.devices.find id = some r → r.trustStatus = .revoked →
    ∃ r', d'.devices.find id = some r' ∧ r'.trustStatus = .revoked
  queued : ∀ id c, d'.commands.find id = some c → c.state = .queued →
    (∃ c₀, d.commands.find id = some c₀ ∧ c₀.state = .queued) ∨
    ∃ r, d.devices.find c.deviceId = some r ∧ d'.devices.find c.deviceId = some r ∧ r.trustStatus = .trusted

theorem Trusting.refl (d : DB) : Trusting d d :=
  ⟨fun h => h, fun _ r h hr => ⟨r, h, hr⟩, fun _ c h hc => .inl ⟨c, h, hc⟩⟩

theorem Trusting.of_devices (hd : (d.write ws).devices = d.devices)
    (hq : ∀ c, .command c ∈ ws → c.state = .queued → ∃ r, d.devices.find c.deviceId = some r ∧
      r.trustStatus = .trusted) :
    Trusting d (d.write ws) := by
  refine ⟨fun h => ?_, fun id r hr hst => ⟨r, by rw [hd]; exact hr, hst⟩, fun id c hc hst => ?_⟩
  · unfold DB.Unrevoked
    rw [hd]
    exact h
  · rcases find_write_command hc with hm | hold
    · obtain ⟨r, hr, ht⟩ := hq c hm hst
      exact .inr ⟨r, hr, by rw [hd]; exact hr, ht⟩
    · exact .inl ⟨c, hold, hst⟩

theorem Trusting.of_mild (h : ∀ w ∈ ws, w.mild = true) : Trusting d (d.write ws) := by
  refine .of_devices (write_devices d fun r hr => ?_) fun c hc hst => ?_
  · cases h _ hr
  · have := h _ hc
    simp [Write.mild, hst] at this

theorem revoke_trusting {dev : Device} {t : Time} (hdev : ∀ r, .device r ∉ ws) (hcmd : ∀ c, .command c ∉ ws) :
    Trusting d (d.write (.device { dev with trustStatus := .revoked, revokedAt := some t } :: ws)) := by
  rw [DB.write_cons]
  have hdevs :=
    write_devices ((Write.device { dev with trustStatus := .revoked, revokedAt := some t }).apply d) hdev
  have hcmds := DB.write_commands ((Write.device { dev with trustStatus := .revoked, revokedAt := some t }).apply d)
    fun w hw c he => hcmd c (he ▸ hw)
  refine ⟨fun h k r hr ht => ?_, fun k r hr hst => ?_, fun k c hc hst => .inl ⟨c, hcmds ▸ hc, hst⟩⟩
  · rw [hdevs, Write.apply, Table.find_put] at hr
    split at hr
    · cases hr; cases ht
    · exact h k r hr ht
  · rw [hdevs, Write.apply, Table.find_put]
    split
    · exact ⟨_, rfl, rfl⟩
    · exact ⟨r, hr, hst⟩

theorem Rows.trusting (h : Rows P d call ws)
    (hcreate : ∀ r o, call = .create r o → ∃ dev, d.devices.find r.deviceId = some dev ∧ dev.trustStatus = .trusted)
    (happrove : ∀ id o nonce note, call = .decide id o true nonce note → ∀ a c dev, d.approvals.find id = some a →
      d.commands.find a.commandId = some c → d.devices.find c.deviceId = some dev → dev.trustStatus = .trusted) :
    Trusting d (d.write ws) := by
  cases h with
  | @createAwaiting r o df c tid aid now nonce u₁ n₁ u₂ n₂ _ hc =>
    refine .of_mild fun w hw => ?_
    have hst : c.state = .received := by rw [hc]; rfl
    simp only [createRows, insertRows, List.mem_append, List.mem_cons, List.not_mem_nil, or_false] at hw
    rcases hw with ((((rfl | rfl | rfl) | hw) | hw) | rfl)
    · simp [Write.mild, hst]
    · rfl
    · rfl
    · exact moveRows_mild (by decide) w hw
    · exact moveRows_mild (by decide) w hw
    · rfl
  | @createQueued r o df c tid eid now u₁ n₁ u₂ n₂ dev hdf hc hreq hn hdev =>
    have hid : c.deviceId = r.deviceId := by rw [hc]; rfl
    refine .of_devices (write_devices d fun x hx => ?_) fun x hx hst => ?_
    · simp [createRows, insertRows, moveRows] at hx
    · obtain ⟨dev', hdev', ht⟩ := hcreate r o rfl
      refine ⟨dev', ?_, ht⟩
      have : x.deviceId = c.deviceId := by
        simp only [createRows, insertRows, moveRows, List.mem_append, List.mem_cons, List.not_mem_nil, or_false,
          Write.command.injEq, reduceCtorEq] at hx
        rcases hx with (rfl | rfl) | rfl
        · rfl
        · exact (Command.transition_same ..).deviceId
        · exact (Command.transition_same ..).deviceId.trans (Command.transition_same ..).deviceId
      rw [this, hid]
      exact hdev'
  | cancel => exact .of_mild (moveRows_mild (by decide))
  | @approve id o nonce note a c eid now at' u₁ n₁ u₂ n₂ dev ha _ _ _ hc _ hdev _ =>
    refine .of_devices (write_devices d fun x hx => ?_) fun x hx hst => ?_
    · simp [approveRows, moveRows] at hx
    · refine ⟨dev, ?_, happrove id o nonce note rfl a c dev ha hc hdev⟩
      have : x.deviceId = c.deviceId := by
        simp only [approveRows, moveRows, List.cons_append, List.nil_append, List.mem_cons,
          List.not_mem_nil, or_false, Write.command.injEq, reduceCtorEq, false_or] at hx
        rcases hx with rfl | rfl
        · exact (Command.transition_same ..).deviceId
        · exact (Command.transition_same ..).deviceId.trans (Command.transition_same ..).deviceId
      rw [this]
      exact hdev
  | reject =>
    refine .of_mild fun w hw => ?_
    simp only [List.cons_append, List.mem_cons, List.mem_append, List.not_mem_nil, or_false] at hw
    rcases hw with rfl | hw | rfl
    · rfl
    · exact moveRows_mild (by decide) w hw
    · rfl
  | activate _ _ hb _ =>
    refine .of_mild fun w hw => ?_
    simp only [List.cons_append, List.mem_cons, List.mem_append, List.not_mem_nil, or_false] at hw
    rcases hw with rfl | hw | rfl | rfl
    · rfl
    · exact hb.mild w hw
    · rfl
    · rfl
  | reactivate => exact .of_mild (by simp [Write.mild])
  | release => exact .of_mild (by simp [Write.mild])
  | startPairing => exact .of_mild (by simp [Write.mild])
  | @confirmPairing id o code p deviceId credentialId secret now at' _ _ _ _ hnew =>
    have hfind : ∀ k, (d.devices.put (p.device deviceId o)).find k =
        if deviceId = k then some (p.device deviceId o) else d.devices.find k := fun k => Table.find_put ..
    refine ⟨fun h k r hr ht => ?_, fun k r hr hst => ⟨r, ?_, hst⟩, fun k c hc hst => .inl ⟨c, hc, hst⟩⟩
    · have hr : (d.devices.put (p.device deviceId o)).find k = some r := hr
      rw [hfind] at hr
      split at hr
      · cases hr; rfl
      · exact h k r hr ht
    · show (d.devices.put (p.device deviceId o)).find k = some r
      rw [hfind, if_neg (by rintro rfl; rw [hnew] at hr; cases hr)]
      exact hr
  | revoke => exact revoke_trusting (by simp) (by simp)
  | batch h => exact .of_mild (h.mild fun _ _ => PublishRows.mild)
  | tasks h =>
    refine .of_mild fun w hw => ?_
    simp only [List.mem_append, List.mem_map] at hw
    rcases hw with ((⟨_, -, rfl⟩ | ⟨_, -, rfl⟩) | hw)
    · rfl
    · rfl
    · exact h.mild (fun _ _ => ExpireRows.mild) w hw
  | consume => exact .of_mild handleRows_mild

theorem Refusal.trusting (h : Refusal P d call ws) : Trusting d (d.write ws) := by
  cases h <;> exact .of_mild (by simp [Write.mild])

theorem solo_createUntrusted {r : CreateCommandRequest} {o : UUID} {I : DB → Prop}
    (h : ∀ dev, d.devices.find r.deviceId = some dev → dev.trustStatus ≠ .trusted) :
    solo P true I (createCommand P r o) (fun _ d' o' => d' = d ∧ o'.locks = false) d (.idle d) := by
  refine solo_withSession (solo_select rfl (fun _ => ⟨rfl, rfl⟩) ?_)
  split
  · exact ⟨rfl, rfl⟩
  · rename_i dev hdev
    split
    · exact ⟨rfl, rfl⟩
    · refine solo_columnValue (fun _ => ⟨rfl, rfl⟩) fun _ => ?_
      split
      · exact ⟨rfl, rfl⟩
      · rename_i ht
        exact absurd (Classical.not_not.mp ht) (h dev hdev)

def GrantsTrusted (c : Conf) (call : Call) : Prop :=
  ∀ id o nonce note, call = .decide id o true nonce note → ∀ a cmd dev, c.world.sh.db.approvals.find id = some a →
    c.world.sh.db.commands.find a.commandId = some cmd → c.world.sh.db.devices.find cmd.deviceId = some dev →
    dev.trustStatus = .trusted

theorem solo_trusting {c : Conf} (h : Reachable P c) (hg : GrantsTrusted c call) :
    solo P true (Trusting c.world.sh.db) (call.code P) (fun _ d' o' => Trusting c.world.sh.db d' ∧ o'.locks = false)
      c.world.sh.db (.idle c.world.sh.db) := by
  have hwrote : (∀ r o, call = .create r o → ∃ dev, c.world.sh.db.devices.find r.deviceId = some dev ∧
      dev.trustStatus = .trusted) → ∀ d', Wrote P call c.world.sh.db d' → Trusting c.world.sh.db d' := by
    rintro hcreate d' (rfl | ⟨ws, hrows | hrows, rfl⟩)
    · exact .refl _
    · exact hrows.trusting hcreate hg
    · exact hrows.trusting
  have hcode := solo_code (P := P) (reachable_inv h).db call
  by_cases hcreate : ∀ r o, call = .create r o → ∃ dev, c.world.sh.db.devices.find r.deviceId = some dev ∧
      dev.trustStatus = .trusted
  · exact alone_imp (hwrote hcreate) (alone_mono (fun _ d' _ hq => ⟨hwrote hcreate d' hq.1, hq.2⟩) hcode)
  · push Not at hcreate
    obtain ⟨r, o, rfl, hun⟩ := hcreate
    refine alone_bind (alone_mono (fun r d' o' hq => ?_) (solo_createUntrusted hun))
    have ht : Trusting c.world.sh.db d' := by rw [hq.1]; exact .refl _
    cases r with
    | ok a => exact ⟨ht, hq.2⟩
    | error e => exact ⟨ht, hq.2⟩

end

/-! ## Runs -/

section
variable {P : Params} {c₀ c c' : Conf} {call : Call}

/-- Between the calls of a run that starts with sound devices no trusted device has
been revoked. -/
theorem served_unrevoked (h₀ : Initial Init c₀) (hdev : c₀.world.sh.db.Unrevoked)
    (hr : ReflTransGen ((sys P).Served GrantsTrusted) c₀ c) : Reachable P c ∧ (sys P).Sequential DB.Unrevoked c :=
  served_induct (fun d _ => .refl d) (fun _ _ h ht => ht.unrevoked h)
    (fun _ _ hr hg _ _ => solo_trusting hr hg) h₀ hdev hr

theorem operation_trusting (h₀ : Initial Init c₀) (hdev : c₀.world.sh.db.Unrevoked)
    (hr : ReflTransGen ((sys P).Served GrantsTrusted) c₀ c) (hg : GrantsTrusted c call)
    (ho : (sys P).Operation call c c') :
    Trusting c.world.sh.db c'.world.sh.db := by
  obtain ⟨hreach, hseq⟩ := served_unrevoked h₀ hdev hr
  exact (ho.sequential hseq (.refl _) fun _ => solo_trusting hreach hg).store

theorem served_revoked {b : Conf} (h₀ : Initial Init c₀) (hdev : c₀.world.sh.db.Unrevoked)
    (hb : ReflTransGen ((sys P).Served GrantsTrusted) c₀ b) (hr : ReflTransGen ((sys P).Served GrantsTrusted) b c)
    {id : UUID} {r : Device} (hf : b.world.sh.db.devices.find id = some r) (hst : r.trustStatus = .revoked) :
    ∃ r', c.world.sh.db.devices.find id = some r' ∧ r'.trustStatus = .revoked := by
  induction hr with
  | refl => exact ⟨r, hf, hst⟩
  | tail hr' hs ih =>
    obtain ⟨r', hf', hst'⟩ := ih
    obtain ⟨call, hg, ho, -⟩ := hs
    exact (operation_trusting h₀ hdev (hb.trans hr') hg ho).revoked id r' hf' hst'

/-- **Work for trusted devices.** In a run of one call after the other, in which
approvals are granted for trusted devices, a command that a call queues is one of a
trusted device, which has never been revoked. -/
theorem queued_for_trusted (h₀ : Initial Init c₀) (hdev : c₀.world.sh.db.Unrevoked)
    (hr : ReflTransGen ((sys P).Served GrantsTrusted) c₀ c) (hg : GrantsTrusted c call)
    (ho : (sys P).Operation call c c')
    {id : UUID} {cmd : Command} (hold : ∀ x, c.world.sh.db.commands.find id = some x → x.state ≠ .queued)
    (hnew : c'.world.sh.db.commands.find id = some cmd) (hst : cmd.state = .queued) :
    (∃ dev, c.world.sh.db.devices.find cmd.deviceId = some dev ∧
      c'.world.sh.db.devices.find cmd.deviceId = some dev ∧
      dev.trustStatus = .trusted ∧ dev.revokedAt = none) ∧
    ∀ b, ReflTransGen ((sys P).Served GrantsTrusted) c₀ b → ReflTransGen ((sys P).Served GrantsTrusted) b c →
      ∀ dev, b.world.sh.db.devices.find cmd.deviceId = some dev → dev.trustStatus ≠ .revoked := by
  have ht := operation_trusting h₀ hdev hr hg ho
  rcases ht.queued id cmd hnew hst with ⟨x, hx, hxq⟩ | ⟨dev, hd, hd', htr⟩
  · exact absurd hxq (hold x hx)
  refine ⟨⟨dev, hd, hd', htr, (served_unrevoked h₀ hdev hr).2.store _ dev hd htr⟩, fun b hb hbc r hf hrev => ?_⟩
  obtain ⟨r', hr', hrev'⟩ := served_revoked h₀ hdev hb hbc hf hrev
  rw [hd] at hr'
  cases hr'
  rw [htr] at hrev'
  cases hrev'

end

/-! ## An approval for a revoked device -/

def grantsTrusted (c : Conf) : Call → Bool
  | .decide id _ true _ _ =>
    (((c.world.sh.db.approvals.find id).bind fun a => c.world.sh.db.commands.find a.commandId).bind fun cmd =>
      c.world.sh.db.devices.find cmd.deviceId).all fun dev => dev.trustStatus == .trusted
  | .create _ _ => true
  | .revoke _ _ => true
  | _ => false

theorem grantsTrusted_sound (P : Params) (c : Conf) (call : Call) (h : grantsTrusted c call = true) :
    GrantsTrusted c call ∧ (sys P).admits c.world.sh.db c.world.sh.ext call := by
  refine ⟨fun id o nonce note he a cmd dev ha hc hd => ?_, by cases call <;> trivial⟩
  subst he
  simpa [grantsTrusted, ha, hc, hd] using h

def grantPing : Call := .decide 12 7 true "Qm9vdHN0cmFwLW5vbmNlLWZvci1hLXdpdG5lc3MtcnU" none

theorem demo_unrevoked : demoStart.world.sh.db.Unrevoked := by
  intro id r hr _
  have := Table.mem_of_find hr
  simp only [demoStart, fresh, demoDB, List.mem_cons, List.not_mem_nil, or_false] at this
  rcases this with rfl | rfl <;> rfl

def queuesPing (ok : Conf → Call → Bool) (calls : List Call) (last : Call) (status : DeviceStatus) : Bool :=
  (performIf (sys demo) ok calls demoStart).any fun c => ok c last &&
    ((c.world.sh.db.commands.find 10).any (·.state != .queued)) &&
    ((c.world.sh.db.devices.find 1).any (·.trustStatus == status)) &&
    (perform (sys demo) last c).any fun c' => (c'.world.sh.db.commands.find 10).any fun cmd =>
      cmd.state == .queued && cmd.deviceId == 1

theorem queuesPing_run {f : Conf → Call → Bool} {A : Conf → Call → Prop} {calls : List Call} {last : Call}
    {status : DeviceStatus}
    (hok : ∀ c call, f c call = true → A c call ∧ (sys demo).admits c.world.sh.db c.world.sh.ext call)
    (h : queuesPing f calls last status = true) :
    ∃ c c' cmd dev, ReflTransGen ((sys demo).Served A) demoStart c ∧ A c last ∧
      (sys demo).Operation last c c' ∧ (∀ x, c.world.sh.db.commands.find 10 = some x → x.state ≠ .queued) ∧
      c'.world.sh.db.commands.find 10 = some cmd ∧ cmd.state = .queued ∧
      c.world.sh.db.devices.find cmd.deviceId = some dev ∧ dev.trustStatus = status := by
  obtain ⟨c, hc, h⟩ := (Option.any_eq_true _ _).mp h
  simp only [Bool.and_eq_true, Option.any_eq_true, bne_iff_ne, beq_iff_eq] at h
  obtain ⟨⟨⟨hlast, x, hx, hxq⟩, dev, hdev, hst⟩, c', hc', cmd, hcmd, hq, hd⟩ := h
  obtain ⟨hA, hadm⟩ := hok c last hlast
  refine ⟨c, c', cmd, dev, performIf_served hok hc, hA, (perform_operation hadm hc').1, fun y hy => ?_, hcmd, hq,
    by rw [hd]; exact hdev, hst⟩
  rw [hx] at hy
  cases hy
  exact hxq

theorem queued_for_trusted_ping : ∃ c c' cmd dev, ReflTransGen ((sys demo).Served GrantsTrusted) demoStart c ∧
    (sys demo).Operation grantPing c c' ∧ c'.world.sh.db.commands.find 10 = some cmd ∧ cmd.state = .queued ∧
    c.world.sh.db.devices.find cmd.deviceId = some dev ∧ dev.trustStatus = .trusted ∧ dev.revokedAt = none := by
  obtain ⟨c, c', cmd, -, hr, hg, ho, hold, hnew, hst, -⟩ := queuesPing_run (grantsTrusted_sound demo)
    (show queuesPing grantsTrusted [.create (ping true) 7] grantPing .trusted = true by decide +kernel)
  obtain ⟨⟨dev, hd, -, ht, hn⟩, -⟩ := queued_for_trusted demo_initial demo_unrevoked hr hg ho hold hnew hst
  exact ⟨c, c', cmd, dev, hr, ho, hnew, hst, hd, ht, hn⟩

/-- The device of the ping is revoked before the approval is granted, and the command
is queued all the same. -/
theorem queued_for_revoked : ∃ c c' cmd dev, ReflTransGen ((sys demo).Served fun _ _ => True) demoStart c ∧
    (sys demo).Operation grantPing c c' ∧ (∀ x, c.world.sh.db.commands.find 10 = some x → x.state ≠ .queued) ∧
    c'.world.sh.db.commands.find 10 = some cmd ∧ cmd.state = .queued ∧
    c.world.sh.db.devices.find cmd.deviceId = some dev ∧ dev.trustStatus = .revoked := by
  obtain ⟨c, c', cmd, dev, hr, -, ho, hold, hnew, hst, hd, ht⟩ := queuesPing_run (A := fun _ _ => True)
    (f := fun _ call => match call with | .create .. => true | .revoke .. => true | .decide .. => true | _ => false)
    (fun c call h => ⟨trivial, by cases call <;> trivial⟩)
    (show queuesPing _ [.create (ping true) 7, .revoke 1 7] grantPing .revoked = true by decide +kernel)
  exact ⟨c, c', cmd, dev, hr, ho, hold, hnew, hst, hd, ht⟩

end Veyaan
