import Veyaan.Refine.Sound
import Veyaan.Schedule

/-!
# The approval gate

A command that needs an approval is not queued, and no event of it goes to the
outbox, before its owner has approved it, once. The approval row is read
without a lock; the row of the command decides.
-/

namespace Veyaan

open Sys

def pastGate : List CommandState := [.queued, .delivered, .acknowledged, .running, .succeeded]

/-- Exactly one `decide_approval('approve')` for an approval of the command has
committed. The owner of the device made it, with a nonce whose hash is stored,
and read the approval as pending and not past its expiry. -/
structure Cleared (P : Params) (s : St) (c : Command) : Prop where
  once : s.trace.countP (granted c.id) = 1
  decision : ∃ i x a, (i, Ev.committed (.decide x)) ∈ s.trace ∧ x.approve = true ∧
    s.db.approvals.find x.approvalId = some a ∧ a.commandId = c.id ∧ s.db.ownerOf c.deviceId = some x.ownerId ∧
    P.sha256 x.nonce = a.decisionNonceHash ∧ x.read.id = x.approvalId ∧ x.read.status = .pending ∧
    ¬ x.read.expiresAt < x.clock

theorem exists_granted {id : UUID} {t : List (Nat × Ev)} (h : t.countP (granted id) ≠ 0) :
    ∃ i x, (i, Ev.committed (.decide x)) ∈ t ∧ x.approve = true ∧ x.read.commandId = id := by
  obtain ⟨⟨i, v⟩, hm, hg⟩ := List.countP_pos_iff.mp (Nat.pos_of_ne_zero h)
  cases v with
  | committed t =>
    cases t with
    | decide x =>
      simp only [granted, Bool.and_eq_true, beq_iff_eq] at hg
      exact ⟨i, x, hm, hg.1, hg.2⟩
    | _ => cases hg
  | _ => cases hg

theorem Inv.cleared {P : Params} {s : St} (hi : Inv P s) {id : UUID} {c : Command}
    (hc : s.db.commands.find id = some c) (hn : s.trace.countP (granted id) = 1) : Cleared P s c := by
  have hid : c.id = id := by simpa using Table.key_of_find hc
  subst hid
  obtain ⟨i, x, hx, ha, hcid⟩ := exists_granted (by rw [hn]; decide)
  obtain ⟨hv, c', a, hc', ho, hf, hs⟩ := hi.decisions i x hx ha
  rw [hcid, hc] at hc'
  cases hc'
  exact ⟨hn, i, x, a, hx, ha, hf, hs.commandId.trans hcid, ho, hv.nonce.trans hs.decisionNonceHash.symm, hv.id,
    hv.pending, hv.inTime⟩

theorem pastGate_started {s : CommandState} (h : s ∈ pastGate) : s ∈ started := by
  revert h; cases s <;> decide

theorem DB.Later.queuedEvent {d d' : DB} (h : d.Later d') {id k : UUID} (hq : d.QueuedEvent id k) :
    d'.QueuedEvent id k := by
  obtain ⟨e, he, hq, ha⟩ := hq
  obtain ⟨e', he', hs⟩ := h.outbox k e he
  exact ⟨e', he', hs.isQueued.trans hq, hs.aggregateId.trans ha⟩

/-- **The approval gate**, and the uniqueness of a command's event over a whole run. -/
theorem approval_gate {P : Params} {c : Conf} (h : Reachable P c) {id : UUID} {cmd : Command}
    (hc : c.world.sh.db.commands.find id = some cmd) :
    (∃ i q df, (i, Ev.committed (.create id q)) ∈ c.world.sh.trace ∧ commandRegistry q.commandType = some df ∧
      cmd.requiresApproval = (df.requiresApproval || q.requiresApproval) ∧
      (df.requiresApproval = true ∨ q.requiresApproval = true →
        cmd.state ∈ pastGate ∨ (∃ k, c.world.sh.db.QueuedEvent id k) → Cleared P c.world.sh cmd)) ∧
    ∀ c', Runs P c c' →
      (∀ k k', c.world.sh.db.QueuedEvent id k → c'.world.sh.db.QueuedEvent id k' → k = k') ∧
      (cmd.state = .queued → ∃ k, c'.world.sh.db.QueuedEvent id k) := by
  have hi := reachable_inv h
  have hid : cmd.id = id := by simpa using Table.key_of_find hc
  refine ⟨?_, fun c' hr => ⟨fun k k' hk hk' => ?_, fun hq => ?_⟩⟩
  · obtain ⟨i, q, df, hm, hdf, hra⟩ := hi.requested id cmd hc
    rw [hid] at hm
    refine ⟨i, q, df, hm, hdf, hra, fun hreq hpast => ?_⟩
    have hreq : cmd.requiresApproval = true := by rw [hra]; simpa using hreq
    have hev : ∃ k, c.world.sh.db.QueuedEvent id k :=
      hpast.elim (fun hs => hi.db.queued id cmd hc (pastGate_started hs)) fun hk => hk
    rcases hi.db.gate id cmd hc hreq with ⟨-, hno⟩ | ⟨hn, -⟩
    · obtain ⟨k, hk⟩ := hev
      exact absurd hk (hno k)
    · exact hi.cleared hc hn
  · exact (reachable_inv (h.runs hr)).db.unique id k k' ((runs_later h hr).db.queuedEvent hk) hk'
  · obtain ⟨k, hk⟩ := hi.db.queued id cmd hc (by rw [hq]; decide)
    exact ⟨k, (runs_later h hr).db.queuedEvent hk⟩

def approvalRun : List (Turn Move) :=
  .other (.call (.create (ping true) 7)) :: steps 0 27 ++
    .other (.call (.decide 12 7 true "Qm9vdHN0cmFwLW5vbmNlLWZvci1hLXdpdG5lc3MtcnU" none)) :: steps 1 25

theorem approval_gate_ping : ∃ c cmd, Reachable demo c ∧ c.world.sh.db.commands.find 10 = some cmd ∧
    cmd.requiresApproval = true ∧ cmd.state = .queued ∧ Cleared demo c.world.sh cmd := by
  obtain ⟨c, hr, hc⟩ := played (P := demo) (c := demoStart) (t := approvalRun)
    (φ := fun c => (c.world.sh.db.commands.find 10).any fun cmd => cmd.requiresApproval && cmd.state == .queued)
    (by decide +kernel)
  obtain ⟨cmd, hcmd, hq⟩ := (Option.any_eq_true _ _).mp hc
  simp only [Bool.and_eq_true, beq_iff_eq] at hq
  have h : Reachable demo c := Reachable.runs demo_reachable hr
  obtain ⟨⟨i, q, df, -, -, hra, hgate⟩, -⟩ := approval_gate h hcmd
  refine ⟨c, cmd, h, hcmd, hq.1, hq.2, hgate ?_ (.inl (by rw [hq.2]; decide))⟩
  simpa [hq.1] using hra.symm

end Veyaan
