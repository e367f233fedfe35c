import Veyaan.Columns
import Veyaan.Gateway

/-!
# The statements that write

Every statement of the services, the workers and the consumer that writes rows,
with what it locks besides them: what is true of each of these is true of every
program, whatever runs next to it.
-/

namespace Veyaan

class inductive Statement : (DB → List Key) → (DB → Except Err (List Write)) → Prop
  | insertEvent (e) : Statement (fun _ => []) (insertEvent e)
  | insertAudit (a) : Statement (fun _ => []) (insertAudit a)
  | insertOutbox (id aggregateType aggregateId eventType msg availableAt) : Statement (fun _ => [.outbox id])
      (insertOutbox ⟨id, aggregateType, aggregateId, eventType, msg, .pending, availableAt, 0, none⟩)
  | markPublished (id now) : Statement (fun _ => [.outbox id])
      (updateOutbox id fun e => { e with status := .published, publishedAt := some now })
  | markFailed (id) : Statement (fun _ => [.outbox id]) (updateOutbox id fun e => { e with status := .failed })
  | incrementAttempt (id) : Statement (fun _ => [.outbox id])
      (updateOutbox id fun e => { e with attemptCount := e.attemptCount + 1, status := .pending })
  | activateStop (o reason now actor) : Statement (fun _ => [.stop o]) (updateStop o fun s =>
      { s with
        active := true, reason := some reason, activatedAt := some now, activatedBy := some actor,
        releasedAt := none, releasedBy := none })
  | insertStop (o reason now actor) : Statement (fun _ => [.stop o])
      (insertStop ⟨o, true, some reason, some now, none, some actor, none⟩)
  | releaseStop (o now actor) : Statement (fun _ => [.stop o])
      (updateStop o fun s => { s with active := false, releasedAt := some now, releasedBy := some actor })
  | insertCommand (r : CreateCommandRequest) (df id now) : Statement
      (fun _ => [.command id, .idempotency r.deviceId r.idempotencyKey]) (insertCommand (r.command df id now))
  | insertTask (id c st) : Statement (fun _ => [.task c]) (insertTask ⟨id, c, st, none, none, none⟩)
  | updateCommand (id loaded new u n source m) :
      Statement (fun _ => [.command id]) (updateCommand loaded new u n source m)
  | updateTask (c f) : Statement (fun _ => [.task c]) (updateTask c f)
  | insertApproval (id c o risk title descr hash expiresAt) : Statement (fun _ => [.approval id, .approvalOf c])
      (insertApproval ⟨id, c, o, risk, title, descr, .pending, hash, expiresAt, none, none⟩)
  | expireApproval (id) : Statement (fun _ => [.approval id])
      (updateApproval id fun a => { a with status := .expired })
  | decideApproval (id) (approve : Bool) (now note) :
      Statement (fun _ => [.approval id]) (updateApproval id fun a =>
      { a with
        status := if approve then .approved else .rejected
        decidedAt := some now
        decisionNote := note })
  | expireApprovals (now) : Statement (fun d => (expirePendingApprovals.overdue now d).map fun a => .approval a.id)
      (fun d => .ok ((expirePendingApprovals.overdue now d).map fun a => .approval { a with status := .expired }))
  | insertPairing (P : Params) (info id code now) :
      Statement (fun _ => [.pairing id]) (insertPairing (newPairing P info id code now))
  | updatePairing (id f) : Statement (fun _ => [.pairing id]) (updatePairing id f)
  | expirePairings (now) : Statement (fun d => (expireStalePairings.stale now d).map fun p => .pairing p.id)
      (fun d => .ok ((expireStalePairings.stale now d).map fun p => .pairing { p with status := .expired }))
  | insertDevice (p : PairingRequest) (id o) : Statement (fun _ => [.device id]) (insertDevice (p.device id o))
  | revokeDevice (id t) : Statement (fun _ => [.device id])
      (updateDevice id fun r => { r with trustStatus := .revoked, revokedAt := some t })
  | insertCredential (P : Params) (id dev secret now) : Statement (fun _ => [.credential id])
      (insertCredential (newCredential P id dev secret now))
  | revokeCredentials (dev now) : Statement (fun d => (d.credentialsOf dev).map fun r => .credential r.id)
      (fun d => .ok ((d.credentialsOf dev).map fun r => .credential { r with revokedAt := some now }))

attribute [instance] Statement.insertEvent Statement.insertAudit Statement.insertOutbox Statement.markPublished
  Statement.markFailed Statement.incrementAttempt Statement.activateStop Statement.insertStop Statement.releaseStop
  Statement.insertCommand Statement.insertTask Statement.updateCommand Statement.updateTask Statement.insertApproval
  Statement.expireApproval Statement.decideApproval Statement.expireApprovals Statement.insertPairing
  Statement.updatePairing Statement.expirePairings Statement.insertDevice Statement.revokeDevice
  Statement.insertCredential Statement.revokeCredentials

end Veyaan
