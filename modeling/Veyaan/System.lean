import Mathlib.Data.Nat.Basic
import Veyaan.Gateway
import Veyaan.Lib.Operations

/-!
# The whole system

Every route, worker and gateway loop is a call that starts a process, as often
as one likes and at any time. A lifecycle handler starts on a message of the
stream, a round of a listener on a ready message for the device of its
connection, and a frame on a connection that has been authenticated.
-/

namespace Veyaan

inductive Call where
  | create (r : CreateCommandRequest) (ownerId : UUID)
  | cancel (commandId ownerId : UUID)
  | decide (approvalId ownerId : UUID) (approve : Bool) (nonce : String) (note : Option String)
  | activate (ownerId : UUID) (reason : String) (actorId : UUID)
  | release (ownerId releasedBy : UUID)
  | batch
  | tasks
  | consume (kind : Lifecycle) (commandId : UUID) (p : LifecyclePayload)
  | listen (conn : DeviceConnection) (p : ReadyPayload)
  | frame (conn : DeviceConnection) (f : Frame)
  | startPairing (info : DeviceInfo)
  | confirmPairing (pairingId ownerId : UUID) (pairingCode : String)
  | revoke (deviceId ownerId : UUID)

def drop {α : Type} (p : Op α) : Op Unit := p.bind fun _ => .ret ()

def Call.code (P : Params) : Call → Op Unit
  | .create r o => drop (createCommand P r o)
  | .cancel c o => drop (cancelCommand c o)
  | .decide a o approve nonce note => drop (decideApproval P a o approve nonce note)
  | .activate o reason actor => Veyaan.activate o reason actor
  | .release o actor => Veyaan.release o actor
  | .batch => drop (processBatch P)
  | .tasks => runTasks P
  | .consume kind c p => Veyaan.consume kind c p
  | .listen conn p => natsListener conn p
  | .frame conn f => handleDeviceMessage conn f
  | .startPairing info => drop (Veyaan.startPairing P info)
  | .confirmPairing p o code => drop (Veyaan.confirmPairing P p o code)
  | .revoke dev o => drop (revokeDevice dev o)

def Call.admits (_ : DB) (x : Ext) : Call → Prop
  | .consume kind c p => .lifecycle kind c p ∈ x.stream
  | .listen conn p => conn ∈ x.conns ∧ .commandReady conn.deviceId p ∈ x.stream
  | .frame conn _ => conn ∈ x.conns
  | _ => True

def sys (P : Params) : Sys DB Ext Key Write Row Label Ev Call Err Eff where
  apply := Write.apply
  keys := Write.keys
  row := DB.row
  frame := row_frame
  sets := row_sets
  see := Label.see
  rejected := .rejected
  handle := fun ch e x => Eff.handle ch e x
  dbError := .db
  code := Call.code P
  admits := Call.admits
  env d x x' := ExtStep d x x'

structure Init (d : DB) (x : Ext) : Prop where
  commands : d.commands = .empty
  tasks : d.tasks = .empty
  events : d.events = []
  approvals : d.approvals = .empty
  stops : d.stops = .empty
  outbox : d.outbox = .empty
  audits : d.audits = []
  cache : ∀ o, x.cache o = none
  stream : x.stream = []
  conns : x.conns = []

abbrev Conf := Sys.Config DB Ext Key Write Label Ev Call Err Eff
abbrev St := Shared DB Ext Ev
abbrev Wd := World DB Ext Key Write Ev

def Reachable (P : Params) (c : Conf) : Prop := (sys P).Reachable Init c

theorem step_clock {P : Params} {c c' : Conf} (hs : (sys P).Step c c') :
    c.world.sh.ext.clock ≤ c'.world.sh.ext.clock := by
  refine Sys.step_rises (f := Ext.clock) (fun ch e x => ?_) (fun _ _ _ hx => ?_) hs
  · exact Nat.le_of_eq (handle_clock ch e x).symm
  · cases hx with
    | clock ht => exact ht
    | _ => exact Nat.le_refl _

end Veyaan
