import Veyaan.Refine.Approvals
import Veyaan.Refine.Consumer
import Veyaan.Refine.Devices
import Veyaan.Refine.Gateway
import Veyaan.Refine.Publisher

/-!
# Every run follows the protocol

The rules for the single programs, put together: in every run of the system,
whatever the interleaving and whatever fails, the shared state moves by steps
of the protocol.
-/

open Relation (ReflTransGen)

namespace Veyaan

open Sys

def Call.Post : Call → Nat → Except Err Unit → Wd → Prop
  | .listen conn p, i, _, w => RoundEnd conn p i w
  | _, _, _, _ => True

abbrev Runs (P : Params) (c c' : Conf) : Prop := ReflTransGen (sys P).Step c c'

section
variable {P : Params} {c c' : Conf}

theorem env_acts (d : DB) (x x' : Ext) (t : List (Nat × Ev)) (h : (sys P).env d x x') :
    ReflTransGen (Act P) ⟨d, x, t⟩ ⟨d, x', t⟩ :=
  .single (.env (s := ⟨d, x, t⟩) h)

theorem refines_drop {α : Type} {p : Op α} {i : Nat} {w : Wd}
    (h : wps P i p (fun _ w' => Holds P i w' [] []) w) : wps P i (drop p) (fun _ _ => True) w :=
  wp_bind (wp_mono (fun r _ _ => by cases r <;> trivial) h)

theorem refines_code (call : Call) (i : Nat) (w : Wd) (hr : Real P w) (ha : (sys P).admits w.sh.db w.sh.ext call)
    (hw : w.Idle i) (ht : own i w.sh.trace = []) : wps P i ((sys P).code call) (call.Post i) w := by
  have h : Holds P i w [] [] := World.Idle.held hw
  cases call with
  | create r o => exact refines_drop (refines_createCommand hr h)
  | cancel c o => exact refines_drop (refines_cancelCommand hr h)
  | decide a o approve nonce note => exact refines_drop (refines_decideApproval hr h)
  | activate o reason actor => exact wp_mono (fun _ _ _ => trivial) (refines_activate hr h)
  | release o actor => exact wp_mono (fun _ _ _ => trivial) (refines_release h)
  | startPairing info => exact refines_drop (refines_startPairing h)
  | confirmPairing p o code => exact refines_drop (refines_confirmPairing h)
  | revoke d o => exact refines_drop (refines_revokeDevice h)
  | batch => exact refines_drop (refines_processBatch hr h ht)
  | tasks => exact wp_mono (fun _ _ _ => trivial) (refines_runTasks hr h)
  | consume kind c p => exact wp_mono (fun _ _ _ => trivial) (refines_consume hr h ha)
  | listen conn p => exact refines_natsListener hr h ha.1 ha.2 ht
  | frame conn f => exact wp_mono (fun _ _ _ => trivial) (refines_handleDeviceMessage h ha)

theorem post_rely (call : Call) (i : Nat) (r : Except Err Unit) (w w' : Wd) (hr : (sys P).Rely (Act P) i w w')
    (h : call.Post i r w) : call.Post i r w' := by
  cases call with
  | listen conn p => exact RoundEnd.rely h hr
  | _ => trivial

/-- **Soundness of the protocol.** -/
theorem reachable_steady (h : Reachable P c) : (sys P).Steady (Act P) Init Call.Post c :=
  sound env_acts refines_code post_rely h

theorem reachable_real (h : Reachable P c) : Real P c.world := (reachable_steady h).reach

theorem reachable_inv (h : Reachable P c) : Inv P c.world.sh := reach_inv (reachable_real h)

theorem runs_acts (h : Reachable P c) (hr : Runs P c c') : ReflTransGen (Act P) c.world.sh c'.world.sh :=
  runs_shared env_acts refines_code post_rely h hr

theorem runs_later (h : Reachable P c) (hr : Runs P c c') : Later c.world.sh c'.world.sh :=
  acts_later (runs_acts h hr)

theorem reachable_round (h : Reachable P c) {i : Nat} {conn : DeviceConnection} {p : ReadyPayload} {q : Op Unit}
    (hp : c.procs[i]? = some ⟨.listen conn p, q⟩) (hq : q = .ret () ∨ ∃ e, q = .throw e) :
    RoundEnd conn p i c.world := by
  have hw := (reachable_steady h).procs i _ hp
  rcases hq with rfl | ⟨e, rfl⟩
  · exact hw
  · exact hw

end

end Veyaan
