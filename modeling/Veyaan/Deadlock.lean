import Veyaan.Lib.Waiting
import Veyaan.Locks.Devices
import Veyaan.Locks.Services
import Veyaan.Locks.Workers
import Veyaan.Schedule

/-!
# No deadlock

All calls lock their rows in one order, but for those that block commands: an activation
and a batch lock one command after another. As long as only one of these is on its way,
the calls cannot end up waiting for each other.
-/

namespace Veyaan

open Sys LockOrder

def Call.inOrder : Call → Bool
  | .activate .. => false
  | .batch => false
  | _ => true

section
variable {P : Params} {c : Conf}

theorem locks_code (call : Call) : Locks P call.inOrder 0 [] (call.code P) fun _ n _ => n = 0 := by
  cases call with
  | create => exact Locks.drop Locks.createCommand
  | cancel => exact Locks.drop Locks.cancelCommand
  | decide => exact Locks.drop Locks.decideApproval
  | activate => exact Locks.activate
  | release => exact Locks.release
  | batch => exact Locks.drop Locks.processBatch
  | tasks => exact Locks.runTasks
  | consume => exact Locks.consume
  | listen => exact Locks.natsListener.mono fun _ _ _ h => Nat.le_zero.mp h.1
  | frame => exact Locks.handleDeviceMessage.mono fun _ _ _ h => Nat.le_zero.mp h.1
  | startPairing => exact Locks.drop Locks.startPairing
  | confirmPairing => exact Locks.drop Locks.confirmPairing
  | revoke => exact Locks.drop Locks.revokeDevice

theorem waits_of_turn {i : Nat} {p : Proc DB Key Write Label Call Err Eff} (hp : c.procs[i]? = some p)
    (hl : p.prog.ended = false) (ht : turn (moves P) c (.run i true) = none) : (sys P).Waits c i := by
  obtain ⟨call, prog⟩ := p
  cases prog with
  | ret | throw => cases hl
  | op s k =>
    refine ⟨call, _, s, k, hp, ?_⟩
    simp only [turn, hp] at ht
    split at ht
    · cases ht
    · assumption

end

def twoRevocations : List (Turn Move) :=
  .other (.call (.revoke 1 7)) :: .other (.call (.revoke 1 7)) :: .other (.call .batch) :: steps 0 4 ++ steps 1 3

end Veyaan
