import Veyaan.Schedule
import Veyaan.Serial.Workers

/-!
# All or nothing

A call that runs on a store of the system, whichever of its statements fail,
leaves the store as it was, or with all the rows of its success path: domain
rows, state events, task, audit row and outbox event together. The rows that
are committed before an error is raised on purpose are the other outcome.
-/

namespace Veyaan

open Sys

variable {P : Params} {c : Conf}

/-- The call comes to an end, and however it ends its writes are all there or not
at all. -/
theorem all_or_nothing (h : Reachable P c) (x : Ext) (i : Nat) (call : Call) :
    (∃ r w, (sys P).Alone true i (call.code P) (fresh c.world.sh.db x).world r w) ∧
      ∀ r w, (sys P).Alone true i (call.code P) (fresh c.world.sh.db x).world r w →
        w.sh.db = c.world.sh.db ∨
          ∃ ws, (Rows P c.world.sh.db call ws ∨ Refusal P c.world.sh.db call ws) ∧
          w.sh.db = c.world.sh.db.write ws := by
  refine ⟨?_, fun r w hr => ?_⟩
  · obtain ⟨r, w, hr⟩ := alone_ends (p := call.code P) (fresh_matches (P := P) c.world.sh.db x i)
    exact ⟨r, w, hr.mono⟩
  · obtain ⟨d', o', hm, hw, -⟩ := alone_sound (fresh_matches _ x i) (solo_code (reachable_inv h).db call) hr
    rw [hm.db]
    exact hw

theorem all_or_nothing_activate : ∃ c cmd, Reachable demo c ∧ c.world.sh.db.commands.find 10 = some cmd ∧
    cmd.state = .queued ∧
    ∃ r w, (sys demo).Alone true 0 ((Call.activate 7 "lost" 7).code demo) (fresh c.world.sh.db demoExt).world r w ∧
      (w.sh.db = c.world.sh.db ∨ ∃ ws, (Rows demo c.world.sh.db (.activate 7 "lost" 7) ws ∨
        Refusal demo c.world.sh.db (.activate 7 "lost" 7) ws) ∧ w.sh.db = c.world.sh.db.write ws) := by
  obtain ⟨c, cmd, hr, hcmd, hst⟩ := queued_reachable
  obtain ⟨⟨r, w, hrun⟩, hall⟩ := all_or_nothing hr demoExt 0 (.activate 7 "lost" 7)
  exact ⟨c, cmd, hr, hcmd, hst, r, w, hrun, hall r w hrun⟩

end Veyaan
