import Veyaan.System

/-!
# The columns hold what they are given

The columns that take what a device reports, in the commands and the tasks: the
database refuses a value that does not fit, so a row that has been written does.
-/

namespace Veyaan

def Write.fits : Write → Bool
  | .command c => c.storable
  | .task t => t.storable
  | _ => true

structure DB.Fits (d : DB) : Prop where
  command : ∀ id c, d.commands.find id = some c → c.storable = true
  task : ∀ id t, d.tasks.find id = some t → t.storable = true

class Fits (f : DB → Except Err (List Write)) : Prop where
  fits : ∀ d ws, f d = .ok ws → ∀ w ∈ ws, w.fits = true

theorem fits_one {f : DB → Except Err (List Write)}
    (h : ∀ d ws, f d = .ok ws → ∃ w, ws = [w] ∧ w.fits = true) : Fits f :=
  ⟨fun d ws hws w hw => by
    obtain ⟨v, rfl, hv⟩ := h d ws hws
    rw [List.mem_singleton.mp hw]
    exact hv⟩

theorem fits_all {ρ : Type} {sel : DB → List ρ} {g : ρ → Write} (h : ∀ r, (g r).fits = true) :
    Fits fun d => .ok ((sel d).map g) :=
  ⟨fun d ws hws w hw => by
    cases hws
    obtain ⟨r, -, rfl⟩ := List.mem_map.mp hw
    exact h r⟩

instance {e : CommandStateEvent} : Fits (insertEvent e) := fits_one fun d ws h => by
  unfold insertEvent at h
  split at h <;> cases h
  exact ⟨_, rfl, rfl⟩

instance {a : AuditLog} : Fits (insertAudit a) := fits_one fun _ _ h => ⟨_, (insertAudit_ok.mp h).2.2, rfl⟩

instance {e : OutboxEvent} : Fits (insertOutbox e) := fits_one fun d ws h => by
  unfold insertOutbox at h
  split at h
  · cases h
  · split at h <;> cases h
    exact ⟨_, rfl, rfl⟩

instance {id : UUID} {f : OutboxEvent → OutboxEvent} : Fits (updateOutbox id f) :=
  ⟨fun d ws h w hw => by
    unfold updateOutbox at h
    split at h <;> cases h
    · cases hw
    · rw [List.mem_singleton.mp hw]; rfl⟩

instance {r : EmergencyStop} : Fits (insertStop r) := fits_one fun _ _ h => ⟨_, (insertStop_ok.mp h).2.2.2, rfl⟩

instance {o : UUID} {f : EmergencyStop → EmergencyStop} : Fits (updateStop o f) := fits_one fun d ws h => by
  cases hs : d.stops.find o with
  | none => simp [updateStop, hs] at h
  | some s => exact ⟨_, ((updateStop_ok hs).mp h).2.2.2, rfl⟩

instance {a : Approval} : Fits (insertApproval a) := fits_one fun _ _ h => ⟨_, (insertApproval_ok.mp h).2.2.2, rfl⟩

instance {id : UUID} {f : Approval → Approval} : Fits (updateApproval id f) := fits_one fun d ws h => by
  unfold updateApproval at h
  split at h
  · cases h
  · split at h <;> cases h
    exact ⟨_, rfl, rfl⟩

instance {p : PairingRequest} : Fits (insertPairing p) := fits_one fun d ws h => by
  unfold insertPairing at h
  split at h
  · cases h
  · split at h <;> cases h
    exact ⟨_, rfl, rfl⟩

instance {id : UUID} {f : PairingRequest → PairingRequest} : Fits (updatePairing id f) := fits_one fun d ws h => by
  unfold updatePairing at h
  split at h <;> cases h
  exact ⟨_, rfl, rfl⟩

instance {r : Device} : Fits (insertDevice r) := fits_one fun _ _ h => ⟨_, (insertDevice_ok.mp h).2.2.2.2, rfl⟩

instance {id : UUID} {f : Device → Device} : Fits (updateDevice id f) := fits_one fun d ws h => by
  unfold updateDevice at h
  split at h <;> cases h
  exact ⟨_, rfl, rfl⟩

instance {r : DeviceCredential} : Fits (insertCredential r) := fits_one fun d ws h => by
  unfold insertCredential at h
  split at h
  · cases h
  · split at h <;> cases h
    exact ⟨_, rfl, rfl⟩

/-! ## Commands and tasks -/

instance {r : CreateCommandRequest} {df : CommandDefinition} {id : UUID} {now : Time} :
    Fits (insertCommand (r.command df id now)) := fits_one fun d ws h => by
  unfold insertCommand at h
  split at h
  · cases h
  · split at h <;> cases h
    exact ⟨_, rfl, rfl⟩

instance {id cid : UUID} {st : TaskState} : Fits
    (insertTask ⟨id, cid, st, none, none, none⟩) := fits_one fun d ws h => by
  unfold insertTask at h
  split at h <;> cases h
  exact ⟨_, rfl, rfl⟩

instance {c : Command} {new : CommandState} {u n : Time} {source : Source} {m : Option Metadata} :
    Fits (updateCommand c new u n source m) := fits_one fun d ws h => by
  unfold updateCommand at h
  split at h
  · cases h
  split at h
  · cases h
  split at h <;> cases h
  rename_i hs
  exact ⟨_, rfl, hs⟩

instance {id : UUID} {f : Task → Task} : Fits (updateTask id f) := fits_one fun d ws h => by
  unfold updateTask at h
  split at h
  · cases h
  split at h <;> cases h
  rename_i hs
  exact ⟨_, rfl, hs⟩

theorem DB.Fits.apply {d : DB} {w : Write} (h : d.Fits) (hw : w.fits = true) : (w.apply d).Fits := by
  cases w with
  | command c =>
    refine ⟨fun id x hx => ?_, h.task⟩
    simp only [Write.apply, Table.find_put] at hx
    split at hx
    · cases hx; exact hw
    · exact h.command id x hx
  | task t =>
    refine ⟨h.command, fun id x hx => ?_⟩
    simp only [Write.apply, Table.find_put] at hx
    split at hx
    · cases hx; exact hw
    · exact h.task id x hx
  | _ => exact ⟨h.command, h.task⟩

end Veyaan
