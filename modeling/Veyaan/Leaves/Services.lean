import Veyaan.Leaves.Base

/-!
# Commands, approvals and stops of somebody else

The services look a command, an approval or a stop up by its owner, or compare the
owner with the user, before they write to it.
-/

namespace Veyaan

open Sys

section
variable {o : UUID} {s : Slice} {α : Type}

namespace Leaves

variable {Q : α → Prop}

/-! ## The services -/

theorem isActive {site : Site} {o' : UUID} : Leaves o s (Veyaan.isActive site o') fun _ => True := by
  apply seq (effect fun _ => trivial)
  intro v
  split
  · trivial
  · trivial
  · apply Confined.bind
    apply Confined.call
    · trivial
    · intro stop _
      split
      · split
        · apply seq (effect fun _ => trivial)
          intro _
          trivial
        · trivial
      · trivial

theorem createApproval {P : Params} {id o' : UUID} {risk : RiskLevel}
    {title descr : String} {mins : Nat} (ho : o' ≠ o)
    (hid : s.ownsCommand id = false) : Leaves o s (Veyaan.createApproval P id o' risk title descr mins)
    fun _ => True := by
  apply seq (effect fun _ => trivial)
  intro nonce
  apply seq (effect fun _ => trivial)
  intro now
  apply seq (effect fun _ => trivial)
  intro aid
  apply seq
  · apply execute
    intro d ws hd hf
    obtain ⟨hn, -, -, rfl⟩ := insertApproval_ok.mp hf
    refine ⟨?_, fun _ => trivial⟩
    intro w hw
    rw [List.mem_singleton.mp hw]
    refine ⟨ho, hd.no_approval ?_, hid⟩
    intro a ha
    rw [hn] at ha
    cases ha
  · intro _
    apply seq (select fun _ _ => trivial)
    intro _
    trivial

theorem insertNewCommand {P : Params} {r : CreateCommandRequest} {o' : UUID}
    {device : Device} {df : CommandDefinition}
    (ho : o' ≠ o) (hdev : s.owns r.deviceId = false) :
    Leaves o s (Veyaan.insertNewCommand P r o' device df) fun _ => True := by
  apply seq (effect fun _ => trivial)
  intro id
  apply seq (effect fun _ => trivial)
  intro now
  apply Confined.bind
  apply execute
  intro d ws hd hf
  obtain ⟨hn, rfl, -⟩ := insertCommand_row hf
  have hid : s.ownsCommand id = false := hd.shows.no_command hn
  refine ⟨?_, ?_⟩
  · intro w hw
    rw [List.mem_singleton.mp hw]
    exact ⟨hdev, hid⟩
  intro _
  apply seq (effect fun _ => trivial)
  intro tid
  apply seq
  · apply execute
    intro d' ws' hd' hf'
    unfold insertTask at hf'
    split at hf' <;> cases hf'
    refine ⟨?_, fun _ => trivial⟩
    intro w hw
    rw [List.mem_singleton.mp hw]
    exact hid
  intro _
  apply seq (insertEvent hid fun _ => trivial)
  intro _
  have hfirst : ∀ c ∈ some (r.command df id now), s.ownsCommand c.id = false := by
    intro c hc
    cases hc
    exact hid
  simp only
  split
  · apply Confined.bind
    apply (transitionCommand hid hfirst).mono
    intro c₁ h₁
    apply Confined.bind
    apply (transitionCommand hid h₁).mono
    intro c₂ _
    apply seq (createApproval ho hid)
    intro _
    apply seq (commit trivial)
    intro _
    trivial
  · apply Confined.bind
    apply (transitionCommand hid hfirst).mono
    intro c₁ h₁
    apply Confined.bind
    apply (transitionCommand hid h₁).mono
    intro c₂ _
    apply seq (addEvent (show s.concerns o .command id = false from hid))
    intro _
    apply seq (commit trivial)
    intro _
    trivial

theorem createCommand {P : Params} {r : CreateCommandRequest} {o' : UUID} (ho : o' ≠ o) :
    Leaves o s (Veyaan.createCommand P r o') fun _ => True := by
  apply withSession
  apply Confined.bind
  apply select
  intro d hd
  cases hr : d.devices.find r.deviceId with
  | none => trivial
  | some device =>
    simp only
    by_cases hown : device.ownerId = o'
    · have hdev := hd.foreign_device hr (hown ▸ ho)
      rw [if_neg (not_not_intro hown)]
      apply seq columnValue
      intro _
      split
      · trivial
      · apply seq isActive
        intro stopped
        unfold createChecked
        split
        · trivial
        · apply seq (select fun _ _ => trivial)
          intro existing
          split
          · split <;> trivial
          · split
            · trivial
            · split
              · exact insertNewCommand ho hdev
              · trivial
    · rw [if_pos hown]
      trivial

theorem cancelCommand {id o' : UUID} (ho : o' ≠ o) : Leaves o s (Veyaan.cancelCommand id o') fun _ => True := by
  apply withSession
  apply Confined.bind
  apply select
  intro d hd
  cases hc : d.commands.find id with
  | none => trivial
  | some c =>
    simp only [Option.map_some]
    by_cases hown : d.ownerOf c.deviceId = some o'
    · rw [if_neg (not_not_intro hown)]
      have hid : c.id = id := Table.key_of_find hc
      have hno : s.ownsCommand c.id = false := by
        rw [hid, hd.shows.find_command hc, hd.shows.owns, hown]
        simpa using ho
      apply Confined.bind
      apply Confined.attempt
      · intro e
        cases e <;> trivial
      · apply (transitionCommand hno (by simpa using hno)).mono
        intro _ _
        apply seq (commit trivial)
        intro _
        trivial
    · rw [if_pos hown]
      trivial

/-! ## Approvals -/

theorem updateApproval {Q : Nat → Prop} {ks : List Key} {id : UUID} {f : Approval → Approval}
    (hf : ∀ a, (f a).ownerId = a.ownerId ∧ (f a).commandId = a.commandId)
    (hid : s.approvals.find id = none) (hQ : ∀ n, Q n) :
    Leaves o s (Veyaan.execute ks (Veyaan.updateApproval id f)) Q := by
  apply execute
  intro d ws hd hw
  unfold Veyaan.updateApproval at hw
  split at hw
  · cases hw
  · rename_i a ha
    split at hw <;> cases hw
    refine ⟨?_, hQ⟩
    intro w hw
    rw [List.mem_singleton.mp hw]
    have haid : a.id = id := Table.key_of_find ha
    have ho := hd.approval_owner ha hid
    obtain ⟨hfo, hfc⟩ := hf a
    refine ⟨?_, ?_, ?_⟩
    · exact hfo ▸ ho
    · exact haid ▸ hid
    · exact hfc ▸ hd.foreign_command ha ho

theorem finishDecision {x : Decision} {note : Option String} (ho : x.ownerId ≠ o) :
    Leaves o s (Veyaan.finishDecision x note) fun _ => True := by
  apply seq (insertAudit ho fun _ => trivial)
  intro _
  exact commit trivial

theorem queueApproved {id : UUID} (hid : s.ownsCommand id = false) :
    Leaves o s (Veyaan.queueApproved id) fun _ => True := by
  apply Confined.bind
  apply select
  intro d _
  cases hc : d.commands.find id with
  | none => trivial
  | some c =>
    have hcid : c.id = id := Table.key_of_find hc
    apply seq (select fun _ _ => trivial)
    intro device
    split
    · trivial
    · exact addEvent (show s.concerns o .command c.id = false from hcid ▸ hid)

theorem approveChecked {x : Decision} {note : Option String} {stopped : Bool} (ho : x.ownerId ≠ o)
    (hid : s.ownsCommand x.read.commandId = false) :
    Leaves o s (Veyaan.approveChecked x note stopped) fun _ => True := by
  unfold Veyaan.approveChecked
  split
  · trivial
  · apply Confined.bind
    apply Confined.attempt
    · intro e
      cases e <;> trivial
    · apply Confined.bind
      apply (transitionCommand hid (by simp)).mono
      intro c₁ h₁
      apply Confined.bind
      apply (transitionCommand hid h₁).mono
      intro _ _
      apply seq (queueApproved hid)
      intro _
      exact finishDecision ho

theorem rejectDecision {x : Decision} {note : Option String} (ho : x.ownerId ≠ o)
    (hid : s.ownsCommand x.read.commandId = false) : Leaves o s (Veyaan.rejectDecision x note) fun _ => True := by
  apply Confined.bind
  apply Confined.attempt
  · intro e
    cases e <;> trivial
  · apply (transitionCommand hid (by simp)).mono
    intro _ _
    exact finishDecision ho

theorem decideApproval {P : Params} {id o' : UUID} {approve : Bool} {nonce : String}
    {note : Option String} (ho : o' ≠ o) :
    Leaves o s (Veyaan.decideApproval P id o' approve nonce note) fun _ => True := by
  apply withSession
  apply Confined.bind
  apply select
  intro d hd
  cases ha : d.approvals.find id with
  | none => trivial
  | some a =>
    simp only
    by_cases hown : a.ownerId = o'
    · have hno : s.approvals.find id = none := by
        apply hd.no_approval
        intro a' ha'
        rw [ha] at ha'
        cases ha'
        exact hown ▸ ho
      have hcmd := hd.foreign_command ha (hown ▸ ho)
      rw [if_neg (not_not_intro hown)]
      split
      · apply seq columnValue
        intro _
        trivial
      · apply seq (effect fun _ => trivial)
        intro clock
        split
        · refine seq (updateApproval ?_ hno fun _ => trivial) ?_
          · intro _
            exact ⟨rfl, rfl⟩
          · intro _
            apply seq (commit trivial)
            intro _
            trivial
        · split
          · trivial
          · apply seq (effect fun _ => trivial)
            intro decidedAt
            refine seq (updateApproval ?_ hno fun _ => trivial) ?_
            · intro _
              exact ⟨rfl, rfl⟩
            · intro _
              split
              · apply seq isActive
                intro stopped
                apply seq (approveChecked ho hcmd)
                intro _
                trivial
              · apply seq (rejectDecision ho hcmd)
                intro _
                trivial
    · rw [if_pos hown]
      trivial

/-! ## Emergency stops -/

theorem updateStop {Q : Nat → Prop} {ks : List Key} {o' : UUID} {f : EmergencyStop → EmergencyStop}
    (ho : o' ≠ o) (hQ : ∀ n, Q n) :
    Leaves o s (Veyaan.execute ks (Veyaan.updateStop o' f)) Q := by
  apply execute
  intro d ws _ hf
  cases hr : d.stops.find o' with
  | none => simp [Veyaan.updateStop, hr] at hf
  | some r =>
    obtain ⟨-, -, -, rfl⟩ := (updateStop_ok hr).mp hf
    have hid : r.ownerId = o' := Table.key_of_find hr
    refine ⟨?_, hQ⟩
    intro w hw
    rw [List.mem_singleton.mp hw]
    exact hid ▸ ho

theorem writeStop {existing : Option EmergencyStop} {o' actor : UUID} {reason : String} (ho : o' ≠ o) :
    Leaves o s (Veyaan.writeStop existing o' reason actor) fun _ => True := by
  apply seq (effect fun _ => trivial)
  intro now
  split
  · apply seq (updateStop ho fun _ => trivial)
    intro _
    trivial
  · apply seq
    · apply execute
      intro d ws _ hf
      obtain ⟨-, -, -, rfl⟩ := insertStop_ok.mp hf
      exact ⟨by simpa [Write.Spares] using ho, fun _ => trivial⟩
    · intro _
      trivial

theorem blockAll {ids : List UUID} (h : ∀ id ∈ ids, s.ownsCommand id = false) :
    Leaves o s (Veyaan.blockAll ids) fun _ => True := by
  induction ids with
  | nil => trivial
  | cons id ids ih =>
    apply Confined.bind
    apply Confined.attempt
    · intro _
      exact ih fun i hi => h i (List.mem_cons_of_mem _ hi)
    · apply (transitionCommand (h id (List.mem_cons_self ..)) (by simp)).mono
      intro _ _
      exact ih fun i hi => h i (List.mem_cons_of_mem _ hi)

theorem blockCommands {o' : UUID} (ho : o' ≠ o) : Leaves o s (Veyaan.blockCommands o') fun _ => True := by
  apply Confined.bind
  apply Confined.call
  · trivial
  · intro devIds _
    split
    · trivial
    · apply Confined.bind
      apply Confined.call
      · trivial
      · rintro ids ⟨d, hd, rfl⟩
        apply blockAll
        intro id hid
        obtain ⟨c, hc, rfl⟩ := List.mem_map.mp hid
        obtain ⟨hc, hsel⟩ := List.mem_filter.mp hc
        simp only [Bool.and_eq_true, beq_iff_eq] at hsel
        have hfind : d.commands.find c.id = some c := Table.find_of_mem hc
        rw [hd.shows.find_command hfind, hd.shows.owns, hsel.1]
        simpa using ho

theorem activateRow {o' actor : UUID} {reason : String} (ho : o' ≠ o) (ha : actor ≠ o) :
    Leaves o s (Veyaan.activateRow o' reason actor) fun _ => True := by
  have hevent : s.concerns o .owner o' = false := by simpa [Slice.concerns] using ho
  have hfrom : ∀ existing, Leaves o s (activateRow.activateFrom o' reason actor existing) fun _ => True := by
    intro existing
    apply seq (writeStop ho)
    intro _
    apply seq (blockCommands ho)
    intro _
    apply seq (insertAudit ha fun _ => trivial)
    intro _
    apply seq (effect fun _ => trivial)
    intro now
    apply seq (addEvent hevent)
    intro _
    apply seq (commit trivial)
    intro _
    apply seq (select fun _ _ => trivial)
    intro _
    trivial
  apply Confined.bind
  apply selectForUpdate
  intro d _
  split
  · split
    · apply seq (effect fun _ => trivial)
      intro now
      apply seq (addEvent hevent)
      intro _
      apply seq (commit trivial)
      intro _
      trivial
    · exact hfrom _
  · exact hfrom _

theorem activate {o' actor : UUID} {reason : String} (ho : o' ≠ o) (ha : actor ≠ o) :
    Leaves o s (Veyaan.activate o' reason actor) fun _ => True := by
  apply seq (withSession (activateRow ho ha))
  intro r
  split
  · trivial
  · exact effect fun _ => trivial

theorem release {o' actor : UUID} (ho : o' ≠ o) (ha : actor ≠ o) :
    Leaves o s (Veyaan.release o' actor) fun _ => True := by
  apply seq
  · apply withSession
    apply Confined.bind
    apply selectForUpdate
    intro d _
    split
    · trivial
    · split
      · apply seq (effect fun _ => trivial)
        intro now
        apply seq (updateStop ho fun _ => trivial)
        intro _
        apply seq (insertAudit ha fun _ => trivial)
        intro _
        apply seq (effect fun _ => trivial)
        intro now'
        apply seq (addEvent (show s.concerns o .owner o' = false by simpa [Slice.concerns] using ho))
        intro _
        apply seq (commit trivial)
        intro _
        apply seq (select fun _ _ => trivial)
        intro _
        trivial
      · trivial
  · intro active
    split
    · exact effect fun _ => trivial
    · trivial

end Leaves

end

end Veyaan
