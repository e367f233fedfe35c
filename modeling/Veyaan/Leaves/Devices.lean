import Veyaan.Leaves.Services

/-!
# Devices of somebody else, and their messages

A pairing makes a new device for the user, a revocation finds the device to be his. A
message of a device is taken for a command that it names.
-/

namespace Veyaan

open Sys

section
variable {o : UUID} {s : Slice} {α : Type}

namespace Leaves

variable {Q : α → Prop}

/-! ## Devices -/

theorem startPairing {P : Params} {info : DeviceInfo} : Leaves o s (Veyaan.startPairing P info) fun _ => True := by
  apply withSession
  apply seq (effect fun _ => trivial)
  intro code
  apply seq (effect fun _ => trivial)
  intro now
  apply seq (effect fun _ => trivial)
  intro id
  apply seq
  · apply execute
    intro d ws hd hf
    obtain ⟨hn, -, -, rfl⟩ := insertPairing_ok.mp hf
    refine ⟨?_, fun _ => trivial⟩
    intro w hw
    rw [List.mem_singleton.mp hw]
    refine ⟨rfl, hd.no_pairing ?_⟩
    intro p hp
    rw [hn] at hp
    cases hp
  · intro _
    apply seq (select fun _ _ => trivial)
    intro _
    apply seq (commit trivial)
    intro _
    trivial

theorem updatePairing {Q : Nat → Prop} {ks : List Key} {id : UUID} {f : PairingRequest → PairingRequest}
    (hf : ∀ p, p.pairedBy o = false → (f p).pairedBy o = false) (hid : s.pairings.find id = none) (hQ : ∀ n, Q n) :
    Leaves o s (Veyaan.execute ks (Veyaan.updatePairing id f)) Q := by
  apply execute
  intro d ws hd hw
  unfold Veyaan.updatePairing at hw
  split at hw <;> cases hw
  rename_i p hp
  refine ⟨?_, hQ⟩
  intro w hw
  rw [List.mem_singleton.mp hw]
  have hpid : p.id = id := Table.key_of_find hp
  exact ⟨hf p (hd.pairing_foreign hp hid), hpid ▸ hid⟩

theorem refusePairing {t : Tag} {id : UUID} {f : PairingRequest → PairingRequest} {e : Err}
    (hf : ∀ p, p.pairedBy o = false → (f p).pairedBy o = false) (hid : s.pairings.find id = none) :
    Leaves o s (Veyaan.refusePairing (α := α) t id f e) fun _ => True := by
  apply seq (updatePairing hf hid fun _ => trivial)
  intro _
  apply seq (commit trivial)
  intro _
  trivial

theorem confirmDevice {P : Params} {x : Attempt} {o' : UUID} (ho : o' ≠ o)
    (hid : s.pairings.find x.read.id = none) :
    Leaves o s (Veyaan.confirmDevice P x o') fun _ => True := by
  apply seq (effect fun _ => trivial)
  intro dev
  refine seq (updatePairing (fun _ hp => hp) hid fun _ => trivial) ?_
  intro _
  apply Confined.bind
  apply execute
  intro d ws hd hf
  obtain ⟨hn, -, -, -, rfl⟩ := insertDevice_ok.mp hf
  have hdev : s.owns dev = false := hd.shows.no_device hn
  refine ⟨?_, ?_⟩
  · intro w hw
    rw [List.mem_singleton.mp hw]
    exact ⟨ho, hdev⟩
  intro _
  apply seq (effect fun _ => trivial)
  intro secret
  apply seq (effect fun _ => trivial)
  intro now
  apply seq (effect fun _ => trivial)
  intro confirmedAt
  apply seq (effect fun _ => trivial)
  intro cid
  apply seq
  · apply execute
    intro d' ws' hd' hf'
    unfold insertCredential at hf'
    split at hf'
    · cases hf'
    · rename_i hnew
      split at hf' <;> cases hf'
      refine ⟨?_, fun _ => trivial⟩
      intro w hw
      rw [List.mem_singleton.mp hw]
      refine ⟨hdev, hd'.no_credential ?_⟩
      intro r hr
      simp only [Bool.or_eq_true, not_or, Bool.not_eq_true] at hnew
      have := isSome_false hnew.1
      rw [hr] at this
      cases this
  intro _
  refine seq (updatePairing ?_ hid fun _ => trivial) ?_
  · intro p _
    simpa [PairingRequest.pairedBy] using ho
  intro _
  apply seq (insertAudit ho fun _ => trivial)
  intro _
  apply seq (commit trivial)
  intro _
  apply seq (select fun _ _ => trivial)
  intro _
  trivial

theorem confirmPairing {P : Params} {id o' : UUID} {code : String} (ho : o' ≠ o) :
    Leaves o s (Veyaan.confirmPairing P id o' code) fun _ => True := by
  apply withSession
  apply Confined.bind
  apply selectForUpdate
  intro d hd
  cases hp : d.pairings.find id with
  | none => trivial
  | some p =>
    simp only
    by_cases hst : p.status = .pending
    · have hno : s.pairings.find id = none := by
        apply hd.no_pairing
        intro p' hp'
        rw [hp] at hp'
        cases hp'
        simp [PairingRequest.pairedBy, hst]
      have hpid : p.id = id := Table.key_of_find hp
      rw [if_neg (not_not_intro hst)]
      apply seq (effect fun _ => trivial)
      intro now
      split
      · refine refusePairing ?_ hno
        intro _ _
        simp [PairingRequest.pairedBy]
      · split
        · refine refusePairing ?_ hno
          intro _ _
          simp [PairingRequest.pairedBy]
        · apply seq (effect fun _ => trivial)
          intro ok
          split
          · exact confirmDevice ho (hpid ▸ hno)
          · exact refusePairing (fun _ h => h) hno
    · rw [if_pos hst]
      apply seq columnValue
      intro _
      trivial

theorem revokeDevice {dev o' : UUID} (ho : o' ≠ o) : Leaves o s (Veyaan.revokeDevice dev o') fun _ => True := by
  apply withSession
  apply Confined.bind
  apply select
  intro d hd
  cases hr : (d.devices.find dev).filter (·.ownerId == o') with
  | none => trivial
  | some r =>
    obtain ⟨hr, hown⟩ := Option.filter_eq_some_iff.mp hr
    have hno : s.owns dev = false := hd.foreign_device hr (by rw [beq_iff_eq.mp hown]; exact ho)
    apply seq (effect fun _ => trivial)
    intro revokedAt
    apply seq (effect fun _ => trivial)
    intro now
    apply seq
    · apply execute
      intro d' ws hd' hf
      unfold updateDevice at hf
      split at hf <;> cases hf
      rename_i r' hr'
      refine ⟨?_, fun _ => trivial⟩
      intro w hw
      rw [List.mem_singleton.mp hw]
      have hid : r'.id = dev := Table.key_of_find hr'
      refine ⟨?_, hid ▸ hno⟩
      intro heq
      have hown' := hd'.shows.owns dev
      have hsame : r'.ownerId = o := heq
      rw [hno, DB.ownerOf, hr', Option.map_some, hsame] at hown'
      simp at hown'
    intro _
    apply seq
    · apply Confined.call
      · intro d' ws hd' hf
        cases hf
        intro w hw
        obtain ⟨r', hmem, rfl⟩ := List.mem_map.mp hw
        obtain ⟨hmem, hdev⟩ := List.mem_filter.mp hmem
        have hrd : s.owns r'.deviceId = false := by rw [beq_iff_eq.mp hdev]; exact hno
        refine ⟨hrd, hd'.no_credential ?_⟩
        intro x hx
        have hfind : d'.credentials.find r'.id = some r' := Table.find_of_mem hmem
        simp only at hx
        rw [hfind] at hx
        cases hx
        exact hrd
      · intro _ _
        trivial
    intro _
    apply seq (insertAudit ho fun _ => trivial)
    intro _
    apply seq (addEvent (show s.concerns o .device dev = false from hno))
    intro _
    apply seq (commit trivial)
    intro _
    trivial

/-! ## Messages and connections -/

theorem updateTaskState {id : UUID} {state : TaskState} {summary code message : Option String}
    (hid : s.ownsCommand id = false) :
    Leaves o s (Veyaan.updateTaskState id state summary code message) fun _ => True := by
  apply seq (selectForUpdate fun _ _ => trivial)
  intro t
  split
  · trivial
  · apply seq
    · apply execute
      intro d ws _ hf
      unfold updateTask at hf
      split at hf
      · cases hf
      · rename_i t' ht
        split at hf <;> cases hf
        have htid : t'.commandId = id := Table.key_of_find ht
        refine ⟨?_, fun _ => trivial⟩
        intro w hw
        rw [List.mem_singleton.mp hw]
        exact htid ▸ hid
    · intro _
      trivial

theorem handleOnce {kind : Lifecycle} {p : LifecyclePayload} {body : Command → Op Unit} {after : UUID → Op Unit}
    (hp : ∀ id, p.commandId = some id → s.ownsCommand id = false)
    (hbody : ∀ c, s.ownsCommand c.id = false → Leaves o s (body c) fun _ => True)
    (hafter : ∀ id, s.ownsCommand id = false → Leaves o s (after id) fun _ => True) :
    Leaves o s (Veyaan.handleOnce kind p body after) fun _ => True := by
  unfold Veyaan.handleOnce
  split
  · trivial
  · rename_i id hid
    have hno := hp id hid
    apply withSession
    apply seq
    · apply seq (select fun _ _ => trivial)
      intro l
      split <;> trivial
    intro dup
    split
    · trivial
    · apply Confined.bind
      apply selectForUpdate
      intro d _
      cases hc : d.commands.find id with
      | none => trivial
      | some c =>
        have hcid : c.id = id := Table.key_of_find hc
        simp only
        split
        · trivial
        · apply Confined.bind
          apply Confined.attempt
          · intro e
            cases e <;> trivial
          · apply (hbody c (hcid ▸ hno)).mono
            intro _ _
            apply seq (hafter id hno)
            intro _
            exact commit trivial

theorem handler {kind : Lifecycle} {p : LifecyclePayload}
    (hp : ∀ id, p.commandId = some id → s.ownsCommand id = false) :
    Leaves o s (Veyaan.handler kind p) fun _ => True := by
  have hmove : ∀ {c : Command} {new : CommandState} {source : Source} {m : Option Metadata},
    s.ownsCommand c.id = false →
      Leaves o s (Veyaan.transitionCommand (some c) c.id new source m) fun _ => True := by
    intro c new source m hc
    refine (transitionCommand hc ?_).mono fun _ _ => trivial
    simpa using hc
  cases kind with
  | delivered =>
    refine handleOnce hp ?_ fun id hid => updateTaskState hid
    intro c hc
    apply seq (hmove hc)
    intro _
    trivial
  | acknowledged =>
    refine handleOnce hp ?_ fun id _ => trivial
    intro c hc
    split
    · apply seq (hmove hc)
      intro _
      trivial
    · apply seq (hmove hc)
      intro _
      exact updateTaskState hc
  | progress =>
    show Leaves o s (handleProgress p) _
    unfold handleProgress
    split
    · trivial
    · rename_i id hid
      have hno := hp id hid
      apply withSession
      apply Confined.bind
      apply selectForUpdate
      intro d _
      cases hc : d.commands.find id with
      | none => trivial
      | some c =>
        have hcid : c.id = id := Table.key_of_find hc
        have hfirst : ∀ x ∈ some c, s.ownsCommand x.id = false := by
          intro x hx
          cases hx
          exact hcid ▸ hno
        simp only
        split
        · apply Confined.bind
          apply Confined.attempt
          · intro e
            cases e <;> first | trivial | exact commit trivial
          · apply Confined.bind
            apply (transitionCommand hno hfirst).mono
            intro _ _
            apply (updateTaskState hno).mono
            intro _ _
            exact commit trivial
        · exact commit trivial
  | result =>
    refine handleOnce hp ?_ fun id _ => trivial
    intro c hc
    split
    · apply seq (hmove hc)
      intro _
      exact updateTaskState hc
    · apply seq (hmove hc)
      intro _
      exact updateTaskState hc

theorem consume {kind : Lifecycle} {id : UUID} {p : LifecyclePayload}
    (hp : ∀ id, p.commandId = some id → s.ownsCommand id = false) :
    Leaves o s (Veyaan.consume kind id p) fun _ => True := by
  apply Confined.bind
  apply Confined.attempt
  · intro e
    exact effect fun _ => trivial
  · apply (handler hp).mono
    intro _ _
    exact effect fun _ => trivial

theorem fresh {Q : α → Prop} {t : Option Label} {q : DB → α} (hQ : ∀ a, Q a) :
    Leaves o s (Prog.call (.fresh t q)) Q := by
  apply Confined.call
  · trivial
  · intro b _
    exact hQ b

theorem deliverable {id dev : UUID} : Leaves o s (Veyaan.deliverable id dev) fun _ => True := by
  apply seq (fresh fun _ => trivial)
  intro c
  split
  · trivial
  · split
    · trivial
    · split
      · trivial
      · split
        · trivial
        · apply seq (effect fun _ => trivial)
          intro _
          trivial

theorem sendCommand {conn : DeviceConnection} {p : ReadyPayload} :
    Leaves o s (Veyaan.sendCommand conn p) fun _ => True := by
  apply seq (effect fun _ => trivial)
  intro traceId
  split
  · trivial
  · apply seq (effect fun _ => trivial)
    intro sent
    split
    · apply seq (effect fun _ => trivial)
      intro _
      exact effect fun _ => trivial
    · exact effect fun _ => trivial

theorem natsListener {conn : DeviceConnection} {p : ReadyPayload} :
    Leaves o s (Veyaan.natsListener conn p) fun _ => True := by
  apply seq (effect fun _ => trivial)
  intro _
  apply Confined.bind
  apply Confined.attempt
  · intro e
    exact effect fun _ => trivial
  · apply seq isActive
    intro stopped
    unfold deliverChecked
    split
    · refine (effect fun _ => trivial : Leaves o s _ fun _ => True).mono fun _ _ => trivial
    · apply seq
      · apply Confined.bind
        apply Confined.attempt
        · intro e
          trivial
        · exact deliverable.mono fun _ _ => trivial
      · intro ok
        split
        · exact sendCommand.mono fun _ _ => trivial
        · exact effect fun _ => trivial

theorem handleDeviceMessage {conn : DeviceConnection} {f : Frame} :
    Leaves o s (Veyaan.handleDeviceMessage conn f) fun _ => True := by
  apply seq (effect fun _ => trivial)
  intro _
  apply Confined.bind
  apply Confined.attempt
  · intro e
    trivial
  · refine (?_ : Leaves o s (handleFrame conn f) fun _ => True).mono fun _ _ => trivial
    unfold handleFrame
    split
    · apply seq
      · apply Confined.bind
        apply Confined.attempt
        · intro e
          trivial
        · exact fresh fun a => by cases a <;> trivial
      · intro own
        split
        · exact effect fun _ => trivial
        · trivial
    · split
      · exact effect fun _ => trivial
      · exact effect fun _ => trivial
      · trivial

end Leaves

end

end Veyaan
