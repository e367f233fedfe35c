import Veyaan.Locks.Base

/-!
# The locks of devices and messages

A pairing request is locked before its device, the device before its credentials. A
message of a device locks the command and then its task; the gateway locks nothing.
-/

namespace Veyaan

open Sys LockOrder

namespace Locks

variable {P : Params} {strict : Bool} {n : Nat} {L : List Key}

/-! ## Pairing -/

theorem startPairing {info : DeviceInfo} : Locks P strict 0 [] (Veyaan.startPairing P info) fun _ n _ => n = 0 := by
  apply withSession
  · apply seq (effect fun _ => upto_self)
    intro code
    apply seq (effect fun _ => upto_self)
    intro now
    apply seq (effect fun _ => upto_self)
    intro id
    apply seq (m := 1) (M := [])
    · apply writeRow (k := .pairing id) (by decide) (.inr fun _ => ⟨Nat.one_pos, Nat.le_refl 1⟩)
      intro d ws hf w hw
      obtain ⟨-, -, -, rfl⟩ := insertPairing_ok.mp hf
      rw [List.mem_singleton.mp hw]
      exact ⟨rfl, trivial⟩
    intro _
    apply seq (select fun _ => upto_self)
    intro _
    apply seq commits
    intro _
    exact orders_ret trivial
  · exact fun _ => rfl

theorem updatePairing {id : UUID} {f : PairingRequest → PairingRequest} (hk : .pairing id ∈ L) :
    Locks P strict n L (Veyaan.execute [.pairing id] (Veyaan.updatePairing id f)) (Upto n L) := by
  apply writeRow (Nat.le_refl n) (.inl hk)
  intro d ws hf w hw
  unfold Veyaan.updatePairing at hf
  split at hf <;> cases hf
  rename_i p hp
  have hid : p.id = id := Table.key_of_find hp
  rw [List.mem_singleton.mp hw]
  exact ⟨by simp [Write.keys, hid], trivial⟩

theorem refusePairing {α : Type} {t : Tag} {id : UUID} {f : PairingRequest → PairingRequest}
    {e : Err} (hk : .pairing id ∈ L) :
    Locks P strict n L (Veyaan.refusePairing (α := α) t id f e) fun _ _ _ => True := by
  apply seq (updatePairing hk)
  intro _
  apply seq commits
  intro _
  exact orders_throw trivial

theorem confirmDevice {x : Attempt} {ownerId : UUID} (hk : .pairing x.read.id ∈ L) (hn : n < 8) :
    Locks P strict n L (Veyaan.confirmDevice P x ownerId) fun _ _ _ => True := by
  apply seq (effect fun _ => upto_self)
  intro dev
  apply seq (updatePairing hk)
  intro _
  apply seq (m := 8) (M := L)
  · apply writeRow (k := .device dev) (Nat.le_of_lt hn) (.inr fun _ => ⟨hn, Nat.le_refl 8⟩)
    intro d ws hf w hw
    obtain ⟨-, -, -, -, rfl⟩ := insertDevice_ok.mp hf
    rw [List.mem_singleton.mp hw]
    exact ⟨rfl, trivial⟩
  intro _
  apply seq (effect fun _ => upto_self)
  intro secret
  apply seq (effect fun _ => upto_self)
  intro now
  apply seq (effect fun _ => upto_self)
  intro confirmedAt
  apply seq (effect fun _ => upto_self)
  intro cid
  apply seq (m := 9) (M := L)
  · apply writeRow (k := .credential cid) (by decide) (.inr fun _ => ⟨Nat.lt_succ_self 8, Nat.le_refl 9⟩)
    intro d ws hf w hw
    unfold insertCredential at hf
    split at hf
    · cases hf
    · split at hf <;> cases hf
      rw [List.mem_singleton.mp hw]
      exact ⟨rfl, trivial⟩
  intro _
  apply seq (updatePairing hk)
  intro _
  apply seq insertAudit
  intro _
  apply seq commits
  intro _
  apply seq (select fun _ => upto_self)
  intro _
  exact orders_ret trivial

theorem confirmPairing {id ownerId : UUID} {code : String} :
    Locks P strict 0 [] (Veyaan.confirmPairing P id ownerId code) fun _ n _ => n = 0 := by
  apply withSession
  · apply orders_bind
    apply selectForUpdate (m := 1)
    · trivial
    · exact fun d _ _ => Over.of_lt fun k _ => lockLevel_pos d k
    · exact orders_throw trivial
    · decide
    · intro d p hp
      have hid : p.id = id := Table.key_of_find hp
      have hmem : Key.pairing id ∈ [Key.pairing p.id] := by rw [hid]; exact List.mem_singleton_self _
      refine ⟨Nat.le_refl 1, ?_⟩
      simp only
      split
      · apply seq columnValue
        intro _
        exact orders_throw trivial
      · apply seq (effect fun _ => upto_self)
        intro now
        split
        · exact refusePairing hmem
        · split
          · exact refusePairing hmem
          · apply seq (effect fun _ => upto_self)
            intro ok
            split
            · exact confirmDevice (List.mem_singleton_self _) (by decide)
            · exact refusePairing hmem
  · exact fun _ => rfl

theorem revokeCredentials {dev : UUID} {now : Time} (hn : n < 9) :
    Locks P strict n L (Veyaan.revokeCredentials dev now) (Upto 9 L) := by
  apply stmtAll hn
  · exact fun _ => rfl
  · exact fun _ _ _ => ⟨rfl, trivial⟩

theorem revokeDevice {dev ownerId : UUID} : Locks P strict 0 [] (Veyaan.revokeDevice dev ownerId)
    fun _ n _ => n = 0 := by
  apply withSession
  · apply seq (select fun _ => upto_self)
    intro device
    split
    · exact orders_ret trivial
    · apply seq (effect fun _ => upto_self)
      intro revokedAt
      apply seq (effect fun _ => upto_self)
      intro now
      apply seq (m := 8) (M := [])
      · apply writeRow (k := .device dev) (by decide) (.inr fun _ => ⟨show 0 < 8 by decide, Nat.le_refl 8⟩)
        intro d ws hf w hw
        unfold updateDevice at hf
        split at hf <;> cases hf
        rename_i r hr
        have hid : r.id = dev := Table.key_of_find hr
        rw [List.mem_singleton.mp hw]
        exact ⟨by simp [Write.keys, hid], trivial⟩
      intro _
      apply seq (revokeCredentials (by decide))
      intro _
      apply seq insertAudit
      intro _
      apply seq (addEvent (by decide))
      intro _
      apply seq commits
      intro _
      exact orders_ret trivial
  · exact fun _ => rfl

/-! ## Messages -/

theorem updateTaskState {id : UUID} {state : TaskState} {summary code message : Option String} (hn : n < 6) :
    Locks P strict n L (Veyaan.updateTaskState id state summary code message) (Upto 6 L) := by
  apply orders_bind
  apply selectForUpdate (m := 6)
  · exact ⟨Nat.le_of_lt hn, fun _ h => h⟩
  · refine fun d t _ => Over.of_lt fun k hk => ?_
    rw [List.mem_singleton.mp hk]
    exact hn
  · exact orders_ret ⟨Nat.le_of_lt hn, fun _ h => h⟩
  · exact Nat.le_of_lt hn
  · intro d t ht
    have hid : t.commandId = id := Table.key_of_find ht
    refine ⟨Nat.le_refl 6, ?_⟩
    have hmem : Key.task id ∈ .task t.commandId :: L := by rw [hid]; exact List.mem_cons_self ..
    simp only
    refine orders_upto (updateTask (.inl hmem)) ?_ (Nat.le_refl 6) fun k hk => List.mem_cons_of_mem _ hk
    intro _
    exact orders_ret ⟨Nat.le_refl 6, fun k hk => List.mem_cons_of_mem _ hk⟩

theorem handleOnce {kind : Lifecycle} {p : LifecyclePayload} {body : Command → Op Unit}
    {after : UUID → Op Unit} {m : Nat} (hbody : ∀ c, Locks P strict 5 [.command c.id] (body c) (Upto m []))
    (hafter : ∀ id, Locks P strict m [] (after id) (Upto 6 [])) :
    Locks P strict 0 [] (Veyaan.handleOnce kind p body after) fun _ n _ => n = 0 := by
  unfold Veyaan.handleOnce
  split
  · exact orders_ret rfl
  · rename_i id _
    apply withSession
    · apply seq (m := 0) (M := [])
      · apply still (select fun _ => upto_self)
        intro l
        split
        · exact orders_ret upto_self
        · exact orders_ret upto_self
        · exact orders_throw upto_self
      intro dup
      split
      · exact orders_ret trivial
      · apply orders_bind
        apply lockForMessage
        · trivial
        · exact orders_ret trivial
        · intro c _
          show Locks P strict 5 [.command c.id] (if p.deviceId.any (c.deviceId ≠ ·) then _ else _) _
          split
          · exact orders_ret trivial
          · apply seq (orders_attempt (hbody c))
            intro r
            split
            · exact orders_ret trivial
            · exact orders_throw trivial
            · apply seq (hafter id)
              intro _
              exact commits.mono fun _ _ _ _ => trivial
    · exact fun _ => rfl

theorem handler {kind : Lifecycle} {p : LifecyclePayload} :
    Locks P strict 0 [] (Veyaan.handler kind p) fun _ n _ => n = 0 := by
  have hmove : ∀ {c : Command} {new : CommandState} {source : Source} {md : Option Metadata}
    {f : Option Command → Op Unit} {m : Nat},
      5 ≤ m → (∀ r, Locks P strict 5 [.command c.id] (f r) (Upto m [])) →
        Locks P strict 5 [.command c.id] ((Veyaan.transitionCommand (some c) c.id new source md).bind
            f) (Upto m []) := by
    intro c new source md f m hm hf
    refine move (List.mem_singleton_self _) (Nat.le_refl 5) (by simp) (fun r _ => hf r) ?_
    exact fun _ _ _ hn _ => ⟨Nat.le_trans hn hm, nofun⟩
  have hreturn : ∀ {n m : Nat} {L : List Key}, n ≤ m → Locks P strict n L (Prog.ret ()) (Upto m []) :=
    fun hn => orders_ret ⟨hn, nofun⟩
  have htask : ∀ {n : Nat} {L : List Key} {id : UUID} {state : TaskState} {summary code message : Option String},
    n < 6 →
      Locks P strict n L (Veyaan.updateTaskState id state summary code message) (Upto 6 []) :=
    fun hn => (updateTaskState hn).mono fun _ _ _ h => ⟨h.1, nofun⟩
  cases kind with
  | delivered =>
    refine handleOnce (m := 5) ?_ fun _ => htask (by decide)
    intro c
    exact hmove (Nat.le_refl 5) fun _ => hreturn (Nat.le_refl 5)
  | acknowledged =>
    refine handleOnce (m := 6) ?_ fun _ => hreturn (Nat.le_refl 6)
    intro c
    split
    · exact hmove (by decide) fun _ => hreturn (by decide)
    · exact hmove (by decide) fun _ => htask (by decide)
  | progress =>
    show Locks P strict 0 [] (handleProgress p) _
    unfold handleProgress
    split
    · exact orders_ret rfl
    · rename_i id _
      apply withSession
      · apply orders_bind
        apply lockForMessage
        · trivial
        · exact orders_ret trivial
        · intro c hc
          simp only
          split
          · have hbody : Locks P strict 5 [.command c.id] (do
                let _ ← Veyaan.transitionCommand (some c) id .running .device
                  (some { dedupKey := some ⟨.progress, id⟩ })
                Veyaan.updateTaskState id .running none none none) (Upto 6 []) := by
              rw [← hc]
              exact hmove (by decide) fun _ => htask (by decide)
            apply seq (orders_attempt hbody)
            intro r
            split
            · exact commits.mono fun _ _ _ _ => trivial
            · exact orders_throw trivial
            · exact commits.mono fun _ _ _ _ => trivial
          · exact commits.mono fun _ _ _ _ => trivial
      · exact fun _ => rfl
  | result =>
    refine handleOnce (m := 6) ?_ fun _ => hreturn (Nat.le_refl 6)
    intro c
    split
    · exact hmove (by decide) fun _ => htask (by decide)
    · exact hmove (by decide) fun _ => htask (by decide)

theorem consume {kind : Lifecycle} {id : UUID} {p : LifecyclePayload} :
    Locks P strict 0 [] (Veyaan.consume kind id p) fun _ n _ => n = 0 := by
  apply orders_bind
  apply orders_attempt
  refine handler.mono fun r n L hn => ?_
  cases r with
  | ok _ => exact effect fun _ => hn
  | error _ => exact effect fun _ => hn

/-! ## The gateway -/

theorem deliverable {id dev : UUID} : Locks P strict n L (Veyaan.deliverable id dev) (Upto n L) := by
  apply still (orders_fresh fun _ => upto_self)
  intro c
  split
  · exact orders_ret upto_self
  · split
    · exact orders_ret upto_self
    · split
      · exact orders_ret upto_self
      · split
        · exact orders_ret upto_self
        · exact still (effect fun _ => upto_self) fun _ => orders_ret upto_self

theorem preDeliveryCheck {id dev : UUID} : Locks P strict n L (Veyaan.preDeliveryCheck id dev) (Upto n L) := by
  apply still (orders_attempt deliverable)
  intro r
  split
  · exact orders_ret upto_self
  · exact orders_ret upto_self

theorem sendCommand {conn : DeviceConnection} {p : ReadyPayload} :
    Locks P strict n L (Veyaan.sendCommand conn p) (Upto n L) := by
  apply still (effect fun _ => upto_self)
  intro traceId
  split
  · exact orders_throw upto_self
  · apply still (effect fun _ => upto_self)
    intro sent
    split
    · exact still (effect fun _ => upto_self) fun _ => effect fun _ => upto_self
    · exact effect fun _ => upto_self

theorem natsListener {conn : DeviceConnection} {p : ReadyPayload} :
    Locks P strict n L (Veyaan.natsListener conn p) (Upto n L) := by
  apply still (effect fun _ => upto_self)
  intro _
  refine still (orders_attempt (Q := Upto n L) ?_) ?_
  · apply still isActive
    intro stopped
    unfold deliverChecked
    split
    · exact effect fun _ => upto_self
    · apply still preDeliveryCheck
      intro ok
      split
      · exact sendCommand
      · exact effect fun _ => upto_self
  · intro r
    split
    · exact orders_ret upto_self
    · exact effect fun _ => upto_self

theorem commandBelongsToDevice {id dev : UUID} :
    Locks P strict n L (Veyaan.commandBelongsToDevice id dev) (Upto n L) := by
  apply still (orders_attempt (orders_fresh fun _ => upto_self))
  intro r
  split
  · exact orders_ret upto_self
  · exact orders_ret upto_self
  · exact orders_ret upto_self

theorem handleDeviceMessage {conn : DeviceConnection} {f : Frame} :
    Locks P strict n L (Veyaan.handleDeviceMessage conn f) (Upto n L) := by
  apply still (effect fun _ => upto_self)
  intro _
  refine still (orders_attempt (Q := Upto n L) ?_) fun _ => orders_ret upto_self
  unfold handleFrame
  split
  · apply still commandBelongsToDevice
    intro own
    split
    · exact effect fun _ => upto_self
    · exact orders_ret upto_self
  · split
    · exact effect fun _ => upto_self
    · exact effect fun _ => upto_self
    · exact orders_ret upto_self

end Locks

end Veyaan
