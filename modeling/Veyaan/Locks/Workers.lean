import Veyaan.Locks.Base

/-!
# The locks of stops and workers

An activation and a batch of the publisher lock the commands that they block one after
another, in no order. The scheduler does not wait for commands and tasks.
-/

namespace Veyaan

open Sys LockOrder

namespace Locks

variable {P : Params} {strict : Bool} {n : Nat} {L : List Key}

/-! ## Emergency stops -/

theorem updateStop {ownerId : UUID} {f : EmergencyStop → EmergencyStop} (hn : n ≤ 3)
    (hk : .stop ownerId ∈ L ∨ n < 3) :
    Locks P strict n L (Veyaan.execute [.stop ownerId] (Veyaan.updateStop ownerId f)) (Upto 3 L) := by
  apply writeRow (k := .stop ownerId) hn (hk.imp_right fun hk _ => ⟨hk, Nat.le_refl 3⟩)
  intro d ws hf w hw
  cases hs : d.stops.find ownerId with
  | none => simp [Veyaan.updateStop, hs] at hf
  | some s =>
    obtain ⟨-, -, -, rfl⟩ := (updateStop_ok hs).mp hf
    have hid : s.ownerId = ownerId := Table.key_of_find hs
    rw [List.mem_singleton.mp hw]
    exact ⟨by simp [Write.keys, hid], trivial⟩

theorem writeStop {existing : Option EmergencyStop} {ownerId actor : UUID} {reason : String} (hn : n ≤ 3)
    (hk : .stop ownerId ∈ L ∨ n < 3) : Locks P strict n L
    (Veyaan.writeStop existing ownerId reason actor) (Upto 3 L) := by
  refine orders_upto (effect fun _ => upto_self) ?_ hn fun _ h => h
  intro now
  split
  · exact still (updateStop hn hk) fun _ => orders_ret upto_self
  · refine still ?_ fun _ => orders_ret upto_self
    apply writeRow (k := .stop ownerId) hn (hk.imp_right fun hk _ => ⟨hk, Nat.le_refl 3⟩)
    intro d ws hf w hw
    obtain ⟨-, -, -, rfl⟩ := insertStop_ok.mp hf
    rw [List.mem_singleton.mp hw]
    exact ⟨rfl, trivial⟩

/-- Commands are blocked one after another: they all have the same level. -/
theorem blockCommand {loaded : Option Command} {id : UUID} {source : Source} (hl : ∀ c ∈ loaded, c.id = id) :
    Locks P false 5 L (Veyaan.transitionCommand loaded id .blockedByEmergencyStop source
      none).attempt (Upto 5 L) := by
  apply orders_attempt
  refine (transitionCommand ?_ (Nat.le_refl 5) (Nat.le_refl 5) hl).mono fun _ _ _ h => ⟨h.upto, h.keeps⟩
  intro d k hk
  rw [List.mem_singleton.mp hk]
  exact .inr (Nat.le_refl 5)

theorem blockAll {ids : List UUID} : Locks P false 5 L (Veyaan.blockAll ids) (Upto 5 L) := by
  induction ids with
  | nil => exact orders_ret upto_self
  | cons id ids ih => exact still (blockCommand (by simp)) fun _ => ih

theorem blockCommands {ownerId : UUID} (hn : n ≤ 5) :
    Locks P false n L (Veyaan.blockCommands ownerId) (Upto 5 L) := by
  apply still (orders_read fun _ => ⟨hn, fun _ h => h⟩)
  intro devs
  split
  · exact orders_ret upto_self
  · apply still (orders_read fun _ => upto_self)
    intro ids
    exact blockAll

theorem lockStop {Q : Except Err (Option EmergencyStop) → Nat → List Key → Prop}
    {ownerId : UUID} (hE : Q (.error .db) 0 [])
    (hnone : Q (.ok none) 0 []) (hsome : ∀ s, Q (.ok (some s)) 3 [.stop ownerId]) :
    Locks P strict 0 [] (Veyaan.selectForUpdate (fun d => d.stops.find ownerId) fun s => .stop s.ownerId) Q := by
  apply selectForUpdate (m := 3) hE
  · exact fun d _ _ => Over.of_lt fun k _ => lockLevel_pos d k
  · exact hnone
  · decide
  · intro d s hs
    have hid : s.ownerId = ownerId := Table.key_of_find hs
    rw [hid]
    exact ⟨Nat.le_refl 3, hsome s⟩

theorem activateRow {ownerId actor : UUID} {reason : String} :
    Locks P false 0 [] (Veyaan.activateRow ownerId reason actor) fun _ _ _ => True := by
  have hfrom : ∀ existing n L, n ≤ 3 → (.stop ownerId ∈ L ∨ n < 3) →
      Locks P false n L (activateRow.activateFrom ownerId reason actor existing) fun _ _ _ => True := by
    intro existing n L hn hk
    apply seq (writeStop hn hk)
    intro _
    apply seq (blockCommands (by decide))
    intro _
    apply seq insertAudit
    intro _
    apply seq (effect fun _ => upto_self)
    intro now
    apply seq (addEvent (by decide))
    intro _
    apply seq commits
    intro _
    apply seq (select fun _ => upto_self)
    intro _
    exact orders_ret trivial
  apply orders_bind
  apply lockStop
  · trivial
  · exact hfrom none 0 [] (by decide) (.inr (by decide))
  · intro s
    show Locks P false 3 [.stop ownerId] (if s.active then _ else _) _
    split
    · apply seq (effect fun _ => upto_self)
      intro now
      apply seq (addEvent (by decide))
      intro _
      apply seq commits
      intro _
      exact orders_ret trivial
    · exact hfrom (some s) 3 _ (Nat.le_refl 3) (.inl (List.mem_singleton_self _))

theorem activate {ownerId actor : UUID} {reason : String} :
    Locks P false 0 [] (Veyaan.activate ownerId reason actor) fun _ n _ => n = 0 := by
  apply orders_bind
  apply withSession activateRow
  intro r
  cases r with
  | error _ => rfl
  | ok r =>
    cases r with
    | none => exact orders_ret rfl
    | some s => exact effect fun _ => rfl

theorem releaseRow {ownerId actor : UUID} : Locks P strict 0 [] (Veyaan.releaseRow ownerId actor)
    fun _ _ _ => True := by
  apply orders_bind
  apply lockStop
  · trivial
  · exact orders_ret trivial
  · intro s
    show Locks P strict 3 [.stop ownerId] (if s.active then _ else _) _
    split
    · apply seq (effect fun _ => upto_self)
      intro now
      apply seq (updateStop (Nat.le_refl 3) (.inl (List.mem_singleton_self _)))
      intro _
      apply seq insertAudit
      intro _
      apply seq (effect fun _ => upto_self)
      intro now'
      apply seq (addEvent (by decide))
      intro _
      apply seq commits
      intro _
      apply seq (select fun _ => upto_self)
      intro _
      exact orders_ret trivial
    · exact orders_ret trivial

theorem release {ownerId actor : UUID} : Locks P strict 0 [] (Veyaan.release ownerId actor) fun _ n _ => n = 0 := by
  apply orders_bind
  apply withSession releaseRow
  intro r
  cases r with
  | error _ => rfl
  | ok active =>
    cases active with
    | false => exact orders_ret rfl
    | true => exact effect fun _ => rfl

/-! ## The publisher -/

theorem updateOutbox {id : UUID} {f : OutboxEvent → OutboxEvent} (hk : .outbox id ∈ L) :
    Locks P strict n L (Veyaan.execute [.outbox id] (Veyaan.updateOutbox id f)) (Upto n L) := by
  apply writeRow (Nat.le_refl n) (.inl hk)
  intro d ws hf w hw
  unfold Veyaan.updateOutbox at hf
  split at hf <;> cases hf
  · cases hw
  · rename_i e he
    have hid : e.id = id := Table.key_of_find he
    rw [List.mem_singleton.mp hw]
    refine ⟨by simp [Write.keys, hid], ?_⟩
    show (d.outbox.find e.id).isSome = true
    rw [hid, he]
    rfl

theorem markFailed {id : UUID} (hk : .outbox id ∈ L) : Locks P strict n L (Veyaan.markFailed id) (Upto n L) :=
  still (updateOutbox hk) fun _ => orders_ret upto_self

theorem markPublished {id : UUID} (hk : .outbox id ∈ L) :
    Locks P strict n L (Veyaan.markPublished id) (Upto n L) := by
  apply still (effect fun _ => upto_self)
  intro now
  exact still (updateOutbox hk) fun _ => orders_ret upto_self

theorem incrementAttempt {id : UUID} (hk : .outbox id ∈ L) :
    Locks P strict n L (Veyaan.incrementAttempt id) (Upto n L) :=
  still (updateOutbox hk) fun _ => orders_ret upto_self

theorem publishReady {e : OutboxEvent} (hk : .outbox e.id ∈ L) :
    Locks P strict n L (Veyaan.publishReady e) (Upto n L) := by
  apply still (effect fun _ => upto_self)
  intro _
  exact still (markPublished hk) fun _ => orders_ret upto_self

theorem enforceStop {e : OutboxEvent} {c : Command} (hk : .outbox e.id ∈ L) :
    Locks P false 5 L (Veyaan.enforceStop P e c) (Upto 5 L) := by
  apply still (blockCommand (by simp))
  intro r
  cases r with
  | ok _ => exact markFailed hk
  | error _ => exact still logKeywords fun _ => markFailed hk

theorem publishEvent {e : OutboxEvent} (hk : .outbox e.id ∈ L) :
    Locks P false 5 L (Veyaan.publishEvent P e) (Upto 5 L) := by
  unfold Veyaan.publishEvent
  split
  · apply still (select fun _ => upto_self)
    intro c
    split
    · exact publishReady hk
    · apply still (select fun _ => upto_self)
      intro device
      split
      · exact publishReady hk
      · apply still isActive
        intro stopped
        unfold publishChecked
        split
        · exact still (enforceStop hk) fun _ => orders_ret upto_self
        · exact publishReady hk
  · exact publishReady hk

theorem processEvent {e : OutboxEvent} (hk : .outbox e.id ∈ L) :
    Locks P false 5 L (Veyaan.processEvent P e) (Upto 5 L) := by
  apply still (orders_attempt (publishEvent hk))
  intro r
  split
  · exact orders_ret upto_self
  · apply still logKeywords
    intro _
    simp only
    split
    · exact still (markFailed hk) fun _ => orders_ret upto_self
    · exact still (incrementAttempt hk) fun _ => orders_ret upto_self

theorem processEvents {es : List OutboxEvent} (hk : ∀ e ∈ es, .outbox e.id ∈ L) :
    Locks P false 5 L (Veyaan.processEvents P es) (Upto 5 L) := by
  induction es with
  | nil => exact orders_ret upto_self
  | cons e es ih =>
    apply still (processEvent (hk e (List.mem_cons_self ..)))
    intro m
    apply still (ih fun e he => hk e (List.mem_cons_of_mem _ he))
    intro k
    exact orders_ret upto_self

theorem processBatch : Locks P false 0 [] (Veyaan.processBatch P) fun _ n _ => n = 0 := by
  have hrows : ∀ es : List OutboxEvent, Locks P false 4 (es.map (fun e => .outbox e.id) ++ [])
      (if es.isEmpty then return 0 else do
        let published ← Veyaan.processEvents P es
        Veyaan.commit .batch
        return published) fun _ _ _ => True := by
    intro es
    split
    · exact orders_ret trivial
    · apply seq
      · refine (processEvents fun e he => ?_).weaken (show 4 ≤ 5 by decide) fun k hk => hk
        exact List.mem_append_left _ (List.mem_map_of_mem he)
      · intro published
        apply seq commits
        intro _
        exact orders_ret trivial
  apply withSession
  · apply orders_bind
    apply orders_bind
    apply effect
    intro now
    cases now with
    | error _ => trivial
    | ok now =>
      apply orders_skipLocked (m := 4)
      · trivial
      · decide
      · intro d es hes
        refine ⟨fun k hk => ?_, hrows es⟩
        obtain ⟨e, he, rfl⟩ := List.mem_map.mp hk
        have hmem := (List.mem_filter.mp (hes.subset he)).1
        have hfind : d.outbox.find e.id = some e := Table.find_of_mem hmem
        exact Nat.le_of_eq (if_pos (by rw [hfind]; rfl))
  · exact fun _ => rfl

/-! ## The scheduler -/

theorem expireTask {id : UUID} (hn : n ≤ 6) : Locks P strict n L (Veyaan.expireTask id) (Upto 6 L) := by
  apply orders_bind
  apply orders_skipLocked (m := 6)
  · exact ⟨hn, fun _ h => h⟩
  · exact hn
  · intro d ts hts
    refine ⟨fun k hk => ?_, ?_⟩
    · obtain ⟨t, -, rfl⟩ := List.mem_map.mp hk
      exact Nat.le_refl 6
    have hkeep : ∀ k ∈ L, k ∈ ts.map (fun t => Key.task t.commandId) ++ L := fun k hk => List.mem_append_right _ hk
    simp only
    cases ht : ts.head? with
    | none => exact orders_ret ⟨Nat.le_refl 6, hkeep⟩
    | some t =>
      have hmem : t ∈ ts := List.mem_of_mem_head? ht
      have hid : t.commandId = id := Table.key_of_find (Option.mem_toList.mp (hts.subset hmem))
      simp only
      split
      · exact orders_ret ⟨Nat.le_refl 6, hkeep⟩
      · refine orders_upto (m := 6) (M := L) ?_ (fun _ => orders_ret upto_self) (Nat.le_refl 6) fun _ h => h
        refine (updateTask (.inl ?_)).mono fun _ _ _ h => ⟨h.1, fun k hk => h.2 k (hkeep k hk)⟩
        exact List.mem_append_left _ (List.mem_map.mpr ⟨t, hmem, by rw [hid]⟩)

theorem expireCommand {c : Command} (hk : .command c.id ∈ L) :
    Locks P strict 6 L (Veyaan.expireCommand P c) (Upto 6 L) := by
  refine still (orders_attempt (Q := Upto 6 L) ?_) ?_
  · refine move hk (by decide) (by simp) ?_ fun _ _ _ hn hL => ⟨hn, hL⟩
    intro _ _
    exact expireTask (Nat.le_refl 6)
  · intro r
    split
    · exact orders_ret upto_self
    · exact still logKeywords fun _ => orders_ret upto_self

theorem expireAll {cs : List Command} (hk : ∀ c ∈ cs, .command c.id ∈ L) :
    Locks P strict 6 L (Veyaan.expireAll P cs) (Upto 6 L) := by
  induction cs with
  | nil => exact orders_ret upto_self
  | cons c cs ih =>
    apply still (expireCommand (hk c (List.mem_cons_self ..)))
    intro m
    apply still (ih fun c hc => hk c (List.mem_cons_of_mem _ hc))
    intro k
    exact orders_ret upto_self

theorem expireCommands (hn : n ≤ 6) : Locks P strict n L (Veyaan.expireCommands P) (Upto 6 L) := by
  apply still (effect fun _ => ⟨hn, fun _ h => h⟩)
  intro now
  apply orders_bind
  apply orders_skipLocked (m := 6)
  · exact upto_self
  · exact Nat.le_refl 6
  · intro d cs _
    refine ⟨fun k hk => ?_, ?_⟩
    · obtain ⟨c, -, rfl⟩ := List.mem_map.mp hk
      exact show 5 ≤ 6 by decide
    · refine (expireAll fun c hc => List.mem_append_left _ (List.mem_map.mpr ⟨c, hc, rfl⟩)).mono fun _ _ _ h => ?_
      exact ⟨h.1, fun k hk => h.2 k (List.mem_append_right _ hk)⟩

theorem logCount {k : Nat} : Locks P strict n L (Veyaan.logCount P k) (Upto n L) := by
  unfold Veyaan.logCount
  split
  · exact orders_ret upto_self
  · exact logKeywords

theorem runTasks : Locks P strict 0 [] (Veyaan.runTasks P) fun _ n _ => n = 0 := by
  apply withSession
  · apply seq (m := 1) (M := [])
    · refine orders_upto (effect fun _ => upto_self) ?_ (by decide) fun _ h => h
      intro now
      apply stmtAll (by decide)
      · exact fun _ => rfl
      · exact fun _ _ _ => ⟨rfl, trivial⟩
    intro pairings
    apply seq logCount
    intro _
    apply seq (m := 2) (M := [])
    · refine orders_upto (effect fun _ => upto_self) ?_ (by decide) fun _ h => h
      intro now
      apply stmtAll (by decide)
      · exact fun _ => rfl
      · intro d a ha
        have hfind : d.approvals.find a.id = some a := Table.find_of_mem (List.mem_filter.mp ha).1
        have hsome : (d.approvals.find a.id).isSome = true := by rw [hfind]; rfl
        exact ⟨if_pos hsome, hsome⟩
    intro approvals
    apply seq logCount
    intro _
    apply seq (expireCommands (by decide))
    intro commands
    apply seq logCount
    intro _
    exact commits.mono fun _ _ _ _ => trivial
  · exact fun _ => rfl

end Locks

end Veyaan
