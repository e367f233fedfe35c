import Mathlib.Data.List.Induction
import Veyaan.TimedManager

/-!
# Silent devices

`register` writes the record of a connection once, for 180 seconds, and a heartbeat
writes the presence of the device for 90 seconds, whichever of its connections it comes
from. The scheduler counts a device as stale that has a record and no presence.
-/

namespace Veyaan.Manager.Timed

/-! ## The law -/

structure Connected (k : DeviceConnection) (s : State) : Prop where
  idle : s.idle = true
  active : s.ext.activeConnections gateway k.deviceId = some k
  trusted : ∃ device ∈ s.devices, device.id = k.deviceId ∧ device.trustStatus = .trusted ∧ device.revokedAt = none

def Silent (k : DeviceConnection) (s : State) : Prop :=
  (∀ t, registeredAt k s.trace = some t → t + 90000 < s.clock) ∧ ∀ t, heartbeatAt k s.trace = some t →
    t + 90000 < s.clock

/-- The record of `k` is there as long as `k` is registered, and a run of the scheduler counts
its device when `k` is silent. -/
structure Tracks (k : DeviceConnection) (s : State) (ms : List Move) : Prop where
  recorded : ∀ pre post, ms = pre ++ post → Connected k (run s pre) →
    (run s pre).ext.hashes (.connection k.deviceId) ≠ none
  counted : ∀ pre post, ms = pre ++ .detect :: post → Connected k (run s pre) → Silent k (run s pre) →
    k.deviceId ∈ (run s pre).staleDeviceIds

/-- `k` is not registered for 180 seconds, no `unregister` of another connection has deleted
its record, and no run of the scheduler that finds `k` silent finds another connection of the
device that was the last to send a heartbeat and did so in the last 90 seconds. -/
structure Visible (k : DeviceConnection) (s : State) (ms : List Move) : Prop where
  recent : ∀ pre post, ms = pre ++ post → Connected k (run s pre) →
    ∀ t, registeredAt k (run s pre).trace = some t → (run s pre).clock < t + 180000
  kept : ∀ pre post, ms = pre ++ post → Connected k (run s pre) →
    lastWrite (.connection k.deviceId) (run s pre).trace ≠ none
  alone : ∀ pre post, ms = pre ++ .detect :: post → Connected k (run s pre) → Silent k (run s pre) →
    ∀ id t, lastWrite (.presence k.deviceId) (run s pre).trace = some (id, t) → id ≠ k.connectionId →
      t + 90000 ≤ (run s pre).clock

/-! ## The invariant -/

section
variable {key : HashKey} {conn : DeviceConnection} {l : List (Time × Ev)} {t : Time} {vs : List Ev}

theorem lastWrite_wrote {id : UUID} : lastWrite key ((t, .wrote key id) :: l) = some (id, t) := if_pos rfl

theorem lastWrite_deleted {id : UUID} {old : Option UUID} :
    lastWrite key ((t, .deleted key id old) :: l) = none := if_pos rfl

theorem lastWrite_mute (h : ∀ v ∈ vs, Mute v) : lastWrite key (vs.map (t, ·) ++ l) = lastWrite key l := by
  induction vs with
  | nil => rfl
  | cons v vs ih =>
    have hv := h v (List.mem_cons_self ..)
    have ih := ih fun u hu => h u (List.mem_cons_of_mem _ hu)
    cases v with
    | installed | wrote | deleted => cases hv
    | _ => exact ih

theorem registeredAt_mute (h : ∀ v ∈ vs, Mute v) :
    registeredAt conn (vs.map (t, ·) ++ l) = registeredAt conn l := by
  induction vs with
  | nil => rfl
  | cons v vs ih =>
    have hv := h v (List.mem_cons_self ..)
    have ih := ih fun u hu => h u (List.mem_cons_of_mem _ hu)
    cases v with
    | installed | wrote | deleted => cases hv
    | _ => exact ih

/-- If the last to write the presence was this connection, its last heartbeat was then. -/
theorem heartbeat_of_lastWrite (h : lastWrite (.presence conn.deviceId) l = some (conn.connectionId, t)) :
    heartbeatAt conn l = some t := by
  induction l with
  | nil => cases h
  | cons e l ih =>
    obtain ⟨n, v⟩ := e
    cases v with
    | wrote key id =>
      simp only [lastWrite] at h
      by_cases hk : key = .presence conn.deviceId
      · rw [if_pos hk, Option.some.injEq, Prod.mk.injEq] at h
        obtain ⟨rfl, rfl⟩ := h
        exact if_pos ⟨hk, rfl⟩
      · rw [if_neg hk] at h
        simp only [heartbeatAt, hk, false_and, if_false]
        exact ih h
    | deleted key id old =>
      simp only [lastWrite] at h
      split at h
      · cases h
      · exact ih h
    | _ => exact ih h

end

def Pending (P : Phase → Prop) (phs : List Phase) : Prop := ∃ ph ∈ phs, P ph

section
variable {P : Phase → Prop} {phs : List Phase} {i : Nat} {ph ph' : Phase}

theorem Pending.new (hi : phs[i]? = some ph) (h : P ph') : Pending P (phs.set i ph') :=
  ⟨ph', List.mem_set (List.getElem?_eq_some_iff.mp hi).1 ph', h⟩

theorem Pending.keep (hi : phs[i]? = some ph) (hn : ¬ P ph) (h : Pending P phs) : Pending P (phs.set i ph') := by
  obtain ⟨q, hq, hP⟩ := h
  obtain ⟨j, hj⟩ := List.getElem?_of_mem hq
  by_cases hij : i = j
  · subst hij
    rw [hi, Option.some.injEq] at hj
    subst hj
    exact absurd hP hn
  · exact ⟨q, List.mem_of_getElem? (by rw [List.getElem?_set_ne hij]; exact hj), hP⟩

theorem Pending.before (hn : ¬ P ph') (h : Pending P (phs.set i ph')) : Pending P phs := by
  obtain ⟨q, hq, hP⟩ := h
  rcases List.mem_or_eq_of_mem_set hq with hq | rfl
  · exact ⟨q, hq, hP⟩
  · exact absurd hP hn

theorem pending_set (hi : phs[i]? = some ph) (hn : ¬ P ph) (hn' : ¬ P ph') :
    Pending P (phs.set i ph') ↔ Pending P phs :=
  ⟨.before hn', .keep hi hn⟩

theorem pending_append (hn : ¬ P ph) : Pending P (phs ++ [ph]) ↔ Pending P phs := by
  constructor
  · rintro ⟨q, hq, hP⟩
    rcases List.mem_append.mp hq with hq | hq
    · exact ⟨q, hq, hP⟩
    · rw [List.mem_singleton] at hq
      subst hq
      exact absurd hP hn
  · rintro ⟨q, hq, hP⟩
    exact ⟨q, List.mem_append_left _ hq, hP⟩

end

structure Stored (s : State) (phs : List Phase) (key : HashKey) : Prop where
  written : s.ext.hashes key ≠ none → lastWrite key s.trace ≠ none
  gone : ∀ id t, lastWrite key s.trace = some (id, t) → s.ext.hashes key = none → t + seconds key * 1000 ≤ s.clock
  lasts : ∀ id t, lastWrite key s.trace = some (id, t) → s.ext.hashes key ≠ none →
    s.deadline key = some (t + seconds key * 1000) ∨ Pending (Expires key) phs
  now : ∀ id t, lastWrite key s.trace = some (id, t) → Pending (Expires key) phs → t = s.clock
  alive : ∀ t, s.ext.hashes key ≠ none → s.deadline key = some t → s.clock < t

structure Entered (s : State) (phs : List Phase) (k : DeviceConnection) (r : Time) : Prop where
  registered : registeredAt k s.trace = some r
  now : Pending (Sets (.connection k.deviceId)) phs → r = s.clock
  record : Pending (Sets (.connection k.deviceId)) phs ∨
    ∀ id t, lastWrite (.connection k.deviceId) s.trace = some (id, t) → t = r

structure Inv (s : State) (phs : List Phase) : Prop where
  tasks : s.tasks = phs.map Phase.prog
  placed : ∀ ph ∈ phs, Placed ph
  stored : ∀ key, Stored s phs key
  entry : ∀ d k, s.ext.activeConnections gateway d = some k → k.deviceId = d ∧ ∃ r, Entered s phs k r

section
variable {s : State} {phs : List Phase} {i : Nat} {ph ph' : Phase} {x' : Ext} {dl : HashKey → Option Time}
  {tr : List (Time × Ev)}

theorem Still.sets {key : HashKey} (h : Still ph) : ¬ Sets key ph := by
  cases ph with
  | hset | expire => cases h
  | _ => exact id

theorem Still.expires {key : HashKey} (h : Still ph) : ¬ Expires key ph := by
  cases ph with
  | hset | expire => cases h
  | _ => exact id

theorem Stored.frame {s' : State} {phs' : List Phase} {key : HashKey} (h : Stored s phs key)
    (hh : s'.ext.hashes key = s.ext.hashes key) (hd : s'.deadline key = s.deadline key)
    (hl : lastWrite key s'.trace = lastWrite key s.trace) (hc : s'.clock = s.clock)
    (hp : Pending (Expires key) phs' ↔ Pending (Expires key) phs) : Stored s' phs' key where
  written := by
    rw [hh, hl]
    exact h.written
  gone := by
    rw [hh, hl, hc]
    exact h.gone
  lasts := by
    rw [hh, hl, hd, hp]
    exact h.lasts
  now := by
    rw [hl, hc, hp]
    exact h.now
  alive := by
    rw [hh, hd, hc]
    exact h.alive

theorem seconds_connection (d : UUID) : seconds (.connection d) * 1000 = 180000 := by
  have h : seconds (.connection d) = 180 := rfl
  rw [h]

theorem seconds_presence (d : UUID) : seconds (.presence d) * 1000 = 90000 := by
  have h : seconds (.presence d) = 90 := rfl
  rw [h]

theorem seconds_pos (key : HashKey) : 0 < seconds key * 1000 := by
  have h : 0 < seconds key := by cases key <;> exact Nat.succ_pos _
  exact Nat.mul_pos h (Nat.succ_pos _)

theorem Stored.turned {key : HashKey} (h : Stored s phs key) (hi : phs[i]? = some ph)
    (ht : Turned s ph x' dl tr ph') (tasks : List (Op Unit)) :
    Stored { s with ext := x', deadline := dl, tasks := tasks, trace := tr } (phs.set i ph') key := by
  cases ht with
  | put hs => exact h.frame rfl rfl rfl rfl (pending_set hi hs.expires id)
  | @wrote key' own =>
    by_cases hk : key = key'
    · subst hk
      refine ⟨fun _ => by simp [lastWrite_wrote], fun id t hl hh => ?_,
        fun id t hl hh => .inr (.new hi rfl), fun id t hl _ => ?_, fun t hh hd => ?_⟩
      · simp at hh
      · rw [lastWrite_wrote] at hl
        cases hl
        rfl
      · by_cases hn : s.ext.hashes key = none
        · simp [hn] at hd
        · simp only [hn, and_false, if_false] at hd
          exact h.alive t hn hd
    · exact h.frame (by simp [hk]) (by simp [hk]) (if_neg (Ne.symm hk)) rfl (pending_set hi id (Ne.symm hk))
  | @lasts key' =>
    by_cases hk : key = key'
    · subst hk
      refine ⟨h.written, h.gone, fun id t hl hh => .inl ?_,
        fun id t hl hp => h.now id t hl ⟨_, List.mem_of_getElem? hi, rfl⟩, fun t hh hd => ?_⟩
      · rw [h.now id t hl ⟨_, List.mem_of_getElem? hi, rfl⟩]
        exact if_pos ⟨rfl, hh⟩
      · simp only [true_and, if_pos hh, Option.some.injEq] at hd
        rw [← hd]
        exact Nat.lt_add_of_pos_right (seconds_pos key)
    · exact h.frame rfl (by simp [hk]) rfl rfl (pending_set hi (Ne.symm hk) id)
  | @deleted _ key' own old _ hs hs' =>
    by_cases hk : key = key'
    · subst hk
      exact ⟨fun hh => by simp at hh, fun id t hl => by simp [lastWrite_deleted] at hl,
        fun id t hl => by simp [lastWrite_deleted] at hl, fun id t hl => by
          simp [lastWrite_deleted] at hl, fun t hh => by simp at hh⟩
    · exact h.frame (by simp [hk]) rfl (if_neg (Ne.symm hk)) rfl (pending_set hi hs.expires hs'.expires)
  | other hs hs' hx ha hm =>
    exact h.frame (by rw [hx]) rfl (lastWrite_mute hm) rfl (pending_set hi hs.expires hs'.expires)

theorem Entered.frame {s' : State} {phs' : List Phase} {k : DeviceConnection} {r : Time} (h : Entered s phs k r)
    (hr : registeredAt k s'.trace = registeredAt k s.trace)
    (hl : lastWrite (.connection k.deviceId) s'.trace = lastWrite (.connection k.deviceId) s.trace)
    (hc : s'.clock = s.clock) (hp : Pending (Sets (.connection k.deviceId)) phs' ↔
      Pending (Sets (.connection k.deviceId)) phs) :
    Entered s' phs' k r where
  registered := by
    rw [hr]
    exact h.registered
  now := by
    rw [hc, hp]
    exact h.now
  record := by
    rw [hl, hp]
    exact h.record

theorem Entered.turned {k : DeviceConnection} {r : Time} (h : Entered s phs k r) (hi : phs[i]? = some ph)
    (ht : Turned s ph x' dl tr ph') (tasks : List (Op Unit))
    (hput : ∀ conn : DeviceConnection, ph' = .hset (.connection conn.deviceId) conn.connectionId 180 →
      conn.deviceId ≠ k.deviceId) :
    Entered { s with ext := x', deadline := dl, tasks := tasks, trace := tr } (phs.set i ph') k r := by
  cases ht with
  | @put _ conn old hs =>
    have hd := hput conn rfl
    have hconn : conn ≠ k := by
      rintro rfl
      exact hd rfl
    refine h.frame (if_neg hconn) rfl rfl (pending_set hi hs.sets ?_)
    intro hk
    exact hd (HashKey.connection.inj hk)
  | @wrote key' own =>
    by_cases hk : key' = .connection k.deviceId
    · subst hk
      have hnow := h.now ⟨_, List.mem_of_getElem? hi, rfl⟩
      refine ⟨h.registered, fun _ => hnow, .inr fun id t hl => ?_⟩
      rw [lastWrite_wrote] at hl
      cases hl
      exact hnow.symm
    · exact h.frame rfl (if_neg hk) rfl (pending_set hi hk id)
  | @lasts key' => exact h.frame rfl rfl rfl (pending_set hi id id)
  | @deleted _ key' own old _ hs hs' =>
    by_cases hk : key' = .connection k.deviceId
    · subst hk
      refine ⟨h.registered, fun hp => h.now (hp.before hs'.sets), .inr fun id t hl => ?_⟩
      rw [lastWrite_deleted] at hl
      cases hl
    · exact h.frame rfl (if_neg hk) rfl (pending_set hi hs.sets hs'.sets)
  | other hs hs' hx ha hm =>
    exact h.frame (registeredAt_mute hm) (lastWrite_mute hm) rfl (pending_set hi hs.sets hs'.sets)

/-! ## Every run -/

theorem entered_put {k : DeviceConnection} {old : Option DeviceConnection}
    (hi : phs[i]? = some ph) (tasks : List (Op Unit)) :
    Entered
      { s with
        ext := s.ext.put gateway k
        tasks := tasks
        trace := (s.clock, .installed gateway k old) :: s.trace }
      (phs.set i (.hset (.connection k.deviceId) k.connectionId 180)) k s.clock :=
  ⟨if_pos rfl, fun _ => rfl, .inl (.new hi rfl)⟩

theorem Inv.answered (h : Inv s phs) (hi : phs[i]? = some ph) (hp : Placed ph') (ht : Turned s ph x' dl tr ph') :
    Inv { s with ext := x', deadline := dl, tasks := s.tasks.set i ph'.prog, trace := tr } (phs.set i ph') where
  tasks := by rw [h.tasks, List.map_set]
  placed q hq := by
    rcases List.mem_or_eq_of_mem_set hq with hq | rfl
    · exact h.placed q hq
    · exact hp
  stored key := (h.stored key).turned hi ht _
  entry d k hk := by
    have hold : s.ext.activeConnections gateway d = some k →
        (∀ conn : DeviceConnection, ph' = .hset (.connection conn.deviceId) conn.connectionId 180 →
          conn.deviceId ≠ k.deviceId) →
        k.deviceId = d ∧ ∃ r,
          Entered { s with ext := x', deadline := dl, tasks := s.tasks.set i ph'.prog, trace := tr }
            (phs.set i ph') k r := by
      intro ha hput
      obtain ⟨hd, r, hr⟩ := h.entry d k ha
      exact ⟨hd, r, hr.turned hi ht _ hput⟩
    cases ht with
    | @put _ conn old hs =>
      simp only [Ext.put_active, true_and] at hk
      by_cases hd : d = conn.deviceId
      · rw [if_pos hd, Option.some.injEq] at hk
        subst hk
        exact ⟨hd.symm, _, entered_put hi _⟩
      · rw [if_neg hd] at hk
        refine hold hk fun c hc hck => ?_
        obtain ⟨hkd, -⟩ := h.entry d k hk
        have hdev : conn.deviceId = c.deviceId := HashKey.connection.inj (Phase.hset.inj hc).1
        exact hd (by rw [hdev, hck, hkd])
    | wrote | lasts => exact hold hk nofun
    | deleted hs hs' =>
      refine hold hk fun conn hc => ?_
      subst hc
      exact hs'.elim
    | other hs hs' hx ha hm =>
      refine hold (ha d k hk) fun conn hc => ?_
      subst hc
      exact hs'.elim

theorem Inv.spawn (h : Inv s phs) (ph : Phase) (hp : Placed ph) (hs : ∀ d, ¬ Sets (.connection d) ph)
    (he : ∀ key, ¬ Expires key ph) :
    Inv (s.spawn ph.prog) (phs ++ [ph]) where
  tasks := by simp [State.spawn, h.tasks]
  placed q hq := by
    rcases List.mem_append.mp hq with hq | hq
    · exact h.placed q hq
    · rw [List.mem_singleton] at hq
      subst hq
      exact hp
  stored key := (h.stored key).frame rfl rfl rfl rfl (pending_append (he key))
  entry d k hk := by
    obtain ⟨hd, r, hr⟩ := h.entry d k hk
    exact ⟨hd, r, hr.frame rfl rfl rfl (pending_append (hs k.deviceId))⟩

theorem not_pending_of_idle {P : Phase → Prop} (h : Inv s phs) (hidle : s.idle = true)
    (hP : ∀ ph, P ph → ended ph.prog = false) : ¬ Pending P phs := by
  rintro ⟨ph, hph, hp⟩
  unfold State.idle at hidle
  rw [h.tasks, List.all_map, List.all_eq_true] at hidle
  have hended := hidle ph hph
  rw [Function.comp_apply, hP ph hp] at hended
  cases hended

theorem expires_not_ended {key : HashKey} (ph : Phase) (h : Expires key ph) : ended ph.prog = false := by
  cases ph with
  | expire => rfl
  | _ => cases h

theorem sets_not_ended {key : HashKey} (ph : Phase) (h : Sets key ph) : ended ph.prog = false := by
  cases ph with
  | hset => rfl
  | _ => cases h

theorem Inv.turn (h : Inv s phs) (i : Nat) : ∃ phs', Inv (s.turn i) phs' := by
  unfold State.turn
  split
  · rename_i e k htask
    rw [h.tasks, List.getElem?_map, Option.map_eq_some_iff] at htask
    obtain ⟨ph, hi, hprog⟩ := htask
    obtain ⟨ph', hk, hp, ht⟩ := turned (h.placed ph (List.mem_of_getElem? hi)) hprog
    rw [hk]
    exact ⟨_, h.answered hi hp ht⟩
  · exact ⟨phs, h⟩

theorem Stored.wait {key : HashKey} (h : Stored s phs key) (hidle : ¬ Pending (Expires key) phs) (dt : Nat) :
    Stored (s.wait dt) phs key where
  written hh := by
    refine h.written fun hn => hh ?_
    simp [State.wait, hn]
  gone id t hl hh := by
    by_cases hn : s.ext.hashes key = none
    · exact Nat.le_trans (h.gone id t hl hn) (Nat.le_add_right _ _)
    · have hd := (h.lasts id t hl hn).resolve_right hidle
      simp only [State.wait, hd, Option.any_some] at hh
      split at hh
      · rename_i hle
        exact of_decide_eq_true hle
      · exact absurd hh hn
  lasts id t hl hh := by
    refine .inl ((h.lasts id t hl fun hn => hh ?_).resolve_right hidle)
    simp [State.wait, hn]
  now id t _ hp := absurd hp hidle
  alive t hh hd := by
    simp only [State.wait] at hh hd ⊢
    rw [hd] at hh
    simp only [Option.any_some] at hh
    split at hh
    · exact absurd rfl hh
    · rename_i hle
      exact Nat.lt_of_not_le fun hc => hle (decide_eq_true hc)

theorem Inv.wait (h : Inv s phs) (hidle : s.idle = true) (dt : Nat) : Inv (s.wait dt) phs where
  tasks := h.tasks
  placed := h.placed
  stored key := (h.stored key).wait (not_pending_of_idle h hidle expires_not_ended) dt
  entry d k hk := by
    obtain ⟨hd, r, hr⟩ := h.entry d k hk
    have hno := not_pending_of_idle (P := Sets (.connection k.deviceId)) h hidle sets_not_ended
    exact ⟨hd, r, hr.registered, fun hp => absurd hp hno, .inr (hr.record.resolve_left hno)⟩

theorem Inv.frame {s' : State} (h : Inv s phs) (hx : s'.ext = s.ext)
    (hd : s'.deadline = s.deadline) (hc : s'.clock = s.clock)
    (ht : s'.tasks = s.tasks) (htr : s'.trace = s.trace) : Inv s' phs where
  tasks := by rw [ht, h.tasks]
  placed := h.placed
  stored key := (h.stored key).frame (by rw [hx]) (by rw [hd]) (by rw [htr]) hc .rfl
  entry d k hk := by
    rw [hx] at hk
    obtain ⟨hd, r, hr⟩ := h.entry d k hk
    exact ⟨hd, r, hr.frame (by rw [htr]) (by rw [htr]) hc .rfl⟩

theorem Inv.step (h : Inv s phs) (m : Move) : ∃ phs', Inv (step s m) phs' := by
  cases m with
  | register conn => exact ⟨_, h.spawn (.lookUp gateway conn) rfl (fun _ => id) fun _ => id⟩
  | unregister d id => exact ⟨_, h.spawn (.ask gateway d id) trivial nofun nofun⟩
  | closeDeviceConnection d reason => exact ⟨_, h.spawn (.find gateway d reason) trivial (fun _ => id) fun _ => id⟩
  | heartbeat conn =>
    simp only [Timed.step]
    split
    · exact ⟨_, h.spawn (.hset (.presence conn.deviceId) conn.connectionId 90) rfl nofun fun _ => id⟩
    · exact ⟨phs, h⟩
  | turn i => exact h.turn i
  | wait dt =>
    simp only [Timed.step]
    split
    · rename_i hidle
      exact ⟨phs, h.wait hidle dt⟩
    · exact ⟨phs, h⟩
  | devices l => exact ⟨phs, h.frame rfl rfl rfl rfl rfl⟩
  | detect =>
    simp only [Timed.step, State.detectStaleDevicePresence]
    split
    · exact ⟨phs, h⟩
    · exact ⟨phs, h.frame rfl rfl rfl rfl rfl⟩

theorem start_inv (t : Time) (l : List Device) : Inv (start t l) [] where
  tasks := rfl
  placed := nofun
  stored _ := ⟨fun h => absurd rfl h, nofun, nofun, nofun, nofun⟩
  entry _ _ h := by cases h

theorem run_snoc (pre : List Move) (m : Move) : run s (pre ++ [m]) = step (run s pre) m := by
  unfold run
  rw [List.foldl_append]
  rfl

theorem run_inv (t : Time) (l : List Device) (ms : List Move) : ∃ phs, Inv (run (start t l) ms) phs := by
  induction ms using List.reverseRecOn with
  | nil => exact ⟨[], start_inv t l⟩
  | append_singleton ms m ih =>
    obtain ⟨phs, h⟩ := ih
    rw [run_snoc]
    exact h.step m

/-! ## Between the calls -/

theorem Stored.present_iff {key : HashKey} (h : Stored s phs key) (hidle : ¬ Pending (Expires key) phs) :
    s.ext.hashes key ≠ none ↔ ∃ id t, lastWrite key s.trace = some (id, t) ∧ s.clock < t + seconds key * 1000 := by
  constructor
  · intro hh
    obtain ⟨⟨id, t⟩, hl⟩ := Option.ne_none_iff_exists'.mp (h.written hh)
    exact ⟨id, t, hl, h.alive _ hh ((h.lasts id t hl hh).resolve_right hidle)⟩
  · rintro ⟨id, t, hl, hlt⟩ hn
    exact Nat.not_le_of_lt hlt (h.gone id t hl hn)

variable {k : DeviceConnection}

theorem Connected.present_iff (hk : Connected k s) (h : Inv s phs) (key : HashKey) :
    s.ext.hashes key ≠ none ↔ ∃ id t, lastWrite key s.trace = some (id, t) ∧ s.clock < t + seconds key * 1000 :=
  (h.stored key).present_iff (not_pending_of_idle h hk.idle expires_not_ended)

/-- The record of a connection lasts for 180 seconds from its registration, unless it is deleted. -/
theorem Connected.recorded_iff (hk : Connected k s) (h : Inv s phs) : s.ext.hashes (.connection k.deviceId) ≠ none ↔
    (∀ t, registeredAt k s.trace = some t → s.clock < t + 180000) ∧
    lastWrite (.connection k.deviceId) s.trace ≠ none := by
  obtain ⟨-, r, hr⟩ := h.entry _ k hk.active
  have hlast := hr.record.resolve_left (not_pending_of_idle h hk.idle sets_not_ended)
  rw [hk.present_iff h, seconds_connection]
  constructor
  · rintro ⟨id, t, hl, hlt⟩
    refine ⟨fun t' ht' => ?_, by simp [hl]⟩
    rw [hr.registered, Option.some.injEq] at ht'
    rw [← ht', ← hlast id t hl]
    exact hlt
  · rintro ⟨hlt, hne⟩
    obtain ⟨⟨id, t⟩, hl⟩ := Option.ne_none_iff_exists'.mp hne
    refine ⟨id, t, hl, ?_⟩
    rw [hlast id t hl]
    exact hlt r hr.registered

theorem Connected.stale_iff (hk : Connected k s) : k.deviceId ∈ s.staleDeviceIds ↔
    s.ext.hashes (.connection k.deviceId) ≠ none ∧ s.ext.hashes (.presence k.deviceId) = none := by
  obtain ⟨device, hmem, hid, htrust, hrev⟩ := hk.trusted
  have hlisted : k.deviceId ∈ (s.devices.filter fun device => device.trustStatus = .trusted ∧
      device.revokedAt = none).map (·.id) := by
    rw [← hid]
    exact List.mem_map_of_mem (List.mem_filter.mpr ⟨hmem, decide_eq_true ⟨htrust, hrev⟩⟩)
  simp only [State.staleDeviceIds, List.mem_filter, hlisted, true_and, decide_eq_true_eq]

/-- A silent device has a presence only from another of its connections. -/
theorem Connected.presence_iff (hk : Connected k s) (h : Inv s phs) (hs : Silent k s) :
    s.ext.hashes (.presence k.deviceId) = none ↔
      ∀ id t, lastWrite (.presence k.deviceId) s.trace = some (id, t) →
      id ≠ k.connectionId → t + 90000 ≤ s.clock := by
  have hpresent := hk.present_iff h (.presence k.deviceId)
  rw [seconds_presence] at hpresent
  constructor
  · intro hn id t hl _
    exact Nat.le_of_not_lt fun hlt => hpresent.mpr ⟨id, t, hl, hlt⟩ hn
  · intro halone
    by_contra hn
    obtain ⟨id, t, hl, hlt⟩ := hpresent.mp hn
    by_cases hid : id = k.connectionId
    · subst hid
      exact Nat.lt_asymm hlt (hs.2 t (heartbeat_of_lastWrite hl))
    · exact Nat.not_le_of_lt hlt (halone id t hl hid)

end

/-- The presence of a device is tracked through a connection exactly if the connection ends within
180 seconds, and no other connection of the device interferes. -/
theorem tracks_iff (k : DeviceConnection) (t : Time) (l : List Device) (ms : List Move) :
    Tracks k (start t l) ms ↔ Visible k (start t l) ms := by
  constructor
  · intro h
    refine ⟨fun pre post hms hk => ?_, fun pre post hms hk => ?_, fun pre post hms hk hs => ?_⟩
    · obtain ⟨phs, hinv⟩ := run_inv t l pre
      exact ((hk.recorded_iff hinv).mp (h.recorded pre post hms hk)).1
    · obtain ⟨phs, hinv⟩ := run_inv t l pre
      exact ((hk.recorded_iff hinv).mp (h.recorded pre post hms hk)).2
    · obtain ⟨phs, hinv⟩ := run_inv t l pre
      exact (hk.presence_iff hinv hs).mp (hk.stale_iff.mp (h.counted pre post hms hk hs)).2
  · intro h
    have hrecorded : ∀ pre post, ms = pre ++ post → Connected k (run (start t l) pre) →
        (run (start t l) pre).ext.hashes (.connection k.deviceId) ≠ none := by
      intro pre post hms hk
      obtain ⟨phs, hinv⟩ := run_inv t l pre
      exact (hk.recorded_iff hinv).mpr ⟨h.recent pre post hms hk, h.kept pre post hms hk⟩
    refine ⟨hrecorded, fun pre post hms hk hs => ?_⟩
    obtain ⟨phs, hinv⟩ := run_inv t l pre
    exact hk.stale_iff.mpr ⟨hrecorded pre _ hms hk, (hk.presence_iff hinv hs).mpr (h.alone pre post hms hk hs)⟩

def demoConnection : DeviceConnection := ⟨5, 7, 1⟩

def demoDevice : Device := ⟨5, 7, ⟨"", "", "", "", "", ""⟩, .trusted, none⟩

/-- Three minutes after the registration the record is gone, though the connection is not. -/
theorem record_expires : ¬ Tracks demoConnection (start 0 [demoDevice])
    [.register demoConnection, .turn 0, .turn 0, .turn 0, .wait 180000] := by
  intro h
  have hgone := h.recorded [.register demoConnection, .turn 0, .turn 0, .turn 0, .wait 180000] [] rfl
    ⟨by decide, by decide, demoDevice, List.mem_singleton_self _, by decide⟩
  exact hgone (by decide)

end Veyaan.Manager.Timed
