import Veyaan.Refine.Base

/-!
# `EmergencyStopService` follows the protocol

The loop of `_block_commands` is the point of an activation: when it commits,
every command that it has selected has been moved out of `QUEUED`, or was
found, under its lock, to have left it before.
-/

open Relation (ReflTransGen)

namespace Veyaan

open Sys

section
variable {P : Params} {i : Nat} {w w' : Wd} {L : List (Key × Row)} {ws : List Write}

theorem Rdy.notice {t : Tag} {a : AggregateType} {o : UUID} {e : OutboxEvent} {et : EventType} {msg : Msg}
    (h : Rdy P t i w L ws) (hs : After P i [] w w') (he : NewEvent e et a o msg) (ha : a ≠ .command)
    (hm : ∀ k c p, msg ≠ .lifecycle k c p)
    (hd : ∀ dev st o, msg = .deviceLifecycle dev st o → ∀ d, ((sys P).applyAll ws d).Revoked dev)
    (ht : e.stop = t.notice) (hn : ((sys P).applyAll ws w'.sh.db).outbox.find e.id = none)
    (h' : Holds P i w' ((.outbox e.id, w'.sh.db.row (.outbox e.id)) :: L) (ws ++ [.outbox e])) :
    Rdy P t i w' ((.outbox e.id, w'.sh.db.row (.outbox e.id)) :: L) (ws ++ [.outbox e]) := by
  refine ⟨h', fun s hg hL => chain_append.mpr ⟨?_, .notice ?_ ?_ ?_ ht ?_, trivial⟩⟩
  · exact h.chain s (hs.shared.trans hg) fun p hp => hL p (List.mem_cons_of_mem _ hp)
  · have he : s.db.row (.outbox e.id) = w'.sh.db.row (.outbox e.id) := hL _ (List.mem_cons_self ..)
    have := row_congr (S := sys P) (k := .outbox e.id) ws he
    simp only [sys, DB.row, Row.outbox.injEq] at this
    exact Eq.trans this hn
  · simp [OutboxEvent.isQueued, he.aggregateType, ha]
  · rw [he.msg]; exact hm
  · intro dev st o hm
    rw [he.msg] at hm
    exact hd dev st o hm s.db

/-! ## The stop row -/

/-- The session has set the stop row to `r`, and has written neither audit rows nor
events; before, the stop was the other way round. -/
structure Stopping (P : Params) (r : EmergencyStop) (L : List (Key × Row)) (ws : List Write) : Prop where
  before : ∀ d, (sys P).Agrees L d → d.stopActive r.ownerId = !r.active
  stops : ∀ d, ((sys P).applyAll ws d).stops = d.stops.put r
  audits : ∀ d, ((sys P).applyAll ws d).audits = d.audits
  outbox : ∀ d, ((sys P).applyAll ws d).outbox = d.outbox

theorem Stopping.mono {r : EmergencyStop} {L' : List (Key × Row)} (h : Stopping P r L ws) (hL : ∀ p ∈ L, p ∈ L') :
    Stopping P r L' ws :=
  ⟨fun d hd => h.before d fun p hp => hd p (hL p hp), h.stops, h.audits, h.outbox⟩

theorem Stopping.transition {r : EmergencyStop} {loaded row : Command} {new : CommandState}
    {u n : Time} {source : Source} {m : Option Metadata} (h : Stopping P r L ws) :
    Stopping P r L (ws ++ transitionWrites loaded row new u n source m) := by
  refine ⟨h.before, fun d => ?_, fun d => ?_, fun d => ?_⟩
  · rw [applyAll_append]; exact h.stops d
  · rw [applyAll_append]; exact h.audits d
  · rw [applyAll_append]; exact h.outbox d

theorem Stopping.switched {r : EmergencyStop} {a : AuditLog} {e : OutboxEvent} {d : DB} (h : Stopping P r L ws)
    (hr : r.releasedAt = none ↔ r.active = true) (hd : (sys P).Agrees L d)
    (ha : a.stop = some (r.ownerId, r.active))
    (he : e.stop = some (r.ownerId, r.active)) (hn : d.outbox.find e.id = none) :
    Switched d ((sys P).applyAll (ws ++ [.audit a] ++ [.outbox e]) d) r.ownerId r.active := by
  simp only [applyAll_append, applyAll_cons, applyAll_nil, sys_apply, Write.apply]
  exact ⟨h.before d hd, ⟨r, rfl, rfl, hr, h.stops d⟩, ⟨a, ha, by rw [h.audits]⟩, ⟨e, hn, he, by rw [h.outbox]⟩⟩

/-! ## The loop -/

def Unqueued (P : Params) (L : List (Key × Row)) (ws : List Write) (ids : List UUID) : Prop :=
  ∀ d, (sys P).Agrees L d → ∀ id ∈ ids, ∀ c, ((sys P).applyAll ws d).commands.find id = some c → c.state ≠ .queued

theorem Unqueued.mono {ids ids' : List UUID} (h : Unqueued P L ws ids) (hs : ∀ x ∈ ids', x ∈ ids) :
    Unqueued P L ws ids' := fun d hd x hx => h d hd x (hs x hx)

theorem Unqueued.transition {ids : List UUID} {id : UUID} {row : Command} {u n : Time} {source : Source} {v : Row}
    (h : Unqueued P L ws ids) (hid : row.id = id) :
    Unqueued P ((.command id, v) :: L) (ws ++ transitionWrites row row .blockedByEmergencyStop u n source none)
      (id :: ids) := by
  intro d hd x hx c hc
  have hs := row.transition_same .blockedByEmergencyStop u n none
  simp only [transitionWrites, applyAll_append, applyAll_cons, applyAll_nil, sys_apply, Write.apply,
    Command.flushed_self, Table.find_put, key_command, hs.id, hid] at hc
  split at hc
  · cases hc; simp
  · rename_i hne
    rcases List.mem_cons.mp hx with rfl | hx
    · exact absurd rfl hne
    · exact h d (fun p hp => hd p (List.mem_cons_of_mem _ hp)) x hx c hc

theorem queued_accepts : accepts .queued .blockedByEmergencyStop = true := by decide

theorem dead_transition {Φ : Except Err (Option Command) → Prop} {loaded : Option Command} {id : UUID}
    {new : CommandState} {source : Source} {m : Option Metadata} (h : Φ (.error .db)) :
    (sys P).Dead (Act P) Φ (transitionCommand loaded id new source m) := h

theorem dead_blockAll (ids : List UUID) : (sys P).Dead (Act P) (fun r => r = .ok ()) (blockAll ids) := by
  induction ids with
  | nil => rfl
  | cons id ids ih => exact Dead.bind (Dead.attempt (dead_transition ih))

def Untouched (P : Params) (ws : List Write) (ids : List UUID) : Prop :=
  ∀ id ∈ ids, ∀ d, ((sys P).applyAll ws d).commands.find id = d.commands.find id

theorem Untouched.transition {ids : List UUID} {row : Command} {new : CommandState} {u n : Time} {source : Source}
    {m : Option Metadata} (h : Untouched P ws ids) (hid : row.id ∉ ids) :
    Untouched P (ws ++ transitionWrites row row new u n source m) ids := by
  intro x hx d
  have hne : row.id ≠ x := fun he => hid (he ▸ hx)
  simp only [transitionWrites, applyAll_append, applyAll_cons, applyAll_nil, sys_apply, Write.apply, Table.find_put,
    key_command, (row.flushed_same new u n m row).id, hne, if_false]
  exact h x hx d

/-- Later entries do not change what was selected last, unless they select again. -/
theorem Selected.after {o : UUID} {ids : List UUID} {vs : List Ev} (h : Selected w.sh.trace i o ids)
    (s : After P i vs w w') (hv : ∀ v ∈ vs, ∀ p xs, v ≠ .selected p xs) : Selected w'.sh.trace i o ids := by
  obtain ⟨l₁, l₂, ht, hl⟩ := h
  refine ⟨l₁, l₂ ++ vs, by rw [s.trace, ht]; simp, fun v hm => ?_⟩
  rcases List.mem_append.mp hm with hm | hm
  · exact hl v hm
  · exact hv v hm

theorem wps_blockAll {α : Type} {o : UUID} {r : EmergencyStop} {f : Unit → Op α}
    (hdead : (sys P).Dead (Act P) (fun _ => True) (f ())) :
    ∀ {ids : List UUID} (done : List UUID) {w : Wd} {L : List (Key × Row)} {ws : List Write}, Real P w →
    Rdy P (.activate o) i w L ws → (∀ id ∈ ids, ∃ c, w.sh.db.commands.find id = some c) →
    ids.Nodup → Untouched P ws ids →
    Unqueued P L ws done → Stopping P r L ws →
    (∀ w' L' ws' vs, After P i vs w w' → (∀ v ∈ vs, ∀ p xs, v ≠ .selected p xs) → Rdy P (.activate o) i w' L' ws' →
      Unqueued P L' ws' (done ++ ids) → Stopping P r L' ws' → wps P i (f ()) (Done P i) w') →
    wps P i ((blockAll ids).bind f) (Done P i) w
  | [], done, w, L, ws, _, h, _, _, _, hd, hst, hk =>
    hk w L ws [] ⟨.refl, by simp⟩ (by simp) h (by simpa using hd) hst
  | id :: ids, done, w, L, ws, hr, h, hids, hnd, hun, hd, hst, hk => by
    obtain ⟨hnid, hnd'⟩ := List.nodup_cons.mp hnd
    have hun' : Untouched P ws ids := fun x hx => hun x (List.mem_cons_of_mem _ hx)
    have hids' : ∀ {w₁ vs}, After P i vs w w₁ → ∀ x ∈ ids, ∃ c, w₁.sh.db.commands.find x = some c := by
      intro w₁ vs s₁ x hx
      obtain ⟨c, hc⟩ := hids x (List.mem_cons_of_mem _ hx)
      obtain ⟨c', hc', -⟩ := (After.later s₁).db.command x c hc
      exact ⟨c', hc'⟩
    have hperm : ∀ x ∈ done ++ id :: ids, x ∈ id :: done ++ ids := by
      intro x hx
      simp only [List.mem_append, List.mem_cons] at hx ⊢
      tauto
    unfold blockAll
    simp only [Prog.bind_eq, Prog.bind_assoc]
    refine wps_tryTransition h.toHeld (by simp) (fun w' vs e _ hf => ?_) (fun w₁ _ s₁ h₁ hf => ?_)
      (fun w₁ row s₁ h₁ hf hacc => ?_) (fun w₁ _ row s₁ h₁ hf hacc hne hval => ?_)
      fun w₁ row u n s₁ hf hacc hval h₁ => ?_
    · exact wps_dead (Dead.bind (Dead.mono (by rintro _ rfl; exact hdead) (dead_blockAll ids))) hf
    · obtain ⟨c, hc⟩ := hids id (List.mem_cons_self ..)
      obtain ⟨c', hc', -⟩ := ((After.later s₁).db.trans (Rdy.later (h.since s₁.shared h₁))).command id c hc
      rw [hf] at hc'; cases hc'
    · refine wps_blockAll hdead (id :: done) (After.real s₁ hr)
        (L := (.command id, w₁.sh.db.row (.command id)) :: L)
        ((h.since s₁.shared (h₁.mono fun p hp => List.mem_cons_of_mem _ hp)).mono
          (fun p hp => List.mem_cons_of_mem _ hp) h₁) (hids' s₁) hnd' hun' ?_
        (hst.mono fun p hp => List.mem_cons_of_mem _ hp) fun w' L' ws' vs s' hvs h' hd' => ?_
      · intro d hL x hx c hc
        rcases List.mem_cons.mp hx with rfl | hx
        · have he : d.row (.command x) = w₁.sh.db.row (.command x) := hL _ (List.mem_cons_self ..)
          rw [view_command he, hf] at hc
          cases hc
          rintro hq
          rw [Option.getD_none, hq, queued_accepts] at hacc; cases hacc
        · exact hd d (fun p hp => hL p (List.mem_cons_of_mem _ hp)) x hx c hc
      · exact hk w' L' ws' _ (s₁.trans s') (by simpa [lockEntry] using hvs) h' (hd'.mono hperm)
    · have hl := h.since s₁.shared (h₁.mono fun p hp => List.mem_cons_of_mem _ hp)
      have hv := validated_of_accepts (s := row.state) hacc (Rdy.live hl (After.real s₁ hr) hf).2 (by decide)
      rw [hv] at hval; cases hval
    · have hid : row.id = id := by simpa using Table.key_of_find hf
      subst hid
      simp only [Option.getD_none] at hacc hval h₁ ⊢
      have hl : LockedAt w₁ i none row .blockedByEmergencyStop .emergencyStopActivation :=
        LockedAt.of_after s₁ ⟨row, by rw [← hun row.id (List.mem_cons_self ..)]; exact hf, rfl⟩ hacc
      refine wps_blockAll hdead (row.id :: done) (After.real s₁ hr)
        (Rdy.transition h s₁.shared hf hl h₁ trivial (hval.imp_right fun hv => ⟨rfl, hv⟩) (by simp)) (hids' s₁)
        hnd' (hun'.transition hnid) (hd.transition rfl) (hst.mono fun p hp => List.mem_cons_of_mem _ hp).transition
        fun w' L' ws' vs s' hvs h' hd' => ?_
      exact hk w' L' ws' _ (s₁.trans s') (by simpa [lockEntry] using hvs) h' (hd'.mono hperm)

theorem nodup_blockable (d : DB) (o : UUID) : (d.blockable o).Nodup :=
  d.commands.nodup.sublist (List.filter_sublist.map _)

theorem mem_blockable {d : DB} {o id : UUID} (h : id ∈ d.blockable o) : ∃ c, d.commands.find id = some c := by
  obtain ⟨c, hc, rfl⟩ := List.mem_map.mp h
  exact ⟨c, Table.find_of_mem (List.mem_filter.mp hc).1⟩

def Blocks (P : Params) (i : Nat) (o : UUID) (s : St) (L : List (Key × Row)) (ws : List Write) : Prop :=
  ∃ ids, Selected s.trace i o ids ∧ Unqueued P L ws ids

theorem Blocks.blocked {o : UUID} (h : Blocks P i o w.sh L ws) (s : After P i [] w w')
    (hd : (sys P).Agrees L w'.sh.db) : Blocked w'.sh i o ((sys P).applyAll ws w'.sh.db) := by
  obtain ⟨ids, ht, hu⟩ := h
  exact ⟨ids, ht.after s (by simp), fun id hid c hc => hu w'.sh.db hd id hid c hc⟩

structure Activated (P : Params) (i : Nat) (r : EmergencyStop) (w : Wd) (L : List (Key × Row)) (ws : List Write) :
    Prop where
  ready : Rdy P (.activate r.ownerId) i w L ws
  stop : Stopping P r L ws
  blocks : Blocks P i r.ownerId w.sh L ws

theorem wps_blockCommands {α : Type} {o : UUID} {r : EmergencyStop} {f : Unit → Op α}
    (hdead : (sys P).Dead (Act P) (fun _ => True) (f ())) (hr : Real P w) (h : Rdy P (.activate o) i w L [.stop r])
    (ho : r.ownerId = o) (hst : Stopping P r L [.stop r])
    (hk : ∀ w' L' ws', Activated P i r w' L' ws' → wps P i (f ()) (Done P i) w') :
    wps P i ((blockCommands o).bind f) (Done P i) w := by
  subst ho
  unfold blockCommands
  simp only [Prog.bind_eq, Prog.bind_assoc]
  refine wp_readAs h.toHeld (fun w₀ w₁ _ hsh => ?_) fun w₀ w₁ s₀ hsh₀ h₁ => ?_
  · exact ⟨say_act (v := .selected r.ownerId (w₀.sh.db.blockable r.ownerId)) rfl hsh, fun _ => done_error⟩
  have hg₀ : ReflTransGen (Act P) w₀.sh w₁.sh :=
    say_act (v := .selected r.ownerId (w₀.sh.db.blockable r.ownerId)) rfl hsh₀
  have s₁ : After P i [.selected r.ownerId (w₀.sh.db.blockable r.ownerId)] w w₁ := s₀.act hg₀ (by rw [hsh₀]; rfl)
  refine ⟨hg₀, ?_⟩
  split
  · -- without a device there was nothing to block
    rename_i hempty
    have hnone : w₀.sh.db.blockable r.ownerId = [] := blockable_of_no_device hempty
    refine hk w₁ L _ ⟨h.since s₁.shared h₁, hst, w₀.sh.db.blockable r.ownerId, ?_,
      by rw [hnone]; intro d _ id hid; cases hid⟩
    exact ⟨_, [], s₁.trace, by simp⟩
  · simp only [Prog.bind_assoc]
    refine wp_readAs h₁ (fun w₂ w₃ s₂ hsh => ?_) fun w₂ w₃ s₂ hsh h₃ => ?_
    · exact ⟨say_act (v := .selected r.ownerId (w₂.sh.db.blockable r.ownerId)) rfl hsh, fun _ => done_error⟩
    · have hg : ReflTransGen (Act P) w₂.sh w₃.sh :=
        say_act (v := .selected r.ownerId (w₂.sh.db.blockable r.ownerId)) rfl hsh
      have s₃ : After P i [.selected r.ownerId (w₀.sh.db.blockable r.ownerId),
          .selected r.ownerId (w₂.sh.db.blockable r.ownerId)] w w₃ :=
        s₁.trans (s₂.act hg (by rw [hsh]; rfl))
      refine ⟨hg, ?_⟩
      refine wps_blockAll hdead [] (After.real s₃ hr) (h.since s₃.shared h₃) (fun id hid => ?_)
        (nodup_blockable ..) (fun _ _ _ => rfl) (by intro d _ id hid; cases hid) hst
        fun w' L' ws' vs s' hvs h' hd' hst' => hk w' L' ws' ⟨h', hst', _, Selected.after ?_ s' hvs, hd'⟩
      · have hdb : w₃.sh.db = w₂.sh.db := by rw [hsh]; rfl
        rw [hdb]; exact mem_blockable hid
      · refine ⟨own i w.sh.trace ++ [.selected r.ownerId (w₀.sh.db.blockable r.ownerId)], [], ?_, by simp⟩
        rw [s₃.trace]
        simp [DB.blockable, Write.apply, DB.ownerOf]

/-! ## Activation and release -/

theorem updateStop_cases {o : UUID} {f : EmergencyStop → EmergencyStop} {d : DB} {us : List Write}
    (h : updateStop o f d = .ok us) : ∃ r, d.stops.find o = some r ∧ us = [.stop { f r with ownerId := o }] := by
  cases hr : d.stops.find o with
  | none => simp [updateStop, hr] at h
  | some r =>
    have ho : r.ownerId = o := by simpa using Table.key_of_find hr
    exact ⟨r, rfl, ho ▸ ((updateStop_ok hr).mp h).2.2.2⟩

theorem updateStop_error {o : UUID} {f : EmergencyStop → EmergencyStop} {d : DB} {x : Err}
    (h : updateStop o f d = .error x) : ∀ v, x ≠ .trigger v := by
  unfold updateStop at h
  intro v hv
  subst hv
  split at h
  · cases h
  · split at h
    · cases h
    · split at h <;> cases h

theorem insertStop_cases {r : EmergencyStop} {d : DB} {us : List Write} (h : insertStop r d = .ok us) :
    us = [.stop r] ∧ d.stops.find r.ownerId = none :=
  ⟨(insertStop_ok.mp h).2.2.2, (insertStop_ok.mp h).1⟩

theorem insertStop_error {r : EmergencyStop} {d : DB} {x : Err} (h : insertStop r d = .error x) :
    ∀ v, x ≠ .trigger v := by
  unfold insertStop at h
  intro v hv
  subst hv
  split at h
  · cases h
  · split at h <;> cases h

/-- What is locked decides whether the stop is active. -/
theorem stopActive_of_agrees {d d' : DB} {o : UUID} (hd : (sys P).Agrees L d)
    (hm : (Key.stop o, d'.row (.stop o)) ∈ L) : d.stopActive o = d'.stopActive o := by
  have he : d.row (.stop o) = d'.row (.stop o) := hd _ hm
  simp only [DB.row, Row.stop.injEq] at he
  rw [DB.stopActive, DB.stopActive, he]

theorem stopping_put {r : EmergencyStop} {d : DB} (hb : d.stopActive r.ownerId = !r.active) :
    Stopping P r ([Key.stop r.ownerId].map (fun k => (k, d.row k)) ++ L) ([] ++ [.stop r]) :=
  ⟨fun _ hd => (stopActive_of_agrees hd (List.mem_cons_self ..)).trans hb, fun _ => rfl, fun _ => rfl, fun _ => rfl⟩

theorem wps_writeStop {α : Type} {existing : Option EmergencyStop} {o actor : UUID}
    {reason : String} {f : Unit → Op α}
    (h : Holds P i w L []) (hL : ∀ stop ∈ existing, ∀ d, (sys P).Agrees L d → d.stopActive o = false)
    (hk : ∀ w' r L', After P i [] w w' → r.ownerId = o → r.active = true → r.releasedAt = none →
      Holds P i w' L' [.stop r] → Stopping P r L' [.stop r] → wps P i (f ()) (Done P i) w') :
    wps P i ((writeStop existing o reason actor).bind f) (Done P i) w := by
  unfold writeStop
  simp only [Prog.bind_eq, Prog.pure_eq, Prog.bind_assoc]
  refine wps_now h fun w₁ s₁ h₁ => ?_
  cases existing with
  | some stop =>
    simp only [Prog.bind_assoc, Prog.ret_bind]
    refine wps_execute h₁ (fun _ _ _ _ _ => done_error) (fun _ _ _ _ hfn => sayOk_rejected (updateStop_error hfn))
      fun w₂ us s₂ hfn h₂ => ?_
    obtain ⟨r, hr, rfl⟩ := updateStop_cases hfn
    have hb := hL stop rfl w₂.sh.db fun p hp => h₂.rows p (List.mem_append_right _ hp)
    exact hk w₂ _ _ (s₁.then s₂) rfl rfl rfl h₂ (stopping_put hb)
  | none =>
    simp only [Prog.bind_assoc, Prog.ret_bind]
    refine wps_execute h₁ (fun _ _ _ _ _ => done_error) (fun _ _ _ _ hfn => sayOk_rejected (insertStop_error hfn))
      fun w₂ us s₂ hfn h₂ => ?_
    -- the unique index on the owner stands for the lock of the row
    obtain ⟨rfl, hn⟩ := insertStop_cases hfn
    have hb : w₂.sh.db.stopActive o = false := by rw [DB.stopActive, show w₂.sh.db.stops.find o = none from hn]
    exact hk w₂ _ _ (s₁.then s₂) rfl rfl rfl h₂ (stopping_put hb)

theorem Holds.stop {t : Tag} {r : EmergencyStop} (h : Holds P i w L [.stop r])
    (ht : t.stop = some (r.ownerId, r.active)) :
    Rdy P t i w L [.stop r] := ⟨h, fun _ _ _ => ⟨.stop ht, trivial⟩⟩

/-- The row of a new event is still free where its lock is kept. -/
theorem free_of_agrees {d d' : DB} {id : UUID} (hd : (sys P).Agrees L d)
    (hm : (Key.outbox id, d'.row (.outbox id)) ∈ L)
    (hn : d'.outbox.find id = none) : d.outbox.find id = none := by
  have he : d.row (.outbox id) = d'.row (.outbox id) := hd _ hm
  simp only [DB.row, Row.outbox.injEq] at he
  exact he.trans hn

theorem Blocks.append {o : UUID} {us : List Write} {L' : List (Key × Row)} (h : Blocks P i o w.sh L ws)
    (hs : After P i [] w w') (hL : ∀ p ∈ L, p ∈ L') (hu : ∀ d, ((sys P).applyAll us d).commands = d.commands) :
    Blocks P i o w'.sh L' (ws ++ us) := by
  obtain ⟨ids, ht, hun⟩ := h
  refine ⟨ids, ht.after hs (by simp), fun d hd id hid c hc => ?_⟩
  rw [applyAll_append, hu] at hc
  exact hun d (fun p hp => hd p (hL p hp)) id hid c hc

theorem wps_announce {α : Type} {t : Tag} {r : EmergencyStop} {a : AuditLog} {et : EventType} {msg : Time → Msg}
    {f : Unit → Op α} (h : Rdy P t i w L ws) (hst : Stopping P r L ws) (hr : r.releasedAt = none ↔ r.active = true)
    (ha : a.approvalId = t.audited) (hat : a.stop = t.stop) (ht : t.stop = some (r.ownerId, r.active))
    (htn : t.notice = some (r.ownerId, r.active))
    (het : ∀ e : OutboxEvent, e.eventType = et → e.aggregateId = r.ownerId → e.stop = some (r.ownerId, r.active))
    (hm : ∀ n k c p, msg n ≠ .lifecycle k c p) (hd : ∀ n dev st o, msg n ≠ .deviceLifecycle dev st o)
    (hk : ∀ w' e L', After P i [] w w' → (∀ p ∈ L, p ∈ L') → Rdy P t i w' L' (ws ++ [.audit a] ++ [.outbox e]) →
      (∀ d, (sys P).Agrees L' d →
        Switched d ((sys P).applyAll (ws ++ [.audit a] ++ [.outbox e]) d) r.ownerId r.active) →
      wps P i (f ()) (Done P i) w') :
    wps P i ((execute [] (insertAudit a)).bind fun _ => (effect .now).bind fun now =>
      (addEvent et .owner r.ownerId (msg now)).bind f) (Done P i) w := by
  refine wps_put (insertAudit_cases _) h.toHeld (fun _ _ _ _ _ => done_error) fun w₁ s₁ h₁ => ?_
  have h₁ := h.append s₁.shared h₁ fun _ _ _ => ⟨.audit ha hat, trivial⟩
  refine wps_now h₁.toHeld fun w₂ s₂ h₂ => ?_
  have h₂ := h₁.since s₂.shared h₂
  refine wps_addEvent h₂.toHeld (fun _ _ _ _ _ => done_error) fun w₃ e s₃ he hn h₃ => ?_
  have hstop := het e he.eventType he.aggregateId
  have hnone : w₃.sh.db.outbox.find e.id = none := by
    rw [applyAll_append] at hn
    rw [← hst.outbox]
    exact hn
  refine hk w₃ e _ (s₁.then (s₂.then s₃)) (fun p hp => List.mem_cons_of_mem _ hp)
    (Rdy.notice h₂ s₃ he (by decide) (hm _) (fun dev st o he => absurd he (hd _ dev st o))
      (hstop.trans htn.symm) hn h₃) fun d hd => ?_
  exact hst.switched hr (fun p hp => hd p (List.mem_cons_of_mem _ hp)) (hat.trans ht) hstop
    (free_of_agrees hd (List.mem_cons_self ..) hnone)

theorem wps_activateFrom {existing : Option EmergencyStop} {o actor : UUID} {reason : String} (hr : Real P w)
    (h : Holds P i w L []) (hL : ∀ stop ∈ existing, ∀ d, (sys P).Agrees L d → d.stopActive o = false) :
    wps P i (activateRow.activateFrom o reason actor existing) (Done P i) w := by
  unfold activateRow.activateFrom
  simp only [Prog.bind_eq, Prog.pure_eq]
  refine wps_writeStop h hL fun w₁ r L₁ s₁ ho ha hrel h₁ hst₁ => ?_
  subst ho
  refine wps_blockCommands trivial (After.real s₁ hr) (Holds.stop h₁ (by rw [ha]; rfl)) rfl hst₁
    fun w₂ L₂ ws₂ h₂ => ?_
  refine wps_announce h₂.ready h₂.stop (by simp [ha, hrel])
    rfl rfl (by simp [Tag.stop, ha]) (by simp [Tag.notice, ha])
    (fun e he hid => by simp [OutboxEvent.stop, he, hid, ha]) (by intro _ k c p hm; cases hm)
    (by intro _ dev st o hm; cases hm) fun w₃ e L₃ s₃ hL₃ h₃ hsw => ?_
  refine wps_commitChain h₃ (fun _ _ _ _ _ => done_error) (fun w' s' h' => ⟨?_, ?_⟩) fun w₄ s₄ h₄ => ?_
  · rw [← ha]
    exact hsw w'.sh.db h'.agrees
  · refine Blocks.blocked ?_ s' h'.agrees
    refine Blocks.append (w := w₃) ?_ ⟨.refl, by simp⟩ (fun _ hp => hp) fun _ => rfl
    exact h₂.blocks.append s₃ hL₃ fun _ => rfl
  · exact wps_select h₄ (fun _ _ _ => done_error) fun w₅ s₅ h₅ => done_ok h₅

theorem refines_activate {o actor : UUID} {reason : String} (hr : Real P w) (h : Holds P i w [] []) :
    wps P i (activate o reason actor) (fun _ w' => Holds P i w' [] []) w := by
  unfold activate
  refine wp_bind (wp_mono (fun r w₁ h₁ => ?_) (wps_withSession ?_))
  · cases r with
    | error e => exact h₁
    | ok stop =>
      cases stop with
      | none => exact h₁
      | some stop =>
        show wps P i (effect _) _ w₁
        rw [← Prog.bind_ret (effect _)]
        exact wps_cacheSet h₁ (fun _ _ h₂ => h₂) fun _ _ h₂ => h₂
  · unfold activateRow
    refine wps_selectForUpdate h (fun _ _ _ => done_error) (fun w₁ s₁ h₁ _ => ?_) fun w₁ stop s₁ hf h₁ => ?_
    · exact wps_activateFrom (After.real s₁ hr) h₁ (by simp)
    · have ho : stop.ownerId = o := by simpa using Table.key_of_find hf
      have hact : w₁.sh.db.stopActive o = stop.active := by
        rw [DB.stopActive, show w₁.sh.db.stops.find o = some stop from hf]
      rw [ho] at h₁
      dsimp only
      split
      · refine wps_now h₁ fun w₂ s₂ h₂ => ?_
        refine wps_addEvent h₂ (fun _ _ _ _ _ => done_error) fun w₃ e s₃ he hn h₃ => ?_
        refine wps_commitChain (Rdy.notice h₂.ready s₃ he (by decide) (by intro k c p hm; cases hm)
          (by intro dev st o hm; cases hm) (by simp [OutboxEvent.stop, he.eventType,
            he.aggregateId, Tag.notice]) hn h₃)
          (fun _ _ _ _ _ => done_error) (fun _ _ _ => trivial) fun w₄ s₄ h₄ => done_ok h₄
      · rename_i hoff
        refine wps_activateFrom (After.real s₁ hr) h₁ fun _ _ d hd => ?_
        rw [stopActive_of_agrees hd (List.mem_cons_self ..), hact]
        simpa using hoff

theorem refines_release {o actor : UUID} (h : Holds P i w [] []) :
    wps P i (release o actor) (fun _ w' => Holds P i w' [] []) w := by
  unfold release
  refine wp_bind (wp_mono (fun r w₁ h₁ => ?_) (wps_withSession ?_))
  · cases r with
    | error e => exact h₁
    | ok b =>
      cases b with
      | false => exact h₁
      | true =>
        show wps P i (effect _) _ w₁
        rw [← Prog.bind_ret (effect _)]
        exact wps_cacheDelete h₁ (fun _ _ h₂ => h₂) fun _ _ h₂ => h₂
  · unfold releaseRow
    refine wps_selectForUpdate h (fun _ _ _ => done_error) (fun w₁ s₁ h₁ _ => done_ok h₁) fun w₁ stop s₁ hf h₁ => ?_
    have ho : stop.ownerId = o := by simpa using Table.key_of_find hf
    have hact : w₁.sh.db.stopActive o = stop.active := by
      rw [DB.stopActive, show w₁.sh.db.stops.find o = some stop from hf]
    rw [ho] at h₁
    dsimp only
    split
    · rename_i hon
      refine wps_now h₁ fun w₂ s₂ h₂ => ?_
      refine wps_execute h₂ (fun _ _ _ _ _ => done_error) (fun _ _ _ _ hfn => sayOk_rejected (updateStop_error hfn))
        fun w₃ us s₃ hfn h₃ => ?_
      obtain ⟨r, rfl, hro, hra, hrel⟩ : ∃ r : EmergencyStop, us = [.stop r] ∧ r.ownerId = o ∧ r.active = false ∧
          r.releasedAt ≠ none := by
        obtain ⟨r, -, rfl⟩ := updateStop_cases hfn
        exact ⟨_, rfl, rfl, rfl, by simp⟩
      subst hro
      have hb : w₃.sh.db.stopActive r.ownerId = !r.active := by
        rw [hra, stopActive_of_agrees h₃.agrees (List.mem_append_right _ (List.mem_cons_self ..)), hact, hon]
        rfl
      refine wps_announce (t := .release r.ownerId) (Holds.stop h₃ (by rw [hra]; rfl))
        (stopping_put hb) (by simp [hra, hrel])
        rfl rfl (by rw [hra]; rfl) (by rw [hra]; rfl) (fun e he hid => by simp [OutboxEvent.stop, he, hid, hra])
        (by intro _ k c p hm; cases hm) (by intro _ dev st o hm; cases hm) fun w₄ e L₄ s₄ _ h₄ hsw => ?_
      refine wps_commitChain h₄ (fun _ _ _ _ _ => done_error) (fun w' _ h' => ?_) fun w₅ s₅ h₅ => ?_
      · have := hsw w'.sh.db h'.agrees
        rw [hra] at this
        exact this
      exact wps_select h₅ (fun _ _ _ => done_error) fun w₆ s₆ h₆ => done_ok h₆
    · exact done_ok h₁

end

end Veyaan
