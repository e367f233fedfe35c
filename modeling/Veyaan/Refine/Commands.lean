import Veyaan.Refine.Base

/-!
# `CommandService` follows the protocol
-/

open Relation (ReflTransGen)

namespace Veyaan

open Sys

section
variable {P : Params} {i : Nat} {w w' : Wd} {L : List (Key × Row)} {ws : List Write}

theorem insertCommand_cases {c : Command} {d : DB} {us : List Write} (h : insertCommand c d = .ok us) :
    us = [.command c] ∧ d.commands.find c.id = none := by
  unfold insertCommand at h
  split at h
  · cases h
  · rename_i hn
    simp only [Bool.or_eq_true, not_or, Bool.not_eq_true, Option.isSome_eq_false_iff,
      Option.isNone_iff_eq_none] at hn
    split at h <;> cases h
    exact ⟨rfl, hn.1⟩

theorem insertCommand_error {c : Command} {d : DB} {x : Err} (h : insertCommand c d = .error x) :
    ∀ v, x ≠ .trigger v := by
  unfold insertCommand at h
  intro v hv
  subst hv
  split at h
  · cases h
  · split at h <;> cases h

theorem insertTask_cases {t : Task} {d : DB} {us : List Write} (h : insertTask t d = .ok us) : us = [.task t] := by
  unfold insertTask at h; split at h <;> cases h; rfl

theorem insertTask_error {t : Task} {d : DB} {x : Err} (h : insertTask t d = .error x) : ∀ v, x ≠ .trigger v := by
  unfold insertTask at h; intro v hv; subst hv; split at h <;> cases h

theorem insertApproval_cases {a : Approval} {d : DB} {us : List Write} (h : insertApproval a d = .ok us) :
    us = [.approval a] ∧ d.approvals.find a.id = none :=
  ⟨(insertApproval_ok.mp h).2.2.2, (insertApproval_ok.mp h).1⟩

theorem insertApproval_error {a : Approval} {d : DB} {x : Err} (h : insertApproval a d = .error x) :
    ∀ v, x ≠ .trigger v := by
  unfold insertApproval at h; intro v hv; subst hv; split at h <;> cases h

/-- A transition of the session's own new row: nothing can come between. -/
theorem wps_ownTransition {α : Type} {Q : Except Err α → Wd → Prop} {c : Command} {id : UUID} {new : CommandState}
    {source : Source} {m : Option Metadata} {f : Option Command → Op α} (h : Holds P i w L ws) (hid : c.id = id)
    (hview : ∀ d, ((sys P).applyAll ws d).commands.find id = some c)
    (hacc : accepts c.state new = true) (hval : validateCommandStateTransition c.state new = true)
    (hE : ∀ w' vs e, After P i vs w w' → (w'.sess i).failed = true → Q (.error e) w')
    (hk : ∀ w' vs u n, After P i vs w w' →
      Holds P i w' L (ws ++ [.command (c.transition new u n m), .event ⟨id, some c.state, new, source, m⟩]) →
      wps P i (f (some (c.transition new u n m))) Q w') :
    wps P i ((transitionCommand (some c) id new source m).bind f) Q w := by
  refine wps_transition h (by simp [hid]) hE (fun w' _ hs h' hf => ?_) (fun w' row hs h' hf hbad => ?_)
    (fun w' _ row hs h' hf _ _ hv => ?_) fun w' row u n hs hf _ _ h' => ?_
  · rw [hview] at hf; cases hf
  · rw [Option.getD_some, hacc] at hbad; cases hbad
  · rw [hview] at hf; cases hf; rw [hval] at hv; cases hv
  · rw [hview] at hf; cases hf
    refine hk w' _ u n hs ?_
    rw [← Command.flushed_self, ← hid]
    exact h'.mono fun p hp => List.mem_cons_of_mem _ hp

/-- What `create_command` knows when its checks are done. -/
structure Checked (P : Params) (i : Nat) (r : CreateCommandRequest) (o : UUID) (dev : Device) (w : Wd) : Prop where
  id : dev.id = r.deviceId
  owner : w.sh.db.ownerOf r.deviceId = some o
  trace : (i, Ev.stopRead .create o (some false)) ∈ w.sh.trace

theorem Checked.later {r : CreateCommandRequest} {o : UUID} {dev : Device} (h : Checked P i r o dev w)
    (hl : Later w.sh w'.sh) : Checked P i r o dev w' :=
  ⟨h.id, hl.db.ownerOf h.owner, hl.trace.subset h.trace⟩

structure Builds (P : Params) (c : Command) (ft : Table Task → Table Task) (fa : Table Approval → Table Approval)
    (es : List CommandStateEvent) (ws : List Write) : Prop where
  commands : ∀ d, ((sys P).applyAll ws d).commands = d.commands.put c
  tasks : ∀ d, ((sys P).applyAll ws d).tasks = ft d.tasks
  approvals : ∀ d, ((sys P).applyAll ws d).approvals = fa d.approvals
  events : ∀ d, ((sys P).applyAll ws d).events = d.events ++ es
  devices : ∀ d, ((sys P).applyAll ws d).devices = d.devices
  stops : ∀ d, ((sys P).applyAll ws d).stops = d.stops
  outbox : ∀ d, ((sys P).applyAll ws d).outbox = d.outbox
  audits : ∀ d, ((sys P).applyAll ws d).audits = d.audits
  pairings : ∀ d, ((sys P).applyAll ws d).pairings = d.pairings
  credentials : ∀ d, ((sys P).applyAll ws d).credentials = d.credentials
  users : ∀ d, ((sys P).applyAll ws d).users = d.users

theorem Builds.transition {c c' : Command} {ft : Table Task → Table Task} {fa : Table Approval → Table Approval}
    {e : CommandStateEvent} {es : List CommandStateEvent} (h : Builds P c ft fa es ws) (hs : c.Same c') :
    Builds P c' ft fa (es ++ [e]) (ws ++ [.command c', .event e]) where
  commands d := by
    simp only [applyAll_append, applyAll_cons, applyAll_nil, sys_apply, Write.apply, h.commands]
    exact Table.put_put _ hs.id.symm
  tasks d := by simp [applyAll_append, Write.apply, h.tasks]
  approvals d := by simp [applyAll_append, Write.apply, h.approvals]
  events d := by simp [applyAll_append, Write.apply, h.events]
  devices d := by simp [applyAll_append, Write.apply, h.devices]
  stops d := by simp [applyAll_append, Write.apply, h.stops]
  outbox d := by simp [applyAll_append, Write.apply, h.outbox]
  audits d := by simp [applyAll_append, Write.apply, h.audits]
  pairings d := by simp [applyAll_append, Write.apply, h.pairings]
  credentials d := by simp [applyAll_append, Write.apply, h.credentials]
  users d := by simp [applyAll_append, Write.apply, h.users]

theorem wps_newTransitions {α : Type} {Q : Except Err α → Wd → Prop} {c : Command} {new : CommandState}
    {ft : Table Task → Table Task} {fa : Table Approval → Table Approval} {f : Option Command → Op α}
    (h : Holds P i w L ws) (hst : c.state = .received)
    (hw : Builds P c ft fa [⟨c.id, none, .received, .api, none⟩] ws)
    (hnew : new = .awaitingApproval ∨ new = .queued)
    (hE : ∀ w' vs e, After P i vs w w' → (w'.sess i).failed = true → Q (.error e) w')
    (hk : ∀ w' vs c' ws', After P i vs w w' → c.Same c' → c'.state = new →
      Builds P c' ft fa (createdEvents c') ws' →
      Holds P i w' L ws' → wps P i (f (some c')) Q w') :
    wps P i ((transitionCommand (some c) c.id .validated .api none).bind fun c₁ =>
      (transitionCommand c₁ c.id new .api none).bind f) Q w := by
  refine wps_ownTransition h rfl (fun d => by rw [hw.commands]; exact Table.find_put_self ..) (by rw [hst]; decide)
    (by rw [hst]; decide) hE fun w₁ _ u₁ n₁ s₁ h₁ => ?_
  have hs₁ := c.transition_same .validated u₁ n₁ none
  have hw₁ : Builds P (c.transition .validated u₁ n₁ none) ft fa _ _ :=
    hw.transition (e := ⟨c.id, some c.state, .validated, .api, none⟩) hs₁
  refine wps_ownTransition h₁ hs₁.id (fun d => by rw [hw₁.commands, ← hs₁.id]; exact Table.find_put_self ..)
    (by rcases hnew with rfl | rfl <;> simp <;> decide) (by rcases hnew with rfl | rfl <;> simp <;> decide)
    (fun w' vs e s => hE w' _ e (s₁.trans s)) fun w₂ _ u₂ n₂ s₂ h₂ => ?_
  have hs₂ := (c.transition .validated u₁ n₁ none).transition_same new u₂ n₂ none
  refine hk w₂ _ _ _ (s₁.trans s₂) (hs₁.trans hs₂) (by simp) ?_ h₂
  have hevents : createdEvents ((c.transition .validated u₁ n₁ none).transition new u₂ n₂ none) =
      [⟨c.id, none, .received, .api, none⟩] ++ [⟨c.id, some c.state, .validated, .api, none⟩] ++
        [⟨c.id, some (c.transition .validated u₁ n₁ none).state, new, .api, none⟩] := by
    simp [createdEvents, (hs₁.trans hs₂).id, hst]
  rw [hevents]
  exact hw₁.transition hs₂

theorem wps_createApproval {α : Type} {Q : Except Err α → Wd → Prop} {cid o : UUID} {risk : RiskLevel}
    {title desc : String} {mins : Nat} {f : Approval × String → Op α} (h : Holds P i w L ws)
    (hE : ∀ w' vs e, After P i vs w w' → (w'.sess i).failed = true → Q (.error e) w')
    (hk : ∀ w' a nonce, After P i [] w w' → a.commandId = cid → a.ownerId = o → a.status = .pending →
      ((sys P).applyAll ws w'.sh.db).approvals.find a.id = none →
      Holds P i w' ((.approval a.id, w'.sh.db.row (.approval a.id)) :: L) (ws ++ [.approval a]) →
      wps P i (f (a, nonce)) Q w') :
    wps P i ((createApproval P cid o risk title desc mins).bind f) Q w := by
  refine wp_bind ?_
  unfold createApproval
  refine wps_token h fun w₁ nonce s₁ h₁ => wps_now h₁ fun w₂ s₂ h₂ => wps_uuid4 h₂ fun w₃ id s₃ h₃ => ?_
  have s₃ := s₁.then (s₂.then s₃)
  refine wps_execute h₃ (fun w' vs e s => hE w' vs e (s₃.then s))
    (fun _ _ _ _ hfn => sayOk_rejected (insertApproval_error hfn)) fun w₄ us s₄ hfn h₄ => ?_
  obtain ⟨rfl, hn⟩ := insertApproval_cases hfn
  refine wps_select h₄ (fun w' s => hE w' [] .db (s₃.then (s₄.then s))) fun w₅ s₅ h₅ => ?_
  have he : w₅.sh.db.row (.approval id) = w₄.sh.db.row (.approval id) :=
    h₅.rows (.approval id, w₄.sh.db.row (.approval id)) (by simp)
  refine hk w₅ _ nonce (s₃.then (s₄.then s₅)) rfl rfl rfl ?_ (h₅.mono fun p hp => ?_)
  · have := row_congr (S := sys P) (k := .approval id) ws he
    simp only [sys, DB.row, Row.approval.injEq] at this
    exact Eq.trans this hn
  · rcases List.mem_cons.mp hp with rfl | hp
    · exact List.mem_append_left _ (by simp [he])
    · exact List.mem_append_right _ hp

theorem wps_insertNewCommand {r : CreateCommandRequest} {o : UUID} {dev : Device} {df : CommandDefinition}
    (hdf : commandRegistry r.commandType = some df) (hc : Checked P i r o dev w) (h : Holds P i w [] []) :
    wps P i (insertNewCommand P r o dev df) (Done P i) w := by
  unfold insertNewCommand
  simp only [Prog.bind_eq, Prog.pure_eq]
  refine wps_uuid4 h fun w₁ cid s₁ h₁ => wps_now h₁ fun w₂ s₂ h₂ => ?_
  generalize hcmd : r.command df cid w₂.sh.ext.clock = c
  have hid : c.id = cid := by rw [← hcmd]; rfl
  have hst : c.state = .received := by rw [← hcmd]; rfl
  have hdev : c.deviceId = r.deviceId := by rw [← hcmd]; rfl
  have htype : c.commandType = r.commandType := by rw [← hcmd]; rfl
  have hkey : c.idempotencyKey = r.idempotencyKey := by rw [← hcmd]; rfl
  have hreq : c.requiresApproval = (df.requiresApproval || r.requiresApproval) := by rw [← hcmd]; rfl
  subst hid
  refine wps_execute h₂ (fun _ _ _ _ _ => done_error) (fun _ _ _ _ hfn => sayOk_rejected (insertCommand_error hfn))
    fun w₃ us s₃ hfn h₃ => ?_
  obtain ⟨rfl, hnew⟩ := insertCommand_cases hfn
  have hrow : w₃.sh.db.row (.command c.id) = .command none := by simpa [DB.row] using hnew
  have h₃ : Holds P i w₃ [(.command c.id, .command none)] [.command c] := h₃.mono (by simp [hrow])
  refine wps_uuid4 h₃ fun w₄ tid s₄ h₄ => ?_
  refine wps_execute h₄ (fun _ _ _ _ _ => done_error) (fun _ _ _ _ hfn => sayOk_rejected (insertTask_error hfn))
    fun w₅ us s₅ hfn h₅ => ?_
  obtain rfl := insertTask_cases hfn
  generalize htask : Task.mk tid c.id .pending none none none = t at h₅
  have htid : t.commandId = c.id := by rw [← htask]
  have h₅ : Holds P i w₅ [(.command c.id, .command none)] [.command c, .task t] := h₅.mono (by simp)
  refine wps_put (fun d => (insertEvent_cases _ d).imp_right .inl) h₅
    (fun _ _ _ _ _ => done_error) fun w₆ s₆ h₆ => ?_
  have s₆ : After P i [] w w₆ := s₁.then (s₂.then (s₃.then (s₄.then (s₅.then s₆))))
  have hins : Builds P c (·.put t) id [⟨c.id, none, .received, .api, none⟩]
      ([.command c, .task t] ++ [.event ⟨c.id, none, .received, .api, none⟩]) := by
    constructor <;> exact fun d => rfl
  -- what the commit of either branch needs
  have hnew : ∀ {w' vs c' L' ws'}, After P i vs w₆ w' → c.Same c' → Holds P i w' L' ws' →
      (Key.command c.id, Row.command none) ∈ L' → w'.sh.db.commands.find c'.id = none ∧
        w'.sh.db.ownerOf c'.deviceId = some o ∧ (i, Ev.stopRead .create o (some false)) ∈ w'.sh.trace := by
    intro w' vs c' L' ws' s' hs h' hm
    have hc := hc.later (After.later (s₆.then s'))
    have hrow : w'.sh.db.row (.command c.id) = .command none := h'.rows _ hm
    refine ⟨by rw [hs.id]; simpa [DB.row] using hrow, ?_, hc.trace⟩
    rw [hs.deviceId, hdev]; exact hc.owner
  split
  case isTrue hra =>
    refine wps_newTransitions h₆ hst hins (.inl rfl) (fun _ _ _ _ _ => done_error)
      fun w₇ _ c' ws' s₇ hs hst' hi h₇ => ?_
    refine wps_createApproval h₇ (fun _ _ _ _ _ => done_error) fun w₈ a nonce s₈ hac hao hap hn h₈ => ?_
    refine wps_commit h₈ (fun _ _ _ _ _ => done_error) (fun w' s' h' => ?_) fun w' s' h' => done_ok h'
    obtain ⟨hfind, howner, htrace⟩ := hnew (s₇.trans (s₈.then s')) hs h' (by simp)
    have hrow : w'.sh.db.row (.approval a.id) = w₈.sh.db.row (.approval a.id) := h'.rows _ (List.mem_cons_self ..)
    rw [hi.approvals, id] at hn
    rw [← hs.id]
    refine .create (c := c') (r := t) (o := o) ⟨⟨df, hdf, hs.requiresApproval.trans hreq⟩, hs.deviceId.trans hdev,
      hs.commandType.trans htype, hs.idempotencyKey.trans hkey, hfind, howner, htrace, ?_, by
        rw [htid, hs.id], ?_, ?_, ?_,
      ?_, ?_, ?_, ?_, ?_, .inl ⟨by rw [hs.requiresApproval]; exact hra, hst', ?_, a, ?_,
        by rw [hac, hs.id], hao, hap, ?_⟩⟩
    · simp [applyAll_append, Write.apply, hi.commands]
    · simp [applyAll_append, Write.apply, hi.tasks]
    · simp [applyAll_append, Write.apply, hi.events]
    · simp [applyAll_append, Write.apply, hi.devices]
    · simp [applyAll_append, Write.apply, hi.stops]
    · simp [applyAll_append, Write.apply, hi.audits]
    · simp [applyAll_append, Write.apply, hi.pairings]
    · simp [applyAll_append, Write.apply, hi.credentials]
    · simp [applyAll_append, Write.apply, hi.users]
    · simp [applyAll_append, Write.apply, hi.outbox]
    · simpa [DB.row, hn] using hrow
    · simp [applyAll_append, Write.apply, hi.approvals]
  case isFalse hra =>
    refine wps_newTransitions h₆ hst hins (.inr rfl) (fun _ _ _ _ _ => done_error)
      fun w₇ _ c' ws' s₇ hs hst' hi h₇ => ?_
    refine wps_addEvent h₇ (fun _ _ _ _ _ => done_error) fun w₈ e s₈ he hn h₈ => ?_
    refine wps_commit h₈ (fun _ _ _ _ _ => done_error) (fun w' s' h' => ?_) fun w' s' h' => done_ok h'
    obtain ⟨hfind, howner, htrace⟩ := hnew (s₇.trans (s₈.then s')) hs h' (by simp)
    have hrow : w'.sh.db.row (.outbox e.id) = w₈.sh.db.row (.outbox e.id) := h'.rows _ (List.mem_cons_self ..)
    rw [hi.outbox] at hn
    rw [← hs.id]
    refine .create (c := c') (r := t) (o := o) ⟨⟨df, hdf, hs.requiresApproval.trans hreq⟩, hs.deviceId.trans hdev,
      hs.commandType.trans htype, hs.idempotencyKey.trans hkey, hfind, howner, htrace, ?_, by
        rw [htid, hs.id], ?_, ?_, ?_,
      ?_, ?_, ?_, ?_, ?_, .inr ⟨?_, hst', ?_, e, ?_, ?_, by rw [he.aggregateId, hs.id], he.status, ?_, ?_⟩⟩
    · simp [applyAll_append, Write.apply, hi.commands]
    · simp [applyAll_append, Write.apply, hi.tasks]
    · simp [applyAll_append, Write.apply, hi.events]
    · simp [applyAll_append, Write.apply, hi.devices]
    · simp [applyAll_append, Write.apply, hi.stops]
    · simp [applyAll_append, Write.apply, hi.audits]
    · simp [applyAll_append, Write.apply, hi.pairings]
    · simp [applyAll_append, Write.apply, hi.credentials]
    · simp [applyAll_append, Write.apply, hi.users]
    · rw [hs.requiresApproval]; simpa using hra
    · simp [applyAll_append, Write.apply, hi.approvals]
    · simpa [DB.row, hn] using hrow
    · simp [OutboxEvent.isQueued, he.aggregateType, he.eventType, EventType.hasQueued]
    · rw [he.msg, hs.readyMsg, hs.deviceId, hdev, hc.id]
    · simp [applyAll_append, Write.apply, hi.outbox]

theorem refines_createCommand {r : CreateCommandRequest} {o : UUID} (hr : Real P w) (h : Holds P i w [] []) :
    wps P i (createCommand P r o) (fun _ w' => Holds P i w' [] []) w := by
  refine wps_withSession ?_
  refine wps_select h (fun _ _ _ => done_error) fun w₁ s₁ h₁ => ?_
  cases hd : ((sys P).applyAll [] w₁.sh.db).devices.find r.deviceId with
  | none => exact done_error
  | some dev =>
    dsimp only
    split
    · exact done_error
    rename_i ho
    refine wps_columnValue done_error ?_
    split
    · exact done_error
    refine wps_isActive (After.real s₁ hr) h₁ (fun _ _ _ _ _ _ => done_error)
      (fun w₂ vs _ _ _ => ?_) fun w₂ s₂ h₂ => ?_
    · exact done_error
    refine wps_select h₂ (fun _ _ _ => done_error) fun w₃ s₃ h₃ => ?_
    split
    · split
      · exact done_error
      · exact done_error
    · split
      · exact done_error
      · rename_i df hdf
        split
        · refine wps_insertNewCommand hdf (Checked.later (w := w₂) ⟨by simpa using Table.key_of_find hd,
            ?_, ?_⟩ (After.later s₃)) h₃
          · refine (After.later s₂).db.ownerOf ?_
            rw [DB.ownerOf, show w₁.sh.db.devices.find r.deviceId = some dev from hd]
            simpa using ho
          · rw [← mem_own, s₂.trace]; simp
        · exact done_error

theorem refines_cancelCommand {c o : UUID} (hr : Real P w) (h : Holds P i w [] []) :
    wps P i (cancelCommand c o) (fun _ w' => Holds P i w' [] []) w := by
  refine wps_withSession ?_
  refine wps_select h (fun _ _ _ => done_error) fun w₁ s₁ h₁ => ?_
  cases hc : w₁.sh.db.commands.find c with
  | none => simp only [applyAll_nil, hc]; exact done_ok h₁
  | some cmd =>
    have hid : cmd.id = c := by simpa using Table.key_of_find hc
    subst hid
    simp only [applyAll_nil, hc, Option.map_some]
    split
    · exact done_ok h₁
    refine wps_tryTransition h₁ (by simp) (fun w' vs e _ hf => ?_) (fun w₂ _ s₂ h₂ hf => ?_)
      (fun w₂ row s₂ h₂ _ _ => ?_) (fun w₂ _ row s₂ h₂ hf hacc hne hval => ?_)
      fun w₂ row u n s₂ hf hacc hval h₂ => ?_
    · cases e <;> exact done_failed hf
    · obtain ⟨row, hrow, -⟩ := (After.later s₂).db.command _ cmd hc
      simp only [applyAll_nil] at hf
      rw [hf] at hrow; cases hrow
    · exact done_ok h₂
    · intro he
      simp only [Option.getD_some] at hacc he
      rw [he] at hacc
      have hl := (Real.inv (After.real (s₁.then s₂) hr)).db.live _ row (by simpa using hf)
      rw [validated_of_accepts hacc hl.2 (by decide)] at hval; cases hval
    · have hl : LockedAt w₂ i (some cmd) cmd .cancelled .api := LockedAt.of_after s₂ ⟨row, hf, rfl⟩ hacc
      refine wps_commitChain (t := .cancel cmd.id) (Rdy.transition h₁.ready s₂.shared hf hl h₂ trivial ?_ (by simp))
        (fun _ _ _ _ _ => done_error) (fun _ _ _ => trivial) fun w₃ s₃ h₃ => done_ok h₃
      exact hval.imp id fun hv => ⟨⟨rfl, rfl⟩, hv⟩

end

end Veyaan
