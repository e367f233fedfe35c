import Veyaan.Refine.Commands

/-!
# `ApprovalService` follows the protocol

The approval row is read without a lock. What makes a decision count only once
is the row of the command: both transitions happen under its lock, and the
first of them asks for `AWAITING_APPROVAL`.
-/

open Relation (ReflTransGen)

namespace Veyaan

open Sys

section
variable {P : Params} {i : Nat} {w w' : Wd} {L : List (Key × Row)} {ws : List Write}

theorem updateApproval_cases {id : UUID} {f : Approval → Approval} {d : DB} {us : List Write}
    (h : updateApproval id f d = .ok us) :
    ∃ a, d.approvals.find id = some a ∧ us = [.approval { f a with id := a.id }] := by
  unfold updateApproval at h
  split at h
  · cases h
  · rename_i a ha
    split at h <;> cases h
    exact ⟨a, ha, rfl⟩

theorem updateApproval_error {id : UUID} {f : Approval → Approval} {d : DB} {x : Err}
    (h : updateApproval id f d = .error x) : ∀ v, x ≠ .trigger v := by
  unfold updateApproval at h
  intro v hv
  subst hv
  split at h
  · cases h
  · split at h <;> cases h

/-- What `decide_approval` knows when it has written the approval row. -/
structure Deciding (P : Params) (x : Decision) (a a' : Approval) (w : Wd) : Prop where
  valid : x.Valid P
  read : x.read.Same a
  same : a.Same a'
  status : a'.status = if x.approve then ApprovalStatus.approved else .rejected
  find : w.sh.db.approvals.find x.approvalId = some a
  command : ∃ c, w.sh.db.commands.find x.read.commandId = some c ∧ w.sh.db.ownerOf c.deviceId = some x.ownerId

theorem wps_decisionTransition {α : Type} {Q : Except Err α → Wd → Prop} {x : Decision} {a a' : Approval}
    {new : CommandState} {f : Option Command → Op α} (hr : Real P w) (hx : Deciding P x a a' w)
    (h : Holds P i w [(.approval x.approvalId, .approval (some a))] [.approval a'])
    (hnew : new = .approved ∨ new = .rejected)
    (hE : ∀ w' vs e, After P i vs w w' → (w'.sess i).failed = true → Q (.error e) w')
    (hbad : ∀ w' s, Q (.error (.stateTransition x.read.commandId s new)) w')
    (hk : ∀ w' c u n, After P i [lockEntry none x.read.commandId new .approval w'.sh] w w' →
      c.id = x.read.commandId → w'.sh.db.commands.find x.read.commandId = some c →
      w'.sh.db.ownerOf c.deviceId = some x.ownerId → accepts c.state new = true →
      validateCommandStateTransition c.state new = true →
      Holds P i w' [(.command x.read.commandId, .command (some c)), (.approval x.approvalId, .approval (some a))]
        ([.approval a'] ++ transitionWrites c c new u n .approval none) →
      wps P i (f (some (c.transition new u n none))) Q w') :
    wps P i ((transitionCommand none x.read.commandId new .approval none).bind f) Q w := by
  obtain ⟨c₀, hc₀, ho⟩ := hx.command
  have hview : ∀ d, ((sys P).applyAll [.approval a'] d).commands.find x.read.commandId =
      d.commands.find x.read.commandId := fun d => rfl
  refine wps_transition h (by simp) hE (fun w₁ _ s₁ h₁ hf => ?_) (fun w₁ row s₁ h₁ hf _ => hbad w₁ _)
    (fun w₁ _ row s₁ h₁ hf hacc hne hval => ?_) fun w₁ row u n s₁ hf hacc hval h₁ => ?_
  · obtain ⟨c, hc, -⟩ := (After.later s₁).db.command _ c₀ hc₀
    rw [hview, hc] at hf; cases hf
  · rw [hview] at hf
    have hl := (Real.inv (After.real s₁ hr)).db.live _ row hf
    have hv := validated_of_accepts (s := row.state) hacc hl.2 (by rcases hnew with rfl | rfl <;> decide)
    rw [hv] at hval; cases hval
  · rw [hview] at hf
    obtain ⟨c, hc, hs⟩ := (After.later s₁).db.command _ c₀ hc₀
    rw [hf] at hc; cases hc
    have hl := (Real.inv (After.real s₁ hr)).db.live _ row hf
    simp only [Option.getD_none] at hacc hval h₁ ⊢
    refine hk w₁ row u n s₁ (by simpa using Table.key_of_find hf) hf ?_ hacc ?_ ?_
    · rw [hs.deviceId]; exact (After.later s₁).db.ownerOf ho
    · exact validated_of_accepts hacc hl.2 (by rcases hnew with rfl | rfl <;> decide)
    · simpa [DB.row, hf] using h₁

/-- A decision is not put in the way of another: an accepted approval finds the
command waiting. -/
theorem awaiting_of_accepts {s : CommandState} (h : accepts s .approved = true) (hs : s ≠ .approved) :
    s = .awaitingApproval := by
  cases s <;> simp_all [accepts, allowedTransitions, terminalStates]

theorem wps_finishDecision {x : Decision} {note : Option String}
    {f : Unit → Op (Option Unit)} (h : Holds P i w L ws)
    (htx : ∀ w' a, After P i [] w w' → a.approvalId = some x.read.id → a.stop = none →
      Holds P i w' L (ws ++ [.audit a]) → Tx P w'.sh i (.decide x) ((sys P).applyAll (ws ++ [.audit a]) w'.sh.db))
    (hk : ∀ w', Holds P i w' [] [] → wps P i (f ()) (Done P i) w') :
    wps P i ((finishDecision x note).bind f) (Done P i) w := by
  unfold finishDecision
  simp only [Prog.bind_eq, Prog.bind_assoc]
  refine wps_put (insertAudit_cases _) h (fun _ _ _ _ _ => done_error) fun w₁ s₁ h₁ => ?_
  refine wps_commit h₁ (fun _ _ _ _ _ => done_error) (fun w' s' h' => htx w' _ (s₁.then s') rfl ?_ h')
    fun w₂ s₂ h₂ => hk w₂ h₂
  cases hd : x.approve <;> simp [AuditLog.stop]

def decisionRows (x : Decision) (c : Command) (a : Approval) : List (Key × Row) :=
  [(.command x.read.commandId, .command (some c)), (.approval x.approvalId, .approval (some a))]

theorem wps_queueApproved {x : Decision} (c c' : Command) {a a' : Approval} {note : Option String}
    {es : List CommandStateEvent} (hx : Deciding P x a a' w) (ha : x.approve = true)
    (hc : (i, Ev.stopRead .decide x.ownerId (some false)) ∈ w.sh.trace)
    (hid : c.id = x.read.commandId) (ho : w.sh.db.ownerOf c.deviceId = some x.ownerId)
    (hst : c.state = .awaitingApproval) (hs : c.Same c') (hst' : c'.state = .queued)
    (hw : Builds P c' id (·.put a') es ws) (hes : ∀ e ∈ es, e.commandId = c.id ∧ e.eventMetadata = none)
    (h : Holds P i w (decisionRows x c a) ws) :
    wps P i ((queueApproved x.read.commandId).bind fun _ => (finishDecision x note).bind fun _ => .ret (some ()))
      (Done P i) w := by
  unfold queueApproved
  simp only [Prog.bind_eq, Prog.pure_eq, Prog.bind_assoc]
  refine wps_select h (fun _ _ _ => done_error) fun w₁ s₁ h₁ => ?_
  have hview : ((sys P).applyAll ws w₁.sh.db).commands.find x.read.commandId = some c' := by
    rw [hw.commands, ← hid, ← hs.id]; exact Table.find_put_self ..
  rw [hview]
  simp only [Prog.bind_assoc]
  refine wps_select h₁ (fun _ _ _ => done_error) fun w₂ s₂ h₂ => ?_
  have hown : w₂.sh.db.ownerOf c'.deviceId = some x.ownerId := by
    rw [hs.deviceId]; exact (After.later (s₁.then s₂)).db.ownerOf ho
  rw [hw.devices]
  cases hd : w₂.sh.db.devices.find c'.deviceId with
  | none => simp [DB.ownerOf, hd] at hown
  | some dev =>
    have hdid : dev.id = c'.deviceId := by simpa using Table.key_of_find hd
    refine wps_addEvent h₂ (fun _ _ _ _ _ => done_error) fun w₃ e s₃ he hn h₃ => ?_
    refine wps_finishDecision h₃ (fun w' audit s' haud hstop h' => ?_) fun w' h' => done_ok h'
    have hl := After.later (s₁.then (s₂.then (s₃.then s')))
    have hrows := h'.rows
    simp only [decisionRows, List.mem_cons, List.not_mem_nil, or_false, forall_eq_or_imp, forall_eq] at hrows
    obtain ⟨hre, hrc, hra⟩ := hrows
    rw [hw.outbox] at hn
    refine @Tx.approve _ _ _ _ _ c c' e a a' ha
      { valid := hx.valid, checked := hl.trace.subset hc, find := ?_, owner := ?_, awaiting := hst, same := hs,
        queued := hst', commands := ?_, tasks := ?_, events := ⟨es, ?_, hes⟩, devices := ?_, stops := ?_,
        pairings := ?_, credentials := ?_, users := ?_, new := ?_,
        isQueued := ?_, aggregateId := ?_, status := he.status, msg := ?_, outbox := ?_, approval := ?_,
        read := hx.read, sameApproval := hx.same, decided := by rw [hx.status, if_pos ha], approvals := ?_,
        audits := ⟨audit, ?_, by rw [haud, hx.valid.id], hstop⟩ }
    · simpa [sys, DB.row] using hrc
    · exact hl.db.ownerOf ho
    · simp [applyAll_append, Write.apply, hw.commands]
    · simp [applyAll_append, Write.apply, hw.tasks]
    · simp [applyAll_append, Write.apply, hw.events]
    · simp [applyAll_append, Write.apply, hw.devices]
    · simp [applyAll_append, Write.apply, hw.stops]
    · simp [applyAll_append, Write.apply, hw.pairings]
    · simp [applyAll_append, Write.apply, hw.credentials]
    · simp [applyAll_append, Write.apply, hw.users]
    · simpa [sys, DB.row, hn] using hre
    · simp [OutboxEvent.isQueued, he.aggregateType, he.eventType, EventType.hasQueued]
    · rw [he.aggregateId, hs.id]
    · rw [he.msg, hdid, hs.deviceId]
    · simp [applyAll_append, Write.apply, hw.outbox]
    · simpa [sys, DB.row] using hra
    · simp [applyAll_append, Write.apply, hw.approvals]
    · simp [applyAll_append, Write.apply, hw.audits]

theorem wps_approveChecked {x : Decision} {a a' : Approval} {note : Option String} (hr : Real P w)
    (hx : Deciding P x a a' w) (ha : x.approve = true)
    (hc : (i, Ev.stopRead .decide x.ownerId (some false)) ∈ w.sh.trace)
    (h : Holds P i w [(.approval x.approvalId, .approval (some a))] [.approval a']) :
    wps P i ((approveChecked x note false).bind fun _ => .ret (some ())) (Done P i) w := by
  unfold approveChecked
  simp only [Bool.false_eq_true, if_false, Prog.bind_eq, Prog.bind_assoc]
  refine wp_bind (wp_attempt ?_)
  unfold approveTransitions
  refine wps_decisionTransition hr hx h (.inl rfl) (fun w' vs e _ hf => ?_) (fun w' s => done_error)
    fun w₁ c u₁ n₁ s₁ hid hf ho hacc hval h₁ => ?_
  · cases e <;> exact done_error
  have hst : c.state = .awaitingApproval := by
    have hl := (Real.inv (After.real s₁ hr)).db.live _ c hf
    exact awaiting_of_accepts hacc hl.2.2
  have hs₁ := c.transition_same .approved u₁ n₁ none
  have hw₁ : Builds P (c.transition .approved u₁ n₁ none) id (·.put a')
    [⟨c.id, some c.state, .approved, .approval, none⟩]
      ([.approval a'] ++ transitionWrites c c .approved u₁ n₁ .approval none) := by
    rw [transitionWrites, Command.flushed_self]
    constructor <;> exact fun d => rfl
  refine wps_ownTransition h₁ (hs₁.id.trans hid)
    (fun d => by rw [hw₁.commands, ← hid, ← hs₁.id]; exact Table.find_put_self ..)
    (by simp; decide) (by simp; decide)
    (fun w' vs e _ hf => by cases e <;> exact done_error) fun w₂ _ u₂ n₂ s₂ h₂ => ?_
  have hs₂ := (c.transition .approved u₁ n₁ none).transition_same .queued u₂ n₂ none
  have hl := After.later (s₁.trans s₂)
  show wps P i (((queueApproved x.read.commandId).bind fun _ => finishDecision x note).bind fun _ => .ret (some ()))
    (Done P i) w₂
  rw [Prog.bind_assoc]
  refine wps_queueApproved c ((c.transition .approved u₁ n₁ none).transition .queued u₂ n₂ none)
    ⟨hx.valid, hx.read, hx.same, hx.status, ?_, ?_⟩ ha (hl.trace.subset hc) hid ?_ hst
    (hs₁.trans hs₂) (by simp)
    (hw₁.transition (e := ⟨x.read.commandId, some .approved, .queued, .approval, none⟩) hs₂) (by simp [hid]) h₂
  · simpa [sys, DB.row] using h₂.rows (.approval x.approvalId, .approval (some a)) (by simp)
  · obtain ⟨c₀, hc₀, ho₀⟩ := hx.command
    obtain ⟨c₁, hc₁, hcs⟩ := hl.db.command _ c₀ hc₀
    exact ⟨c₁, hc₁, by rw [hcs.deviceId]; exact hl.db.ownerOf ho₀⟩
  · exact (After.later s₂).db.ownerOf ho

theorem approval_chain {t : Tag} {s : St} {d : DB} {a a' : Approval} (hf : d.approvals.find a.id = some a)
    (hs : a.Same a') (ht : t.Decides a a') : (sys P).Chain (Write.Allowed i t s) d [.approval a'] :=
  ⟨.approval (a := a) (by rw [hs.id]; exact hf) hs ht, trivial⟩

theorem wps_rejectDecision {x : Decision} {a a' : Approval} {note : Option String} (hr : Real P w)
    (hx : Deciding P x a a' w) (ha : x.approve = false)
    (h : Holds P i w [(.approval x.approvalId, .approval (some a))] [.approval a']) :
    wps P i ((rejectDecision x note).bind fun _ => .ret (some ())) (Done P i) w := by
  have haid : a.id = x.approvalId := by simpa using Table.key_of_find hx.find
  have hready : Rdy P (.decide x) i w [(.approval x.approvalId, .approval (some a))] [.approval a'] := by
    refine ⟨h, fun s _ hL => approval_chain ?_ hx.same ⟨haid, hx.status⟩⟩
    rw [haid]
    simpa [sys, DB.row] using hL (.approval x.approvalId, .approval (some a)) (by simp)
  unfold rejectDecision
  simp only [Prog.bind_eq, Prog.bind_assoc]
  refine wp_bind (wp_attempt ?_)
  rw [← Prog.bind_ret (transitionCommand none x.read.commandId .rejected .approval none)]
  refine wps_decisionTransition hr hx h (.inr rfl) (fun w' vs e _ hf => ?_) (fun w' s => done_error)
    fun w₁ c u n s₁ hid hf ho hacc hval h₁ => ?_
  · cases e <;> exact done_error
  have hready₁ : Rdy P (.decide x) i w₁ [(.command x.read.commandId, .command (some c)),
      (.approval x.approvalId, .approval (some a))]
      ([.approval a'] ++ transitionWrites c c .rejected u n .approval none) := by
    rw [← hid] at s₁ hf h₁ ⊢
    have hl : LockedAt w₁ i none c .rejected .approval := LockedAt.of_after s₁ ⟨c, hf, rfl⟩ hacc
    have := Rdy.transition hready s₁.shared hf hl
      (by simpa [DB.row, hf] using h₁) trivial (.inr ⟨⟨ha, hid, rfl⟩, hval⟩) (by simp)
    simpa [DB.row, hf] using this
  refine wps_finishDecision h₁ (fun w' audit s' haud hstop h' => ?_) fun w' h' => done_ok h'
  have h'' : Rdy P (.decide x) i w' [(.command x.read.commandId, .command (some c)),
      (.approval x.approvalId, .approval (some a))]
      ([.approval a'] ++ transitionWrites c c .rejected u n .approval none ++ [.audit audit]) :=
    hready₁.append s'.shared h' fun s _ _ => ⟨.audit (by rw [haud, hx.valid.id]; rfl) hstop, trivial⟩
  have hs := c.flushed_same .rejected u n none c
  have ha' : a'.id = x.approvalId := by rw [hx.same.id, haid]
  refine .chain h''.now
    { reject := ha, valid := hx.valid.id, approval := ⟨a, a', ?_, hx.read, ?_, by rw [hx.status, ha]; rfl⟩,
      command := ⟨c.flushed .rejected u n none c, ?_, ?_⟩, audits := ⟨audit, rfl, by rw [haud, hx.valid.id]⟩ }
  · simpa [sys, DB.row] using h'.rows (.approval x.approvalId, .approval (some a)) (by simp)
  · simp [transitionWrites, Write.apply, Table.find_put, ha']
  · simp [transitionWrites, Write.apply, Table.find_put, hs.id, hid]
  · rw [Command.flushed_self, Command.transition_state]; decide

theorem refines_decideApproval {id o : UUID} {approve : Bool} {nonce : String}
    {note : Option String} (hr : Real P w) (h : Holds P i w [] []) :
    wps P i (decideApproval P id o approve nonce note) (fun _ w' => Holds P i w' [] []) w := by
  refine wps_withSession ?_
  refine wps_select h (fun _ _ _ => done_error) fun w₁ s₁ h₁ => ?_
  simp only [applyAll_nil]
  cases ha : w₁.sh.db.approvals.find id with
  | none => exact done_ok h₁
  | some read =>
    have hid : read.id = id := by simpa using Table.key_of_find ha
    dsimp only
    split
    · exact done_ok h₁
    rename_i ho
    split
    · exact wps_columnValue done_error done_error
    rename_i hp
    refine wps_now h₁ fun w₂ s₂ h₂ => ?_
    split
    · refine wps_execute h₂ (fun _ _ _ _ _ => done_error)
        (fun _ _ _ _ hfn => sayOk_rejected (updateApproval_error hfn))
        fun w₃ us s₃ hfn h₃ => ?_
      obtain ⟨a, hfa, rfl⟩ := updateApproval_cases hfn
      have haid : a.id = id := by simpa using Table.key_of_find hfa
      have hready : Rdy P (.expireApproval id) i w₃ [(.approval id, w₃.sh.db.row (.approval id))]
          [.approval { a with status := .expired }] := by
        refine ⟨h₃.mono (by simp), fun s _ hL => approval_chain (a := a) ?_ ⟨rfl, rfl, rfl, rfl, rfl⟩ ⟨haid, rfl⟩⟩
        have := hL (.approval id, w₃.sh.db.row (.approval id)) (by simp)
        rw [haid]
        simpa [sys, DB.row, show w₃.sh.db.approvals.find id = some a from hfa] using this
      exact wps_commitChain hready (fun _ _ _ _ _ => done_error) (fun _ _ _ => trivial) fun _ _ _ => done_error
    rename_i htime
    split
    · exact done_error
    rename_i hnonce
    refine wps_now h₂ fun w₃ s₃ h₃ => ?_
    refine wps_execute h₃ (fun _ _ _ _ _ => done_error)
      (fun _ _ _ _ hfn => sayOk_rejected (updateApproval_error hfn))
      fun w₄ us s₄ hfn h₄ => ?_
    obtain ⟨a, hfa, rfl⟩ := updateApproval_cases hfn
    generalize hx : Decision.mk id o approve nonce read w₂.sh.ext.clock = x
    have s₁₄ := s₁.then (s₂.then (s₃.then s₄))
    have hl := After.later (s₂.then (s₃.then s₄))
    have hread : read.Same a := by
      obtain ⟨a₀, ha₀, hs⟩ := hl.db.approval _ read ha
      rw [show w₄.sh.db.approvals.find id = some a from hfa] at ha₀
      cases ha₀; exact hs
    have hdec : Deciding P x a { a with
        status := if approve then .approved else .rejected
        decidedAt := some w₃.sh.ext.clock
        decisionNote := note } w₄ := by
      subst hx
      refine ⟨⟨hid, by simpa using ho, by simpa using hp, htime, by simpa using hnonce⟩, hread,
        ⟨rfl, rfl, rfl, rfl, rfl⟩, rfl, hfa, ?_⟩
      obtain ⟨c, hc, hco⟩ := (Real.inv (After.real s₁₄ hr)).db.approval _ a hfa
      exact ⟨c, by rw [← hread.commandId]; exact hc, by rw [hco, hread.ownerId]; simpa using ho⟩
    have h₄ : Holds P i w₄ [(.approval x.approvalId, .approval (some a))] _ := h₄.mono (by
      subst hx; simp [DB.row, show w₄.sh.db.approvals.find id = some a from hfa])
    split
    · rename_i hap
      have hax : x.approve = true := by rw [← hx]; exact hap
      have hox : x.ownerId = o := by rw [← hx]
      refine wps_isActive (After.real s₁₄ hr) h₄ (fun _ _ _ _ _ _ => done_error) (fun w₅ vs _ _ _ => done_error)
        fun w₅ s₅ h₅ => ?_
      have hl₅ := After.later s₅
      refine wps_approveChecked (After.real s₅ (After.real s₁₄ hr)) ⟨hdec.valid, hdec.read, hdec.same,
        hdec.status, ?_, ?_⟩ hax ?_ h₅
      · simpa [sys, DB.row] using h₅.rows (.approval x.approvalId, .approval (some a)) (by simp)
      · obtain ⟨c₀, hc₀, ho₀⟩ := hdec.command
        obtain ⟨c₁, hc₁, hcs⟩ := hl₅.db.command _ c₀ hc₀
        exact ⟨c₁, hc₁, by rw [hcs.deviceId]; exact hl₅.db.ownerOf ho₀⟩
      · rw [← mem_own, s₅.trace, hox]; simp
    · rename_i hap
      refine wps_rejectDecision (After.real s₁₄ hr) hdec ?_ h₄
      rw [← hx]; simpa using hap

end

end Veyaan
