import Veyaan.Refine.Stops

/-!
# `SchedulerWorker` follows the protocol
-/

open Relation (ReflTransGen)

namespace Veyaan

open Sys

section
variable {P : Params} {i : Nat} {w w' : Wd} {L L' : List (Key × Row)} {ws us : List Write}

theorem wps_logCount {α : Type} {n : Nat} {f : Unit → Op α} (hk : wps P i (f ()) (Done P i) w) :
    wps P i ((logCount P n).bind f) (Done P i) w := by
  unfold logCount logKeywords
  split
  · exact hk
  · split
    · exact done_error
    · exact hk

/-! ## Pairings and approvals -/

def Spares (k : Key) (ws : List Write) : Prop := ∀ v ∈ ws, k ∉ v.keys

theorem Spares.command {id : UUID} (h : Spares (.command id) ws) (d : DB) :
    ((sys P).applyAll ws d).commands.find id = d.commands.find id := by
  have := (sys P).row_applyAll (k := .command id) d h
  simpa [sys, DB.row] using this

theorem Spares.append {k : Key} (h : Spares k ws) (h' : Spares k us) : Spares k (ws ++ us) := by
  intro v hv
  rcases List.mem_append.mp hv with hv | hv
  · exact h v hv
  · exact h' v hv

theorem wps_expireStalePairings {α : Type} {f : Nat → Op α} (h : Holds P i w [] [])
    (hk : ∀ w' L' (ps : List PairingRequest) n, After P i [] w w' →
      Rdy P .expire i w' L' (ps.map fun p => Write.pairing { p with status := .expired }) →
      wps P i (f n) (Done P i) w') :
    wps P i (expireStalePairings.bind f) (Done P i) w := by
  unfold expireStalePairings
  simp only [Prog.bind_eq, Prog.bind_assoc]
  refine wps_now h fun w₁ s₁ h₁ => ?_
  have h₁ : Rdy P .expire i w₁ [] [] := Held.ready h₁
  refine wps_updateAll h₁ (fun _ => rfl) (fun d => ?_) (fun s d d' p hp hrow => ?_) (fun _ _ _ => done_error)
    fun w₂ L₂ ps n s₂ h₂ => hk w₂ L₂ ps n (s₁.then s₂) h₂
  · exact d.pairings.nodup_filter _ fun _ _ he => Key.pairing.inj he
  · obtain ⟨hmem, hst⟩ := List.mem_filter.mp hp
    simp only [Bool.and_eq_true, beq_iff_eq] at hst
    refine .pairing (p := p) ?_ hst.1 ⟨rfl, rfl, rfl, Nat.le_refl _⟩
    exact (Row.pairing.inj hrow).trans (Table.find_of_mem hmem)

theorem wps_expirePendingApprovals {α : Type} {f : Nat → Op α} (h : Rdy P .expire i w L ws)
    (hk : ∀ w' L' (as : List Approval) n, After P i [] w w' →
      Rdy P .expire i w' L' (ws ++ as.map fun a => Write.approval { a with status := .expired }) →
      wps P i (f n) (Done P i) w') :
    wps P i (expirePendingApprovals.bind f) (Done P i) w := by
  unfold expirePendingApprovals
  simp only [Prog.bind_eq, Prog.bind_assoc]
  refine wps_now h.toHeld fun w₁ s₁ h₁ => ?_
  refine wps_updateAll (h.since s₁.shared h₁) (fun _ => rfl) (fun d => ?_) (fun s d d' a ha hrow => ?_)
    (fun _ _ _ => done_error) fun w₂ L₂ as n s₂ h₂ => hk w₂ L₂ as n (s₁.then s₂) h₂
  · exact d.approvals.nodup_filter _ fun _ _ he => Key.approval.inj he
  · obtain ⟨hmem, hst⟩ := List.mem_filter.mp ha
    simp only [Bool.and_eq_true, beq_iff_eq] at hst
    refine .approval (a := a) ?_ ⟨rfl, rfl, rfl, rfl, rfl⟩ ⟨hst.1, rfl⟩
    exact (Row.approval.inj hrow).trans (Table.find_of_mem hmem)

/-! ## Commands -/

/-- The loop invariant: the commands `cs` are still to come, locked and unwritten. -/
structure Expiring (P : Params) (i : Nat) (w : Wd) (L : List (Key × Row)) (ws : List Write) (cs : List Command) :
    Prop where
  ready : Rdy P .expire i w L ws
  rows : ∀ c ∈ cs, (Key.command c.id, Row.command (some c)) ∈ L
  spares : ∀ c ∈ cs, Spares (.command c.id) ws
  distinct : cs.Pairwise fun c c' => c.id ≠ c'.id

theorem Expiring.next {c : Command} {cs : List Command} (h : Expiring P i w L ws (c :: cs))
    (hr : Rdy P .expire i w' L' (ws ++ us)) (hL : ∀ p ∈ L, p ∈ L')
    (hu : ∀ id, c.id ≠ id → Spares (.command id) us) : Expiring P i w' L' (ws ++ us) cs := by
  obtain ⟨hd, hd'⟩ := List.pairwise_cons.mp h.distinct
  exact ⟨hr, fun x hx => hL _ (h.rows x (List.mem_cons_of_mem _ hx)),
    fun x hx => (h.spares x (List.mem_cons_of_mem _ hx)).append (hu _ (hd x hx)), hd'⟩

theorem updateTask_cases {id : UUID} {f : Task → Task} {d : DB} {us : List Write} (h : updateTask id f d = .ok us) :
    ∃ t, d.tasks.find id = some t ∧ us = [.task { f t with commandId := id }] := by
  unfold updateTask at h
  split at h
  · cases h
  · rename_i t ht
    have hid : t.commandId = id := by simpa using Table.key_of_find ht
    split at h <;> cases h
    exact ⟨t, ht, by rw [hid]⟩

theorem updateTask_error {id : UUID} {f : Task → Task} {d : DB} {x : Err} (h : updateTask id f d = .error x) :
    ∀ v, x ≠ .trigger v := by
  unfold updateTask at h
  intro v hv
  subst hv
  split at h
  · cases h
  · split at h <;> cases h

theorem wps_updateTask {α : Type} {Q : Except Err α → Wd → Prop} {t : Tag} {id : UUID} {g : Task → Task}
    {f : Nat → Op α} (h : Rdy P t i w L ws) (ht : t.Touches id)
    (hE : ∀ w' vs e, After P i vs w w' → (w'.sess i).failed = true → Q (.error e) w')
    (hk : ∀ w' L' r n, After P i [] w w' → (∀ p ∈ L, p ∈ L') →
      Rdy P t i w' L' (ws ++ [.task r]) → r.commandId = id →
      wps P i (f n) Q w') :
    wps P i ((execute [.task id] (updateTask id g)).bind f) Q w := by
  refine wps_execute h.toHeld hE (fun _ _ _ _ hfn => sayOk_rejected (updateTask_error hfn))
    fun w₁ us s₁ hfn h₁ => ?_
  obtain ⟨r, hr, rfl⟩ := updateTask_cases hfn
  refine hk w₁ _ { g r with commandId := id } _ s₁ (fun p hp => List.mem_append_right _ hp)
    ⟨h₁, fun s hg hL => chain_append.mpr ⟨?_, .task (r := r) ?_ ht, trivial⟩⟩ rfl
  · exact h.chain s (s₁.shared.trans hg) fun p hp => hL p (List.mem_append_right _ hp)
  · have he : s.db.row (.task id) = w₁.sh.db.row (.task id) := hL (.task id, w₁.sh.db.row (.task id)) (by simp)
    have := row_congr (S := sys P) (k := .task id) ws he
    simp only [sys, DB.row, Row.task.injEq] at this
    exact Eq.trans this hr

theorem wps_expireTask {α : Type} {Q : Except Err α → Wd → Prop} {id : UUID} {f : Unit → Op α}
    (h : Rdy P .expire i w L ws)
    (hE : ∀ w' vs e, After P i vs w w' → (w'.sess i).failed = true → Q (.error e) w')
    (hk : ∀ w' L' us, After P i [] w w' → (∀ p ∈ L, p ∈ L') → Rdy P .expire i w' L' (ws ++ us) →
      (∀ id, Spares (.command id) us) → wps P i (f ()) Q w') :
    wps P i ((expireTask id).bind f) Q w := by
  unfold expireTask
  simp only [Prog.bind_eq, Prog.bind_assoc]
  refine wp_skipLocked h.toHeld (fun w' hs => hE w' [] .db hs) fun w₁ rows s₁ h₁ _ _ => ?_
  have hr₁ := h.since s₁.shared h₁
  have hsame : wps P i (f ()) Q w₁ :=
    hk w₁ L [] s₁ (fun _ hp => hp) (by simpa using hr₁) (by intro id v hv; cases hv)
  split
  · exact hsame
  · split
    · exact hsame
    · simp only [Prog.bind_assoc]
      refine wps_updateTask hr₁ trivial (fun w' vs e hs => hE w' vs e (s₁.then hs)) fun w₂ L₂ r n s₂ hL h₂ _ => ?_
      exact hk w₂ L₂ _ (s₁.then s₂) hL h₂ (by simp [Spares, Write.keys])

theorem dead_expireAll {cs : List Command} : ∀ {f : Nat → Op Unit},
    (∀ n, (sys P).Dead (Act P) (fun _ => True) (f n)) →
    (sys P).Dead (Act P) (fun _ => True) ((expireAll P cs).bind f) := by
  induction cs with
  | nil => exact fun hf => hf 0
  | cons c cs ih =>
    intro f hf
    unfold expireAll expireCommand
    simp only [Prog.bind_eq, Prog.pure_eq, Prog.bind_assoc, Prog.ret_bind]
    refine Dead.bind (Dead.attempt (Dead.bind (dead_transition ?_)))
    dsimp only [logKeywords]
    split
    · trivial
    · exact ih fun n => hf (0 + n)

/-- One round of the loop. A command that was delivered in time is left alone. -/
theorem wps_expireCommand {c : Command} {cs : List Command} {f : Nat → Op Unit}
    (hdead : ∀ n, (sys P).Dead (Act P) (fun _ => True) (f n)) (hr : Real P w) (h : Expiring P i w L ws (c :: cs))
    (hk : ∀ w' L' ws' n, Real P w' → Expiring P i w' L' ws' cs → wps P i (f n) (Done P i) w') :
    wps P i ((expireCommand P c).bind f) (Done P i) w := by
  have hview : ∀ d, (sys P).Agrees L d → ((sys P).applyAll ws d).commands.find c.id = some c := fun d hd => by
    rw [(h.spares c (List.mem_cons_self ..)).command]
    simpa [sys, DB.row] using hd _ (h.rows c (List.mem_cons_self ..))
  have hlog : ∀ {w'}, (P.loggerRaises = false → wps P i (f 0) (Done P i) w') →
      wps P i ((logKeywords P).bind fun _ => f 0) (Done P i) w' := by
    intro w' hw
    unfold logKeywords
    split
    · exact done_error
    · rename_i hl; exact hw (by simpa using hl)
  have hfail : ∀ {w'}, (w'.sess i).failed = true → wps P i ((logKeywords P).bind fun _ => f 0) (Done P i) w' :=
    fun hf => hlog fun _ => wps_dead (hdead 0) hf
  unfold expireCommand
  simp only [Prog.bind_eq, Prog.pure_eq, Prog.bind_assoc]
  refine wp_bind (wp_attempt ?_)
  refine wps_transition h.ready.toHeld (by simp) (fun w₁ vs e _ hf => ?_) (fun w₁ _ s₁ h₁ hf => ?_)
    (fun w₁ row s₁ h₁ hf hacc => ?_) (fun w₁ _ row s₁ h₁ hf hacc hne hval => ?_)
    fun w₁ row u n s₁ hf hacc hval h₁ => ?_
  · simp only [andThen, Prog.bind_assoc, Prog.ret_bind]; exact hfail hf
  · rw [hview _ h₁.agrees] at hf; cases hf
  · simp only [andThen, Prog.bind_assoc, Prog.ret_bind]
    have h₁' : Holds P i w₁ L ws := h₁.mono fun p hp => List.mem_cons_of_mem _ hp
    refine hlog fun _ => hk w₁ L (ws ++ []) 0 (After.real s₁ hr)
      (h.next ?_ (fun _ hp => hp) (by intro _ _ v hv; cases hv))
    rw [List.append_nil]
    exact h.ready.since s₁.shared h₁'
  · intro _
    have h₁' : Holds P i w₁ L ws := h₁.mono fun p hp => List.mem_cons_of_mem _ hp
    rw [hview _ h₁'.agrees] at hf; cases hf
    have hl := Rdy.live (h.ready.since s₁.shared h₁') (After.real s₁ hr) (hview _ h₁'.agrees)
    rw [Option.getD_some] at hacc
    rw [validated_of_accepts hacc hl.2 (by decide)] at hval; cases hval
  · have hcom := (h.spares c (List.mem_cons_self ..)).command (P := P) w₁.sh.db ▸ hf
    have hrdy := Rdy.transition h.ready s₁.shared hf (LockedAt.of_after s₁ ⟨row, hcom, rfl⟩ hacc) h₁ trivial
      (hval.imp_right fun hv => ⟨rfl, hv⟩) (by simp)
    have hrow : row.id = c.id := by simpa using Table.key_of_find hf
    rw [← Prog.bind_ret (expireTask c.id)]
    refine wps_expireTask hrdy (fun w₂ vs e _ hf => ?_) fun w₂ L₂ us s₂ hL h₂ hu => ?_
    · simp only [andThen, Prog.bind_assoc, Prog.ret_bind]; exact hfail hf
    · simp only [andThen]
      rw [List.append_assoc] at h₂
      refine hk w₂ L₂ _ 1 (After.real s₂ (After.real s₁ hr))
        (h.next h₂ (fun p hp => hL p (List.mem_cons_of_mem _ hp)) ?_)
      intro id hid
      refine Spares.append ?_ (hu id)
      have hs := c.flushed_same .expired u n none row
      simp [Spares, transitionWrites, Write.keys, hs.id, hrow, hid.symm]

theorem wps_expireAll : ∀ {cs : List Command} {f : Nat → Op Unit} {w : Wd} {L : List (Key × Row)} {ws : List Write},
    (∀ n, (sys P).Dead (Act P) (fun _ => True) (f n)) → Real P w → Expiring P i w L ws cs →
    (∀ w' L' ws' n, Rdy P .expire i w' L' ws' → wps P i (f n) (Done P i) w') →
    wps P i ((expireAll P cs).bind f) (Done P i) w
  | [], f, w, L, ws, _, _, h, hk => hk w L ws 0 h.ready
  | c :: cs, f, w, L, ws, hdead, hr, h, hk => by
    unfold expireAll
    simp only [Prog.bind_eq, Prog.pure_eq, Prog.bind_assoc, Prog.ret_bind]
    refine wps_expireCommand (fun n => dead_expireAll fun m => hdead (n + m)) hr h fun w₁ L₁ ws₁ m hr₁ h₁ => ?_
    exact wps_expireAll (fun n => hdead (m + n)) hr₁ h₁ fun w₂ L₂ ws₂ n h₂ => hk w₂ L₂ ws₂ (m + n) h₂

theorem wps_expireCommands {f : Nat → Op Unit} (hdead : ∀ n, (sys P).Dead (Act P) (fun _ => True) (f n))
    (hr : Real P w) (h : Rdy P .expire i w L ws) (hspare : ∀ id, Spares (.command id) ws)
    (hk : ∀ w' L' ws' n, Rdy P .expire i w' L' ws' → wps P i (f n) (Done P i) w') :
    wps P i ((expireCommands P).bind f) (Done P i) w := by
  unfold expireCommands
  simp only [Prog.bind_eq, Prog.bind_assoc]
  refine wps_now h.toHeld fun w₁ s₁ h₁ => ?_
  refine wp_skipLocked h₁ (fun _ _ _ => done_error) fun w₂ rows s₂ h₂ hsub hl => ?_
  have hrdy := h.since (s₁.then s₂).shared h₂
  have hfind : ∀ c ∈ rows, w₂.sh.db.commands.find c.id = some c := fun c hc => by
    rw [← (hspare c.id).command (P := P)]
    exact Table.find_of_mem (List.mem_of_mem_filter (hsub.subset hc))
  have hheld : Holds P i w₂ (rows.map (fun c => (Key.command c.id, Row.command (some c))) ++ L) ws := by
    refine ⟨h₂.sess, fun p hp => ?_, fun p hp => ?_⟩
    · rcases List.mem_append.mp hp with hp | hp
      · obtain ⟨c, hc, rfl⟩ := List.mem_map.mp hp
        exact hl c hc
      · exact h₂.locks p hp
    · rcases List.mem_append.mp hp with hp | hp
      · obtain ⟨c, hc, rfl⟩ := List.mem_map.mp hp
        simp [sys, DB.row, hfind c hc]
      · exact h₂.rows p hp
  refine wps_expireAll hdead (After.real (s₁.then s₂) hr)
    ⟨hrdy.mono (fun p hp => List.mem_append_right _ hp) hheld,
      fun c hc => List.mem_append_left _ (List.mem_map_of_mem hc), fun c _ => hspare c.id, ?_⟩ hk
  have := (((sys P).applyAll ws w₂.sh.db).commands.nodup).sublist ((hsub.trans List.filter_sublist).map key)
  rwa [List.Nodup, List.pairwise_map] at this

theorem refines_runTasks (hr : Real P w) (h : Holds P i w [] []) :
    wps P i (runTasks P) (fun _ w' => Holds P i w' [] []) w := by
  refine wps_withSession ?_
  refine wps_expireStalePairings h fun w₁ L₁ ps n₁ s₁ h₁ => wps_logCount ?_
  refine wps_expirePendingApprovals h₁ fun w₂ L₂ as n₂ s₂ h₂ => wps_logCount ?_
  refine wps_expireCommands (fun n => ?_) (After.real (s₁.then s₂) hr) h₂
    (fun id => Spares.append (by simp [Spares, Write.keys]) (by simp [Spares, Write.keys]))
    fun w₃ L₃ ws₃ n h₃ => wps_logCount ?_
  · unfold logCount logKeywords
    split
    · trivial
    · split <;> trivial
  · rw [← Prog.bind_ret (commit .expire)]
    exact wps_commitChain h₃ (fun _ _ _ _ _ => done_error) (fun _ _ _ => trivial) fun w₄ _ h₄ => done_ok h₄

end

end Veyaan
