import Veyaan.Refine.Scheduler

/-!
# The lifecycle handlers follow the protocol

A handler works on the row that it has locked for its message, so the state it
decides on is the state of the row. It is the one part of the code that the
trigger can still refuse: Python lets a device fail a command that the
trigger wants to see `RUNNING` first.
-/

open Relation (ReflTransGen)

namespace Veyaan

open Sys

section
variable {P : Params} {i : Nat} {w w' : Wd} {L : List (Key × Row)} {ws : List Write}
variable {k : Lifecycle} {p : LifecyclePayload} {c : Command}

structure Handling (P : Params) (i : Nat) (k : Lifecycle) (p : LifecyclePayload) (c : Command) (w : Wd) : Prop where
  real : Real P w
  held : Holds P i w [(.command c.id, .command (some c))] []
  payload : p.commandId = some c.id
  trace : (i, Ev.handled k p (some c)) ∈ w.sh.trace

theorem Handling.row (h : Handling P i k p c w) : w.sh.db.commands.find c.id = some c := by
  simpa [sys, DB.row] using h.held.rows _ (List.mem_singleton.mpr rfl)

theorem Handling.since {vs : List Ev} (h : Handling P i k p c w) (hs : After P i vs w w')
    (h' : Holds P i w' [(.command c.id, .command (some c))] []) : Handling P i k p c w' :=
  ⟨After.real hs h.real, h', h.payload, (After.later hs).trace.subset h.trace⟩

theorem wps_lockForMessage {α : Type} {id : UUID} {f : Option Command → Op α}
    (hr : Real P w) (h : Holds P i w [] [])
    (hp : p.commandId = some id) (hnone : ∀ w' L, Holds P i w' L [] → wps P i (f none) (Done P i) w')
    (hsome : ∀ w' c, After P i [.handled k p (some c)] w w' → Handling P i k p c w' → c.id = id →
      wps P i (f (some c)) (Done P i) w') :
    wps P i ((lockForMessage k p id).bind f) (Done P i) w := by
  unfold lockForMessage selectForUpdate
  simp only [Prog.bind_eq, Prog.pure_eq, Prog.bind_assoc, Prog.ret_bind]
  refine wp_forUpdateAs h (fun _ _ _ => done_error) fun w₁ w₂ s₁ hsh h₂ hl => ?_
  have hg : ReflTransGen (Act P) w₁.sh w₂.sh :=
    say_act (v := .handled k p (w₁.sh.db.commands.find id)) ⟨id, hp, rfl⟩ hsh
  have hdb : w₂.sh.db = w₁.sh.db := by rw [hsh]; rfl
  refine ⟨hg, ?_⟩
  simp only [applyAll_nil] at hl ⊢
  cases hf : w₁.sh.db.commands.find id with
  | none => exact hnone w₂ [] h₂
  | some c =>
    have hid : c.id = id := by simpa using Table.key_of_find hf
    have s₂ : After P i [.handled k p (some c)] w w₂ := s₁.act hg (by rw [hsh, ← hf]; rfl)
    refine hsome w₂ c s₂ ⟨After.real s₂ hr, ?_, by rw [hid]; exact hp, ?_⟩ hid
    · have hrow : (sys P).row (.command c.id) w₂.sh.db = .command (some c) := by simp [sys, DB.row, hdb, hid, hf]
      rw [← hrow]
      exact h₂.cons (hl c (by simp [hf]))
    · rw [← mem_own, s₂.trace]; simp

/-- What a handler's `try` leaves: a chain of writes; nothing, when the message
was out of order; or a session that has failed. -/
def Handled (P : Params) (i : Nat) (k : Lifecycle) (p : LifecyclePayload) (r : Except Err Unit) (w : Wd) : Prop :=
  match r with
  | .ok _ => ∃ L ws, Rdy P (.handle k p) i w L ws
  | .error (.stateTransition ..) => (∃ L, Holds P i w L []) ∨ (w.sess i).failed = true
  | .error _ => True

theorem handled_failed {e : Err} (h : (w.sess i).failed = true) : Handled P i k p (.error e) w := by
  cases e with
  | stateTransition => exact .inr h
  | _ => trivial

/-- The vetoes that a message can meet: it wants to fail a command that does
not run. -/
theorem veto_failed {s : CommandState} (hacc : accepts s (k.target p) = true) (hs : s ≠ .validated ∧ s ≠ .approved)
    (hval : validateCommandStateTransition s (k.target p) = false) :
    k.target p = .failed ∧ (s = .queued ∨ s = .delivered ∨ s = .acknowledged) := by
  have hmem := (accepts_not_validated s (k.target p)).mp ⟨hacc, hval⟩
  have ht := k.target_mem p
  simp only [List.mem_cons, Prod.mk.injEq, List.not_mem_nil, or_false] at hmem ht
  grind

theorem wps_messageTransition {α : Type} {Q : Except Err α → Wd → Prop} {source : Source} {m : Option Metadata}
    {f : Option Command → Op α} (h : Handling P i k p c w) (hsrc : k.target p = .failed → source = .device)
    (hE : ∀ w' vs e, After P i vs w w' → (w'.sess i).failed = true → Q (.error e) w')
    (hbad : ∀ w' L, Holds P i w' L [] → Q (.error (.stateTransition c.id c.state (k.target p))) w')
    (hk : ∀ w' L ws x, Rdy P (.handle k p) i w' L ws → wps P i (f x) Q w') :
    wps P i ((transitionCommand (some c) c.id (k.target p) source m).bind f) Q w := by
  -- the row is locked, so it is the instance that the handler has loaded
  have hrow : ∀ {w' L' ws'}, Holds P i w' L' ws' → (∀ q ∈ [(Key.command c.id, Row.command (some c))], q ∈ L') →
      ∀ row, ((sys P).applyAll [] w'.sh.db).commands.find c.id = some row → row = c := by
    intro w' L' ws' h' hL row hf
    have := h'.rows _ (hL _ (List.mem_singleton.mpr rfl))
    simp only [sys, DB.row, Row.command.injEq] at this
    rw [applyAll_nil, this] at hf
    cases hf; rfl
  refine wps_transition h.held (by simp) hE (fun w₁ _ s₁ h₁ hf => ?_) (fun w₁ row s₁ h₁ hf hacc => ?_)
    (fun w₁ _ row s₁ h₁ hf hacc hne hval => ?_) fun w₁ row u n s₁ hf hacc hval h₁ => ?_
  · rw [applyAll_nil, (h.since s₁ h₁).row] at hf; cases hf
  · exact hbad w₁ _ h₁
  · obtain rfl := hrow h₁ (fun q hq => List.mem_cons_of_mem _ hq) row hf
    intro _
    have h₁' := h.since s₁ (h₁.mono fun q hq => List.mem_cons_of_mem _ hq)
    obtain ⟨ht, hs⟩ := veto_failed hacc ((Real.inv h₁'.real).db.live _ row h₁'.row).2 hval
    exact ⟨k, p, row, h₁'.trace, rfl, rfl, ht, ht, hsrc ht, hs⟩
  · obtain rfl := hrow h₁ (fun q hq => List.mem_cons_of_mem _ hq) row hf
    exact hk w₁ _ _ _ (Rdy.transition h.held.ready s₁.shared hf
      (LockedAt.of_after s₁ ⟨row, hf, rfl⟩ hacc) h₁ h.payload
      (hval.imp_right fun hv => ⟨rfl, hv⟩) fun _ => ⟨rfl, rfl⟩)

theorem wps_updateTaskState {α : Type} {Q : Except Err α → Wd → Prop} {id : UUID} {st : TaskState}
    {rs ec em : Option String} {f : Unit → Op α} (h : Rdy P (.handle k p) i w L ws) (hp : p.commandId = some id)
    (hE : ∀ w' vs e, After P i vs w w' → (w'.sess i).failed = true → Q (.error e) w')
    (hk : ∀ w' L' ws', After P i [] w w' → Rdy P (.handle k p) i w' L' ws' → wps P i (f ()) Q w') :
    wps P i ((updateTaskState id st rs ec em).bind f) Q w := by
  unfold updateTaskState
  simp only [Prog.bind_eq, Prog.pure_eq, Prog.bind_assoc]
  refine wps_selectForUpdate h.toHeld (fun w' s => hE w' [] .db s) (fun w₁ s₁ h₁ _ => ?_) fun w₁ r s₁ hf h₁ => ?_
  · exact hk w₁ L ws s₁ (h.since s₁.shared h₁)
  · simp only [Prog.bind_assoc, Prog.ret_bind]
    have h₁' : Holds P i w₁ L ws := h₁.mono fun q hq => List.mem_cons_of_mem _ hq
    exact wps_updateTask (h.since s₁.shared h₁') hp (fun w' vs e s => hE w' vs e (s₁.then s))
      fun w₂ L₂ r n s₂ _ h₂ _ => hk w₂ L₂ _ (s₁.then s₂) h₂

theorem wps_commitHandled {id : UUID} (h : Rdy P (.handle k p) i w L ws)
    (hm : .lifecycle k id p ∈ w.sh.ext.stream) :
    wps P i (commit (.handle k p)) (Done P i) w := by
  rw [← Prog.bind_ret (commit _)]
  exact wps_commitChain h (fun _ _ _ _ _ => done_error)
    (fun w' s' _ => ⟨id, (After.later s').stream _ hm⟩) fun w₁ _ h₁ => done_ok h₁

/-! ## The handlers -/

theorem wps_handleOnce {body : Command → Op Unit} {after : UUID → Op Unit} {id : UUID} (hr : Real P w)
    (h : Holds P i w [] []) (hm : .lifecycle k id p ∈ w.sh.ext.stream)
    (hbody : ∀ w' c, Handling P i k p c w' → wps P i (body c) (Handled P i k p) w')
    (hafter : ∀ {w' id L ws} {f : Unit → Op Unit}, p.commandId = some id → Rdy P (.handle k p) i w' L ws →
      (∀ w'' L' ws', After P i [] w' w'' → Rdy P (.handle k p) i w'' L' ws' → wps P i (f ()) (Done P i) w'') →
      wps P i ((after id).bind f) (Done P i) w') :
    wps P i (handleOnce k p body after) (fun _ w' => Holds P i w' [] []) w := by
  unfold handleOnce
  split
  · exact h
  rename_i cid hp
  refine wps_withSession ?_
  unfold isDuplicate
  simp only [Prog.bind_eq, Prog.pure_eq, Prog.bind_assoc]
  refine wps_select h (fun _ _ _ => done_error) fun w₁ s₁ h₁ => ?_
  -- a duplicate, or more than one, ends here
  split
  case h_2 => exact done_ok h₁
  case h_3 => exact done_error
  refine wps_lockForMessage (After.real s₁ hr) h₁ hp (fun w₂ L₂ h₂ => done_ok h₂) fun w₂ c s₂ h₂ hid => ?_
  simp only
  split
  · exact done_ok h₂.held
  refine wp_bind (wp_attempt (wp_mono (fun r w₃ h₃ => ?_) (wp_shared (hbody w₂ c h₂))))
  obtain ⟨hg, h₃⟩ := h₃
  have hm₃ := (acts_later (s₁.shared.trans (s₂.shared.trans hg))).stream _ hm
  cases r with
  | error e =>
    cases e with
    | stateTransition =>
      rcases h₃ with ⟨L, h₃⟩ | h₃
      · exact done_ok h₃
      · exact done_failed h₃
    | _ => exact done_error
  | ok _ =>
    obtain ⟨L, ws, h₃⟩ := h₃
    exact hafter hp h₃ fun w₄ L₄ ws₄ s₄ h₄ => wps_commitHandled h₄ ((After.later s₄).stream _ hm₃)

theorem wps_handlerBody {source : Source} {m : Option Metadata} {f : Option Command → Op Unit}
    (h : Handling P i k p c w) (hsrc : k.target p = .failed → source = .device)
    (hf : ∀ w' L ws x, Rdy P (.handle k p) i w' L ws → wps P i (f x) (Handled P i k p) w') :
    wps P i ((transitionCommand (some c) c.id (k.target p) source m).bind f) (Handled P i k p) w :=
  wps_messageTransition h hsrc (fun _ _ _ _ hf => handled_failed hf) (fun _ L h => .inl ⟨L, h⟩) hf

theorem wps_handlerTask {id : UUID} {st : TaskState} {rs ec em : Option String} (h : Rdy P (.handle k p) i w L ws)
    (hp : p.commandId = some id) : wps P i (updateTaskState id st rs ec em) (Handled P i k p) w := by
  rw [← Prog.bind_ret (updateTaskState ..)]
  exact wps_updateTaskState h hp (fun _ _ _ _ hf => handled_failed hf) fun _ L' ws' _ h' => ⟨L', ws', h'⟩

theorem refines_handleDelivered {id : UUID} (hr : Real P w) (h : Holds P i w [] [])
    (hm : .lifecycle .delivered id p ∈ w.sh.ext.stream) :
    wps P i (handleDelivered p) (fun _ w' => Holds P i w' [] []) w := by
  refine wps_handleOnce hr h hm (fun w₁ c h₁ => ?_) fun hp h₁ hk => ?_
  · exact wps_handlerBody (k := .delivered) h₁ (by simp [Lifecycle.target]) fun w₂ L₂ ws₂ _ h₂ => ⟨L₂, ws₂, h₂⟩
  · exact wps_updateTaskState h₁ hp (fun _ _ _ _ _ => done_error) hk

theorem refines_handleAcknowledged {id : UUID} (hr : Real P w) (h : Holds P i w [] [])
    (hm : .lifecycle .acknowledged id p ∈ w.sh.ext.stream) :
    wps P i (handleAcknowledged p) (fun _ w' => Holds P i w' [] []) w := by
  refine wps_handleOnce hr h hm (fun w₁ c h₁ => ?_) fun _ h₁ hk => hk _ _ _ .refl h₁
  have ht : Lifecycle.target p .acknowledged = if p.accepted.getD true then .acknowledged else .failed := rfl
  split
  · rename_i ha
    rw [if_pos ha] at ht
    rw [← ht]
    exact wps_handlerBody h₁ (fun _ => rfl) fun w₂ L₂ ws₂ _ h₂ => ⟨L₂, ws₂, h₂⟩
  · rename_i ha
    rw [if_neg ha] at ht
    rw [← ht]
    exact wps_handlerBody h₁ (fun _ => rfl) fun w₂ L₂ ws₂ _ h₂ => wps_handlerTask h₂ h₁.payload

theorem refines_handleResult {id : UUID} (hr : Real P w) (h : Holds P i w [] [])
    (hm : .lifecycle .result id p ∈ w.sh.ext.stream) :
    wps P i (handleResult p) (fun _ w' => Holds P i w' [] []) w := by
  refine wps_handleOnce hr h hm (fun w₁ c h₁ => ?_) fun _ h₁ hk => hk _ _ _ .refl h₁
  have ht : Lifecycle.target p .result = if p.success.getD false then .succeeded else .failed := rfl
  split
  · rename_i ha
    rw [if_pos ha] at ht
    rw [← ht]
    exact wps_handlerBody h₁ (fun _ => rfl) fun w₂ L₂ ws₂ _ h₂ => wps_handlerTask h₂ h₁.payload
  · rename_i ha
    rw [if_neg ha] at ht
    rw [← ht]
    exact wps_handlerBody h₁ (fun _ => rfl) fun w₂ L₂ ws₂ _ h₂ => wps_handlerTask h₂ h₁.payload

theorem refines_handleProgress {id : UUID} (hr : Real P w) (h : Holds P i w [] [])
    (hm : .lifecycle .progress id p ∈ w.sh.ext.stream) :
    wps P i (handleProgress p) (fun _ w' => Holds P i w' [] []) w := by
  unfold handleProgress
  split
  · exact h
  rename_i cid hp
  refine wps_withSession ?_
  refine wps_lockForMessage hr h hp (fun w₁ L₁ h₁ => done_ok h₁) fun w₁ c s₁ h₁ hid => ?_
  subst hid
  have hm₁ := (After.later s₁).stream _ hm
  dsimp only
  split
  · simp only [Prog.bind_eq]
    refine wp_bind (wp_attempt (wp_mono (fun r w₂ h₂ => ?_) (wp_shared (wps_handlerBody (k := .progress) h₁
      (by simp [Lifecycle.target]) fun w₂ L₂ ws₂ _ h₂ => wps_handlerTask h₂ hp))))
    obtain ⟨hg, h₂⟩ := h₂
    have hm₂ := (acts_later hg).stream _ hm₁
    cases r with
    | error e =>
      cases e with
      | stateTransition =>
        rcases h₂ with ⟨L, h₂⟩ | hf
        · exact wps_commitHandled h₂.ready hm₂
        · exact wps_dead trivial hf
      | _ => exact done_error
    | ok _ =>
      obtain ⟨L, ws, h₂⟩ := h₂
      exact wps_commitHandled h₂ hm₂
  · exact wps_commitHandled h₁.held.ready hm₁

theorem refines_consume {id : UUID} (hr : Real P w) (h : Holds P i w [] [])
    (hm : .lifecycle k id p ∈ w.sh.ext.stream) :
    wps P i (consume k id p) (fun _ w' => Holds P i w' [] []) w := by
  unfold consume
  refine wp_bind (wp_attempt (wp_mono (Q := fun _ w' => Holds P i w' [] []) (fun r w₁ h₁ => ?_) ?_))
  · cases r with
    | ok _ =>
      show wps P i (effect _) _ w₁
      rw [← Prog.bind_ret (effect _)]
      exact wps_say (fun _ _ => rfl) h₁ (fun _ _ _ => trivial) fun w₂ _ h₂ => h₂
    | error _ =>
      show wps P i (effect _) _ w₁
      rw [← Prog.bind_ret (effect _)]
      exact wps_say (fun _ _ => rfl) h₁ (fun _ _ _ => trivial) fun w₂ _ h₂ => h₂
  · cases k with
    | delivered => exact refines_handleDelivered hr h hm
    | acknowledged => exact refines_handleAcknowledged hr h hm
    | progress => exact refines_handleProgress hr h hm
    | result => exact refines_handleResult hr h hm

end

end Veyaan
