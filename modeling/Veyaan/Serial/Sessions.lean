import Veyaan.Schedule
import Veyaan.Serial.Workers

/-!
# The messages of a device session

The gateway publishes four kinds of messages about one queued command:
`delivered`, the acknowledgement, the progress reports and the result. Four
messages can take effect, in this order; a message that comes at any other time
leaves the store as it was.
-/

namespace Veyaan

open Sys

/-! ## Handlers -/

def Consumed (P : Params) (d : DB) (k : Lifecycle) (p : LifecyclePayload) (r : Except Err Unit) (d' : DB) : Prop :=
  ∃ x i w, (sys P).Alone false i (handler k p) (fresh d x).world r w ∧ w.sh.db = d'

section
variable {P : Params} {d d' : DB} {k : Lifecycle} {p : LifecyclePayload} {res : Except Err Unit}

theorem Consumed.rows (h : Consumed P d k p res d') : ∃ u n, d' = d.write (handleRows d k p u n) := by
  obtain ⟨x, i, w, hr, rfl⟩ := h
  obtain ⟨d', o', hm, hp, -⟩ :=
    alone_sound (fresh_matches d x i) (solo_handle (I := fun _ => True) fun _ _ => trivial) hr
  rcases hp with ⟨hf, -⟩ | ⟨u, n, hd⟩
  · cases hf
  · exact ⟨u, n, hm.db.trans hd⟩

theorem consumed_exists (P : Params) (d : DB) (k : Lifecycle) (p : LifecyclePayload) :
    ∃ r d', Consumed P d k p r d' := by
  obtain ⟨r, w, hr⟩ := alone_ends (p := handler k p) (fresh_matches (P := P) d demoExt 0)
  exact ⟨r, w.sh.db, demoExt, 0, w, hr, rfl⟩

end

/-! ## What a device reports -/

structure Report where
  accepted : Bool
  rejectionReason : Option String
  progress : List (Option Int × Option String)
  success : Bool
  resultData : Option Json
  errorCode : Option String
  errorMessage : Option String

namespace Report

def opening (r : Report) (deviceId id : UUID) : List (Lifecycle × UUID × LifecyclePayload) :=
  (.delivered, id, { commandId := some id, deviceId := some deviceId }) ::
    [Frame.acknowledge id r.accepted r.rejectionReason].filterMap (Frame.message deviceId)

def frames (r : Report) (id : UUID) : List Frame :=
  r.progress.map (fun s => .progress id s.1 s.2) ++ [.result id r.success r.resultData r.errorCode r.errorMessage]

def messages (r : Report) (deviceId id : UUID) : List (Lifecycle × UUID × LifecyclePayload) :=
  r.opening deviceId id ++ (r.frames id).filterMap (Frame.message deviceId)

def session (r : Report) (deviceId id : UUID) : List (Lifecycle × UUID × LifecyclePayload) :=
  if r.accepted then r.messages deviceId id else r.opening deviceId id

def fits (r : Report) : Bool :=
  if r.success then r.resultData.all Json.storable else r.errorCode.all (varcharOk 50) && r.errorMessage.all textOk

def chain (r : Report) : List Lifecycle :=
  if r.accepted then [.delivered, .acknowledged, .progress] ++ if r.fits then [.result] else [] else [.delivered]

structure Says (r : Report) (deviceId id : UUID) (k : Lifecycle) (p : LifecyclePayload) : Prop where
  commandId : p.commandId = some id
  deviceId : p.deviceId = some deviceId
  acknowledged : k = .acknowledged → p.accepted = some r.accepted ∧ p.rejectionReason = r.rejectionReason
  result : k = .result → p.success = some r.success ∧ p.resultData = r.resultData ∧ p.errorCode = r.errorCode ∧
    p.errorMessage = r.errorMessage

def stateAt (r : Report) : Nat → CommandState
  | 0 => .queued
  | 1 => .delivered
  | 2 => .acknowledged
  | 3 => .running
  | _ => if r.success then .succeeded else .failed

def taskAt (r : Report) (initial : TaskState) : Nat → TaskState
  | 0 => initial
  | 1 => .running
  | 2 => .running
  | 3 => .running
  | _ => if r.success then .succeeded else .failed

def columnsAt (r : Report) (c₀ : Command) (j : Nat) : Option Json × Option String × Option String :=
  if j < 4 then (c₀.resultData, c₀.errorCode, c₀.errorMessage)
  else if r.success then (r.resultData, c₀.errorCode, c₀.errorMessage)
  else (c₀.resultData, r.errorCode, r.errorMessage)

end Report

def Lifecycle.rank : Lifecycle → Nat
  | .delivered => 0
  | .acknowledged => 1
  | .progress => 2
  | .result => 3

/-- The store after `j` messages about the command `c₀` have taken effect. -/
structure At (r : Report) (c₀ : Command) (t₀ : Task) (d : DB) (j : Nat) : Prop where
  command : ∃ c, d.commands.find c₀.id = some c ∧ c.state = r.stateAt j ∧ c.deviceId = c₀.deviceId ∧
    (c.resultData, c.errorCode, c.errorMessage) = r.columnsAt c₀ j
  task : ∃ t, d.tasks.find c₀.id = some t ∧ t.state = r.taskAt t₀.state j
  fits : d.Fits
  handled : ∀ k, k ≠ .progress → (d.handledBefore k c₀.id = [] ↔ j ≤ k.rank)
  length : j ≤ r.chain.length

section
variable {P : Params} {r : Report} {c₀ : Command} {t₀ : Task} {d : DB} {j : Nat}
    {k : Lifecycle} {p : LifecyclePayload}

theorem stateAt_end (r : Report) : r.stateAt (3 + 1) = if r.success then .succeeded else .failed := rfl

theorem taskAt_end (r : Report) (st : TaskState) :
    r.taskAt st (3 + 1) = if r.success then .succeeded else .failed := rfl

theorem stateAt_early (r : Report) (h : j < 3) : accepts (r.stateAt j) .succeeded = false ∧
    r.stateAt j ≠ .failed ∧ validateCommandStateTransition (r.stateAt j) .failed = false := by
  have hj : j = 0 ∨ j = 1 ∨ j = 2 := by omega
  rcases hj with rfl | rfl | rfl
  · show accepts .queued _ = _ ∧ CommandState.queued ≠ _ ∧ validateCommandStateTransition .queued _ = _
    decide
  · show accepts .delivered _ = _ ∧ CommandState.delivered ≠ _ ∧ validateCommandStateTransition .delivered _ = _
    decide
  · show accepts .acknowledged _ = _ ∧ CommandState.acknowledged ≠ _ ∧
      validateCommandStateTransition .acknowledged _ = _
    decide

/-- Four messages at most take effect, and one if the device refuses. -/
theorem Report.length_chain (r : Report) :
    r.chain.length ≤ 4 ∧ (r.accepted = false → r.chain.length = 1) ∧ (r.fits = false → r.chain.length ≤ 3) := by
  unfold Report.chain
  cases r.accepted <;> cases r.fits <;> simp

theorem Report.chain_zero (r : Report) : r.chain[0]? = some .delivered := by
  unfold Report.chain
  cases r.accepted <;> simp

theorem Report.chain_one (r : Report) (h : r.accepted = true) : r.chain[1]? = some .acknowledged := by
  unfold Report.chain
  simp [h]

theorem Report.chain_two (r : Report) (h : 2 ≤ r.chain.length) : r.chain[2]? = some .progress := by
  cases hacc : r.accepted with
  | false => have := r.length_chain.2.1 hacc; omega
  | true => unfold Report.chain; simp [hacc]

theorem Report.chain_three (r : Report) (h : 3 ≤ r.chain.length) (hf : r.fits = true) :
    r.chain[3]? = some .result := by
  cases hacc : r.accepted with
  | false => have := r.length_chain.2.1 hacc; omega
  | true => unfold Report.chain; simp [hacc, hf]

theorem not_goes {c : Command} {new : CommandState} {m : Metadata}
    (h : c.state ≠ new ∧ validateCommandStateTransition c.state new = false ∨
      (c.transition new 0 0 (some m)).storable = false) :
    c.goes new (some m) = false := by
  unfold Command.goes
  rcases h with ⟨hne, hv⟩ | h
  · simp [hne, hv]
  · simp [h]

theorem result_unstorable {c : Command} (hs : r.Says c₀.deviceId c₀.id .result p)
    (hf : r.fits = false) (id : UUID) :
    (c.transition (Lifecycle.result.target p) 0 0 (some (Lifecycle.result.metadata p id))).storable = false := by
  obtain ⟨hsuc, hdata, hcode, hmsg⟩ := hs.result rfl
  simp only [Report.fits] at hf
  cases hb : r.success with
  | true =>
    simp only [hb, if_true] at hf
    simp [Lifecycle.target, Lifecycle.metadata, hsuc, hb, Command.transition, Command.storable, hdata, hf]
  | false =>
    simp only [hb, Bool.false_eq_true, if_false] at hf
    simp only [Lifecycle.target, Lifecycle.metadata, hsuc, hb, Option.getD_some, Bool.false_eq_true, if_false,
      Command.transition, Command.storable, Option.elim_some, hcode, hmsg, hf, Bool.false_and]

/-- A message whose turn it is not is ignored, or its rows are refused. -/
theorem At.refused (h : At r c₀ t₀ d j) (hs : r.Says c₀.deviceId c₀.id k p)
    (hk : r.chain[j]? ≠ some k) {c : Command} (hc : c.state = r.stateAt j) (hid : c.id = c₀.id) :
    k.heeds d p c = false ∨ accepts c.state (k.target p) = false ∨ c.goes (k.target p)
    (some (k.metadata p c.id)) = false := by
  have hlen := h.length
  have hfour := r.length_chain.1
  -- a message that has taken effect before is a duplicate
  have hdup : k ≠ .progress → k.rank < j → k.heeds d p c = false := fun hne hlt =>
    heeds_of_duplicate hne fun he => by
      have := (h.handled k hne).mp (hid ▸ he)
      omega
  cases k with
  | delivered =>
    rcases Nat.eq_zero_or_pos j with rfl | hpos
    · exact absurd r.chain_zero hk
    · exact .inl (hdup (by simp) hpos)
  | acknowledged =>
    obtain ⟨hacc, -⟩ := hs.acknowledged rfl
    rcases Nat.lt_or_ge 1 j with hlt | hge
    · exact .inl (hdup (by simp) hlt)
    refine .inr ?_
    rw [hc]
    cases hb : r.accepted with
    | true =>
      have : j = 0 := by
        rcases Nat.le_one_iff_eq_zero_or_eq_one.mp hge with rfl | rfl
        · rfl
        · exact absurd (r.chain_one hb) hk
      subst this
      refine .inl ?_
      simp only [Lifecycle.target, hacc, hb, Option.getD_some, if_true]
      rfl
    | false =>
      refine .inr (not_goes (.inl ?_))
      rw [hc]
      simp only [Lifecycle.target, hacc, hb, Option.getD_some, Bool.false_eq_true, if_false]
      exact (stateAt_early r (by omega)).2
  | progress =>
    refine .inl ?_
    have : j ≠ 2 := fun he => hk (he ▸ r.chain_two (he ▸ hlen))
    have hst : r.stateAt j ≠ .acknowledged := by
      unfold Report.stateAt
      split
      · decide
      · decide
      · exact absurd rfl this
      · decide
      · split <;> decide
    simpa [Lifecycle.heeds, hc] using hst
  | result =>
    obtain ⟨hsuc, -⟩ := hs.result rfl
    rcases Nat.lt_or_ge 3 j with hlt | hge
    · exact .inl (hdup (by simp) hlt)
    refine .inr ?_
    rcases Nat.eq_or_lt_of_le hge with rfl | hlt
    · have hf : r.fits = false := by
        cases hf : r.fits with
        | false => rfl
        | true => exact absurd (r.chain_three hlen hf) hk
      exact .inr (not_goes (.inr (result_unstorable hs hf _)))
    · cases hb : r.success with
      | true =>
        refine .inl ?_
        rw [hc]
        simp only [Lifecycle.target, hsuc, hb, Option.getD_some, if_true]
        exact (stateAt_early r hlt).1
      | false =>
        refine .inr (not_goes (.inl ?_))
        rw [hc]
        simp only [Lifecycle.target, hsuc, hb, Option.getD_some, Bool.false_eq_true, if_false]
        exact (stateAt_early r hlt).2

/-! ## A message that takes effect -/

theorem rank_inj {k k' : Lifecycle} (h : k.rank = k'.rank) : k = k' := by
  cases k <;> cases k' <;> first | rfl | cases h

def effectRows (d : DB) (c : Command) (k : Lifecycle) (p : LifecyclePayload) (u n : Time) : List Write :=
  moveRows c (k.target p) k.source (some (k.metadata p c.id)) u n ++ (k.task p).elim [] (taskRows d c.id)

theorem effectRows_handled (d : DB) (c : Command) (k k' : Lifecycle) (p : LifecyclePayload) (u n : Time) :
    (d.write (effectRows d c k p u n)).handledBefore k' c.id = [] ↔ d.handledBefore k' c.id = [] ∧ k' ≠ k := by
  have hevents : (d.write (effectRows d c k p u n)).events =
      d.events ++ [⟨c.id, some c.state, k.target p, k.source, some (k.metadata p c.id)⟩] := by
    rw [effectRows, DB.write_append]
    cases k.task p with
    | none => rfl
    | some f => unfold taskRows Option.elim; cases d.tasks.find c.id <;> rfl
  unfold DB.handledBefore
  rw [hevents, List.filter_append, List.append_eq_nil_iff]
  refine and_congr_right fun _ => ?_
  have hkey := metadata_dedupKey k p c.id
  by_cases hk : k' = k
  · subst hk; simp [hkey]
  · simp [hkey, hk, Ne.symm hk]

theorem effectRows_command (d : DB) (c : Command) (k : Lifecycle) (p : LifecyclePayload) (u n : Time) :
    (d.write (effectRows d c k p u n)).commands.find c.id =
    some (c.transition (k.target p) u n (some (k.metadata p c.id))) := by
  rw [effectRows, DB.write_append, DB.write_commands, find_moveRows]
  intro w hw x
  cases hk : k.task p with
  | none => rw [hk] at hw; cases hw
  | some f =>
    rw [hk] at hw
    obtain ⟨t, -, rfl⟩ := List.mem_map.mp hw
    simp

theorem task_commandId {f : Task → Task} (hf : k.task p = some f) (t : Task) : (f t).commandId = t.commandId := by
  cases k with
  | delivered => cases hf; rfl
  | progress => cases hf; rfl
  | acknowledged => simp only [Lifecycle.task] at hf; split at hf <;> cases hf; rfl
  | result => simp only [Lifecycle.task] at hf; split at hf <;> cases hf <;> rfl

theorem effectRows_task {c : Command} {t : Task} (ht : d.tasks.find c.id = some t) (u n : Time) :
    (d.write (effectRows d c k p u n)).tasks.find c.id = some ((k.task p).elim t fun f => f t) := by
  rw [effectRows, DB.write_append]
  cases hk : k.task p with
  | none => exact ht
  | some f =>
    have hid : (f t).commandId = c.id := (task_commandId hk t).trans (by simpa using Table.key_of_find ht)
    simp only [Option.elim_some, taskRows, ht, Option.toList_some, List.map_cons, List.map_nil,
      DB.write_cons, DB.write_nil, Write.apply, Table.find_put, key_task, hid, if_true]

theorem effectRows_fits {c : Command} (h : d.Fits) (hgo : c.goes (k.target p) (some (k.metadata p c.id)) = true)
    (htask : d.takesTask c.id (k.task p) = true) (u n : Time) : (d.write (effectRows d c k p u n)).Fits := by
  have hmove : (d.write (moveRows c (k.target p) k.source (some (k.metadata p c.id)) u n)).Fits := by
    refine DB.Fits.apply (DB.Fits.apply h (w := .command _) ?_) (w := .event _) rfl
    simp only [Command.goes, Bool.and_eq_true] at hgo
    rw [Write.fits, storable_transition]
    exact hgo.1.2
  rw [effectRows, DB.write_append]
  cases hk : k.task p with
  | none => exact hmove
  | some f =>
    simp only [Option.elim_some, taskRows]
    cases ht : d.tasks.find c.id with
    | none => exact hmove
    | some t =>
      refine DB.Fits.apply hmove (w := .task _) ?_
      simpa [DB.takesTask, hk, ht, Write.fits] using htask

theorem At.moved (h : At r c₀ t₀ d j) (hs : r.Says c₀.deviceId c₀.id k p) {c : Command} {t : Task}
    (hc : d.commands.find c₀.id = some c) (hst : c.state = r.stateAt j) (hdev : c.deviceId = c₀.deviceId)
    (ht : d.tasks.find c₀.id = some t) (hrank : k.rank = j) (hturn : r.chain[j]? = some k)
    (hacc : accepts c.state (k.target p) = true) (hgo : c.goes (k.target p) (some (k.metadata p c.id)) = true)
    (htakes : d.takesTask c.id (k.task p) = true) (hnew : k.target p = r.stateAt (j + 1))
    (hcols : ∀ u n, let c' := c.transition (k.target p) u n (some (k.metadata p c.id))
      (c'.resultData, c'.errorCode, c'.errorMessage) = r.columnsAt c₀ (j + 1))
    (htask : ((k.task p).elim t fun f => f t).state = r.taskAt t₀.state (j + 1)) (u n : Time) :
    At r c₀ t₀ (d.write (handleRows d k p u n)) (j + 1) := by
  have hid : c.id = c₀.id := by simpa using Table.key_of_find hc
  have hheeds : k.heeds d p c = true := by
    by_cases hk : k = .progress
    · subst hk
      have : j = 2 := hrank.symm
      subst this
      simp [Lifecycle.heeds, hst, Report.stateAt]
    · refine heeds_of_new hk (hid ▸ (h.handled k hk).mpr (Nat.le_of_eq hrank.symm)) ?_
      simp [hs.deviceId, hdev]
  have hrows : handleRows d k p u n = effectRows d c k p u n := by
    rw [handleRows_of_find hs.commandId hc, if_pos (by simp [hheeds, hacc, hgo, htakes])]
    rfl
  rw [hrows]
  refine ⟨⟨_, hid ▸ effectRows_command d c k p u n, ?_, ?_, hcols u n⟩, ?_, effectRows_fits h.fits hgo htakes u n,
    fun k' hk' => ?_, ?_⟩
  · rw [Command.transition_state]; exact hnew
  · rw [(c.transition_same ..).deviceId]; exact hdev
  · rw [← hid] at ht ⊢
    exact ⟨_, effectRows_task ht u n, htask⟩
  · rw [← hid, effectRows_handled, hid, h.handled k' hk']
    constructor
    · rintro ⟨hle, hne⟩
      have : k'.rank ≠ j := fun he => hne (rank_inj (he.trans hrank.symm))
      omega
    · intro hle
      refine ⟨by omega, fun he => ?_⟩
      subst he
      omega
  · have := (List.getElem?_eq_some_iff.mp hturn).1
    omega

theorem Report.chain_cases (h : r.chain[j]? = some k) : j = 0 ∧ k = .delivered ∨ j = 1 ∧
    k = .acknowledged ∧ r.accepted = true ∨
    j = 2 ∧ k = .progress ∧ r.accepted = true ∨ j = 3 ∧ k = .result ∧ r.accepted = true ∧ r.fits = true := by
  unfold Report.chain at h
  cases hacc : r.accepted with
  | false =>
    simp only [hacc, Bool.false_eq_true, if_false] at h
    match j, h with
    | 0, h => cases h; exact .inl ⟨rfl, rfl⟩
  | true =>
    simp only [hacc, if_true] at h
    match j, h with
    | 0, h => cases h; exact .inl ⟨rfl, rfl⟩
    | 1, h => cases h; exact .inr (.inl ⟨rfl, rfl, rfl⟩)
    | 2, h => cases h; exact .inr (.inr (.inl ⟨rfl, rfl, rfl⟩))
    | j + 3, h =>
      cases hf : r.fits with
      | false => simp [hf] at h
      | true =>
        simp only [hf, if_true, List.cons_append, List.nil_append, List.getElem?_cons_succ] at h
        match j, h with
        | 0, h => cases h; exact .inr (.inr (.inr ⟨rfl, rfl, rfl, rfl⟩))

theorem goes_of_storable {c : Command} {new : CommandState} {m : Metadata}
    (hv : validateCommandStateTransition c.state new = true) (hs : (c.transition new 0 0 (some m)).storable = true)
    (hm : m.storable = true) : c.goes new (some m) = true := by
  simp [Command.goes, hv, hs, hm]

theorem update_storable {t : Task} (h : t.storable = true) {st : TaskState} {rs ec em : Option String}
    (hrs : rs.all textOk = true) (hec : ec.all (varcharOk 50) = true) (hem : em.all textOk = true) :
    (t.update st rs ec em).storable = true := by
  simp only [Task.storable, Bool.and_eq_true] at h ⊢
  simp only [Task.update]
  refine ⟨⟨?_, ?_⟩, ?_⟩
  · cases rs with
    | none => exact h.1.1
    | some s => exact hrs
  · cases ec with
    | none => exact h.1.2
    | some s => exact hec
  · cases em with
    | none => exact h.2
    | some s => exact hem

theorem textOk_success : textOk "success" = true := by decide

theorem textOk_of_varcharOk {s : Option String} (h : s.all (varcharOk 50) = true) : s.all textOk = true := by
  cases s with
  | none => rfl
  | some s => simp only [Option.all_some, varcharOk, Bool.and_eq_true] at h; exact h.2

theorem At.taken (h : At r c₀ t₀ d j) (hs : r.Says c₀.deviceId c₀.id k p) (hk : r.chain[j]? = some k) (u n : Time) :
    At r c₀ t₀ (d.write (handleRows d k p u n)) (j + 1) := by
  obtain ⟨c, hc, hst, hdev, hcols⟩ := h.command
  obtain ⟨t, ht, htst⟩ := h.task
  have hid : c.id = c₀.id := by simpa using Table.key_of_find hc
  have hcs := h.fits.command _ c hc
  have hts := h.fits.task _ t ht
  rcases Report.chain_cases hk with ⟨rfl, rfl⟩ | ⟨rfl, rfl, hacc⟩ | ⟨rfl, rfl, hacc⟩ | ⟨rfl, rfl, hacc, hf⟩
  · have hst : c.state = .queued := hst
    refine h.moved hs hc hst hdev ht rfl hk (by rw [hst]; rfl) (goes_of_storable (by rw [hst]; rfl) hcs rfl) ?_ rfl
      (fun _ _ => hcols) rfl u n
    simp [DB.takesTask, Lifecycle.task, hid, ht, update_storable hts]
  · obtain ⟨hp, -⟩ := hs.acknowledged rfl
    have hst : c.state = .delivered := hst
    have htarget : Lifecycle.acknowledged.target p = .acknowledged := by simp [Lifecycle.target, hp, hacc]
    have htask : Lifecycle.acknowledged.task p = none := by simp [Lifecycle.task, hp, hacc]
    have hmeta : Lifecycle.acknowledged.metadata p c.id = { dedupKey := some ⟨.acknowledged, c.id⟩ } := by
      simp [Lifecycle.metadata, hp, hacc]
    refine h.moved hs hc hst hdev ht rfl hk ?_ ?_ ?_ htarget ?_ ?_ u n
    · rw [htarget, hst]; rfl
    · rw [htarget, hmeta]
      exact goes_of_storable (by rw [hst]; rfl) hcs rfl
    · simp [DB.takesTask, htask]
    · rw [htarget]
      exact fun _ _ => hcols
    · rw [htask]; exact htst
  · have hst : c.state = .acknowledged := hst
    refine h.moved hs hc hst hdev ht rfl hk (by rw [hst]; rfl) (goes_of_storable (by rw [hst]; rfl) hcs rfl) ?_ rfl
      (fun _ _ => hcols) rfl u n
    simp [DB.takesTask, Lifecycle.task, hid, ht, update_storable hts]
  · obtain ⟨hsuc, hdata, hcode, hmsg⟩ := hs.result rfl
    have hst : c.state = .running := hst
    have hkeep : c.resultData = c₀.resultData ∧ c.errorCode = c₀.errorCode ∧ c.errorMessage = c₀.errorMessage := by
      simpa [Report.columnsAt] using hcols
    simp only [Command.storable, Bool.and_eq_true] at hcs
    cases hb : r.success with
    | true =>
      have hfits : r.resultData.all Json.storable = true := by simpa [Report.fits, hb] using hf
      have htarget : Lifecycle.result.target p = .succeeded := by simp [Lifecycle.target, hsuc, hb]
      have htask : Lifecycle.result.task p = some (Task.update .succeeded (some "success") none none) := by
        simp [Lifecycle.task, hsuc, hb]
      have hmeta : Lifecycle.result.metadata p c.id =
          { resultData := some r.resultData, resultSummary := some "success",
              dedupKey := some ⟨.result, c.id⟩ } := by
        simp [Lifecycle.metadata, hsuc, hb, hdata]
      refine h.moved hs hc hst hdev ht rfl hk ?_ ?_ ?_ ?_ (fun _ _ => ?_) ?_ u n
      · rw [htarget, hst]; rfl
      · rw [htarget, hmeta]
        refine goes_of_storable (by rw [hst]; rfl) ?_ ?_
        · simp [Command.transition, Command.storable, hcs.1.1.1, hcs.1.1.2, hfits, textOk_success]
        · simp [Metadata.storable, hfits, textOk_success]
      · simp [DB.takesTask, htask, hid, ht, update_storable hts, textOk_success]
      · rw [htarget, stateAt_end, if_pos hb]
      · rw [htarget, hmeta]
        simp [Command.transition, Report.columnsAt, hb, hkeep]
      · rw [htask, taskAt_end, if_pos hb]; rfl
    | false =>
      have hfits : r.errorCode.all (varcharOk 50) = true ∧ r.errorMessage.all textOk = true := by
        simpa [Report.fits, hb] using hf
      have htarget : Lifecycle.result.target p = .failed := by simp [Lifecycle.target, hsuc, hb]
      have htask : Lifecycle.result.task p = some (Task.update .failed none r.errorCode r.errorMessage) := by
        simp [Lifecycle.task, hsuc, hb, hcode, hmsg]
      have hmeta : Lifecycle.result.metadata p c.id =
          { errorCode := r.errorCode, errorMessage := r.errorMessage, dedupKey := some ⟨.result, c.id⟩ } := by
        simp [Lifecycle.metadata, hsuc, hb, hcode, hmsg]
      refine h.moved hs hc hst hdev ht rfl hk ?_ ?_ ?_ ?_ (fun _ _ => ?_) ?_ u n
      · rw [htarget, hst]; rfl
      · rw [htarget, hmeta]
        refine goes_of_storable (by rw [hst]; rfl) ?_ ?_
        · simp [Command.transition, Command.storable, hcs.1.2, hcs.2, hfits]
        · simp [Metadata.storable, hfits, textOk_of_varcharOk hfits.1]
      · simp [DB.takesTask, htask, hid, ht, update_storable hts, hfits]
      · rw [htarget, stateAt_end, if_neg (by simp [hb])]
      · rw [htarget, hmeta]
        simp [Command.transition, Report.columnsAt, hb, hkeep]
      · rw [htask, taskAt_end, if_neg (by simp [hb])]; rfl

theorem At.consume (h : At r c₀ t₀ d j) (hs : r.Says c₀.deviceId c₀.id k p) {res : Except Err Unit} {d' : DB}
    (hd : Consumed P d k p res d') : At r c₀ t₀ d' (if r.chain[j]? = some k then j + 1 else j) := by
  obtain ⟨u, n, rfl⟩ := hd.rows
  split
  · rename_i hk
    exact h.taken hs hk u n
  · rename_i hk
    obtain ⟨c, hc, hst, -⟩ := h.command
    have hid : c.id = c₀.id := by simpa using Table.key_of_find hc
    have : handleRows d k p u n = [] := by
      rw [handleRows_of_find hs.commandId hc, if_neg]
      rcases h.refused hs hk hst hid with h | h | h <;> simp [h]
    rw [this]
    exact h

end

end Veyaan
