import Veyaan.Refine.Sound
import Veyaan.Serial.Devices
import Veyaan.Serial.Messages

/-!
# What the workers do alone

A batch of the publisher and a run of the scheduler, one row after the other. A
round whose exception is caught has written nothing, or it has failed the
transaction: then the loop goes on, and nothing of it is committed.
-/

namespace Veyaan

open Sys

section
variable {P : Params} {J : Ext → Prop} {I : DB → Prop} {β : Type}
    {Q : Except Err β → DB → Open DB → Prop} {d v : DB}

def Spoils (d : DB) (Q : Except Err β → DB → Open DB → Prop) : Prop := ∀ r o, o.failed = true → Q r d o

theorem Spoils.solo (h : Spoils d Q) {p : Op β} (hp : p.All Keeps) {o : Open DB} (ho : o.failed = true) :
    within P true J I p Q d o :=
  alone_mono (fun r _ o' h' => h'.1 ▸ h r o' h'.2) (alone_failed hp ho)

/-! ## `OutboxPublisher` -/

theorem markRows_outbox (v : DB) (id : UUID) (g : OutboxEvent → OutboxEvent) :
    ∃ es : List OutboxEvent, markRows v id g = es.map .outbox :=
  ⟨(v.outbox.find id).toList.map fun e => { g e with id := e.id }, by rw [List.map_map]; rfl⟩

theorem EventRows.publish {e : OutboxEvent} {vs : List Write} (h : EventRows P v e vs) : PublishRows v vs := by
  have hmark := markRows_outbox v e.id
  cases h with
  | published =>
    obtain ⟨es, hes⟩ := hmark _
    rw [hes]
    exact .mark
  | failed =>
    obtain ⟨es, hes⟩ := hmark _
    rw [hes]
    exact .mark
  | again =>
    obtain ⟨es, hes⟩ := hmark _
    rw [hes]
    exact .mark
  | block hc ha =>
    obtain ⟨es, hes⟩ := hmark _
    rw [hes]
    exact .block hc ha

theorem BatchRows.rounds {es : List OutboxEvent} {ws : List Write} (h : BatchRows P es v ws) :
    Rounds PublishRows v ws := by
  induction h with
  | nil => exact .nil
  | cons he _ ih => exact .cons he.publish ih

theorem solo_updateOutbox {id : UUID} {g : OutboxEvent → OutboxEvent} {f : Nat → Op β} (hE : Spoils d Q)
    (hk : ∀ n, within P true J I (f n) Q d (.seeing (v.write (markRows v id g)))) :
    within P true J I ((execute [.outbox id] (updateOutbox id g)).bind f) Q d (.seeing v) := by
  refine solo_execute rfl (fun _ => hE _ _ rfl) (fun _ _ => hE _ _ rfl) fun ws hws => ?_
  have hrows : updateOutbox id g v = .ok ws := hws
  rw [updateOutbox_rows] at hrows
  cases hrows
  exact hk _

theorem solo_markPublished {id : UUID} {f : Unit → Op β} (hE : Spoils d Q)
    (hk : ∀ now, within P true J I (f ()) Q d
      (.seeing (v.write (markRows v id fun r => { r with status := .published, publishedAt := some now })))) :
    within P true J I ((markPublished id).bind f) Q d (.seeing v) := by
  unfold markPublished
  simp only [Prog.bind_eq, Prog.bind_assoc]
  exact solo_now fun now => solo_updateOutbox hE fun _ => hk now

theorem solo_markFailed {id : UUID} {f : Unit → Op β} (hE : Spoils d Q)
    (hk : within P true J I (f ()) Q d (.seeing (v.write (markRows v id fun r => { r with status := .failed })))) :
    within P true J I ((markFailed id).bind f) Q d (.seeing v) := by
  unfold markFailed
  simp only [Prog.bind_eq, Prog.bind_assoc]
  exact solo_updateOutbox hE fun _ => hk

theorem solo_incrementAttempt {id : UUID} {f : Unit → Op β} (hE : Spoils d Q)
    (hk : within P true J I (f ()) Q d
      (.seeing (v.write (markRows v id fun r =>
        { r with attemptCount := r.attemptCount + 1, status := .pending })))) :
    within P true J I ((incrementAttempt id).bind f) Q d (.seeing v) := by
  unfold incrementAttempt
  simp only [Prog.bind_eq, Prog.bind_assoc]
  exact solo_updateOutbox hE fun _ => hk

theorem solo_publishReady {e : OutboxEvent} {Q : Except Err Bool → DB → Open DB → Prop} (hE : Spoils d Q)
    (hraise : Q (.error .nats) d (.seeing v))
    (hk : ∀ vs b, EventRows P v e vs → Q (.ok b) d (.seeing (v.write vs))) :
    within P true J I (publishReady e) Q d (.seeing v) := by
  intro ch x _
  cases ch with
  | false => exact hraise
  | true => exact solo_markPublished (P := P) (I := I) (f := fun _ => .ret true) hE fun _ => hk _ true .published

theorem solo_logKeywords {f : Unit → Op β} {o : Open DB} (hraise : Q (.error .typeError) d o)
    (hk : P.loggerRaises = false → within P true J I (f ()) Q d o) :
    within P true J I ((logKeywords P).bind f) Q d o := by
  unfold logKeywords
  split
  · exact hraise
  · rename_i hlog
    exact hk (by simpa using hlog)

theorem solo_enforceStop {e : OutboxEvent} {c : Command} {Q : Except Err Unit → DB → Open DB → Prop}
    (hc : v.commands.find c.id = some c) (hE : Spoils d Q) (hraise : ∀ e, Q (.error e) d (.seeing v))
    (hk : ∀ vs, EventRows P v e vs → Q (.ok ()) d (.seeing (v.write vs))) :
    within P true J I (enforceStop P e c) Q d (.seeing v) := by
  have hmark : ∀ {v' : DB}, Q (.ok ()) d (.seeing
    (v'.write (markRows v' e.id fun r => { r with status := .failed }))) →
      within P true J I (markFailed e.id) Q d (.seeing v') := fun hk => by
    rw [← Prog.bind_ret (markFailed _)]
    exact solo_markFailed hE hk
  have hfailed : ∀ o : Open DB, o.failed = true →
      within P true J I ((logKeywords P).bind fun _ => markFailed e.id) Q d o := fun o ho => by
    refine hE.solo (.bind all_logKeywords fun _ => ?_) ho
    exact .bind keeps_plain.execute fun _ => trivial
  refine alone_bind (alone_attempt ?_)
  rw [← Prog.bind_ret (transitionCommand _ _ _ _ _)]
  refine solo_transition rfl (by rintro _ ⟨rfl⟩; exact hc) (fun _ o' ho => hfailed o' ho)
    (fun hn => ?_) (fun _ _ _ => ?_)
    (fun _ _ o' _ _ _ _ ho => hfailed o' ho) fun c' u n hc' hacc _ => ?_
  · cases hc.symm.trans hn
  · exact solo_logKeywords (hraise _) fun _ => hmark (hk _ .failed)
  · cases hc.symm.trans hc'
    refine hmark ?_
    have := hk _ (.block (u := u) (n := n) hc hacc)
    rw [DB.write_append] at this
    exact this

theorem solo_publishEvent {e : OutboxEvent} {Q : Except Err Bool → DB → Open DB → Prop} (hE : Spoils d Q)
    (hraise : ∀ e, Q (.error e) d (.seeing v))
    (hk : ∀ vs b, EventRows P v e vs → Q (.ok b) d (.seeing (v.write vs))) :
    within P true J I (publishEvent P e) Q d (.seeing v) := by
  have hready : within P true J I (publishReady e) Q d (.seeing v) := solo_publishReady hE (hraise _) hk
  unfold publishEvent
  split
  · refine solo_select rfl (fun _ => hE _ _ rfl) ?_
    cases hc : v.commands.find e.aggregateId with
    | none => simp only [Open.seeing, hc]; exact hready
    | some c =>
      have hid : c.id = e.aggregateId := by simpa using Table.key_of_find hc
      simp only [Open.seeing, hc]
      refine solo_select rfl (fun _ => hE _ _ rfl) ?_
      split
      · exact hready
      refine solo_isActive (fun _ => hraise _) (fun _ => hraise _) fun stopped => ?_
      unfold publishChecked
      split
      · refine alone_bind (solo_enforceStop (hid ▸ hc) (fun r o ho => ?_) hraise fun vs h => hk vs false h)
        cases r with
        | ok _ => exact hE _ o ho
        | error e => exact hE _ o ho
      · exact hready
  · exact hready

theorem solo_processEvent {e : OutboxEvent} {f : Nat → Op β} (hf : ∀ a, (f a).All Keeps) (hE : Spoils d Q)
    (hraise : ∀ e o, Q (.error e) d o) (hk : ∀ vs n, EventRows P v e vs →
      within P true J I (f n) Q d (.seeing (v.write vs))) :
    within P true J I ((processEvent P e).bind f) Q d (.seeing v) := by
  have hretry : ∀ o : Open DB, o.failed = true ∨ o = .seeing v →
      within P true J I ((retryEvent P e).bind f) Q d o := by
    rintro o (ho | rfl)
    · exact hE.solo (.bind (all_retryEvent keeps_plain) hf) ho
    · unfold retryEvent
      simp only [Prog.bind_eq, Prog.bind_assoc]
      refine solo_logKeywords (hraise _ _) fun hlog => ?_
      split
      · rw [Prog.bind_assoc]
        exact solo_markFailed hE (hk _ 0 .failed)
      · rename_i hcount
        rw [Prog.bind_assoc]
        exact solo_incrementAttempt hE (hk _ 0 (.again hlog hcount))
  refine alone_bind (alone_bind (alone_attempt
    (solo_publishEvent (fun r o ho => ?_) (fun e => ?_) fun vs b h => ?_)))
  · cases r with
    | ok b => exact hE.solo (hf _) ho
    | error e => exact alone_of_bind (hretry o (.inl ho))
  · exact alone_of_bind (hretry _ (.inr rfl))
  · exact hk vs _ h

theorem keeps_processEvents : ∀ {es : List OutboxEvent}, (processEvents P es).All
    (Keeps (D := DB) (K := Key) (W := Write) (T := Label) (ε := Err) (E := Eff))
  | [] => trivial
  | _ :: _ =>
    .bind (all_processEvent keeps_plain trivial fun _ _ => all_isActive trivial trivial fun _ => trivial) fun _ =>
    .bind keeps_processEvents fun _ => trivial

theorem solo_processEvents {f : Nat → Op β} (hf : ∀ a, (f a).All Keeps) (hE : Spoils d Q)
    (hraise : ∀ e o, Q (.error e) d o) :
    ∀ {es : List OutboxEvent} {v : DB} {g : Nat → Nat}, (∀ ws n, BatchRows P es v ws →
      within P true J I (f (g n)) Q d (.seeing (v.write ws))) →
      within P true J I ((processEvents P es).bind fun n => f (g n)) Q d (.seeing v)
  | [], _, _, hk => hk [] 0 .nil
  | e :: es, v, g, hk => by
    unfold processEvents
    simp only [Prog.bind_eq, Prog.bind_assoc]
    refine solo_processEvent (fun m => .bind keeps_processEvents fun n => hf _) hE hraise fun vs m h => ?_
    refine solo_processEvents (g := fun n => g (m + n)) hf hE hraise fun ws n hws => ?_
    have := hk (vs ++ ws) (m + n) (.cons h hws)
    rw [DB.write_append] at this
    exact this

theorem solo_skipLocked {ρ : Type} {sel : DB → List ρ} {key : ρ → Key} {n : Nat} {f : List ρ → Op β} {o : Open DB}
    (ho : o.failed = false) (hE : Spoils d Q)
    (hk : within P true J I (f ((sel o.view).take n)) Q d (.seeing o.view)) :
    within P true J I ((Prog.call (.skipLocked sel key n)).bind f) Q d o := by
  refine ⟨fun _ => hE _ _ rfl, fun _ => ?_⟩
  have hlock : o.lock = .seeing o.view := by obtain ⟨v, fl, l⟩ := o; cases ho; rfl
  exact hlock ▸ hk

theorem solo_processBatch : solo P true (Wrote P .batch d) (processBatch P)
    (fun _ d' o' => Wrote P .batch d d' ∧ o'.locks = false) d (.idle d) := by
  refine solo_session ?_
  unfold getUnpublished
  simp only [Prog.bind_eq, Prog.bind_assoc]
  refine solo_now fun now => solo_skipLocked rfl (fun _ _ h => ends_failed h) ?_
  split
  · exact ends_lock
  refine solo_processEvents (g := id) (f := fun n => (commit .batch).bind fun _ => .ret n)
    (fun _ => .bind (.call trivial) fun _ => trivial) (fun _ _ h => ends_failed h)
    (fun _ _ => ends_error) fun ws n hws => ?_
  exact solo_commitRows (.batch hws.rounds) rfl (ends_wrote (.batch hws.rounds))

/-! ## `SchedulerWorker` -/

theorem within_expireTask {id : UUID} {Q : Except Err Unit → DB → Open DB → Prop} (hE : Spoils d Q)
    (hk : Q (.ok ()) d (.seeing (v.write (expireTaskRows v id)))) :
    within P true J I (expireTask id) Q d (.seeing v) := by
  refine solo_skipLocked rfl hE ?_
  cases ht : v.tasks.find id with
  | none =>
    simp only [expireTaskRows, ht] at hk
    simp only [Open.seeing, ht]
    exact hk
  | some t =>
    simp only [Open.seeing, ht, Option.toList_some, List.take_succ_cons, List.head?_cons]
    simp only [expireTaskRows, ht, Option.toList_some] at hk
    split
    · rename_i hend
      rw [List.filter_cons_of_neg (by simpa [imp_iff_not_or] using hend)] at hk
      exact hk
    · rename_i hend
      rw [List.filter_cons_of_pos (by simpa using hend)] at hk
      refine solo_execute rfl (fun _ => hE _ _ rfl) (fun _ _ => hE _ _ rfl) fun ws hws => ?_
      simp only [updateTask, ht] at hws
      split at hws <;> cases hws
      exact hk

theorem find_expired {c : Command} {u n : Time} {id : UUID} (hne : id ≠ c.id) :
    (v.write (moveRows c .expired .scheduler none u n ++ expireTaskRows v c.id)).commands.find id =
      v.commands.find id := by
  rw [DB.write_append, DB.write_commands _ fun w hw c => ?_]
  · exact Table.find_put_ne _ (Ne.symm hne)
  · obtain ⟨t, -, rfl⟩ := List.mem_map.mp hw
    simp

theorem within_expireCommand {c : Command} {f : Nat → Op β} (hf : ∀ a, (f a).All Keeps) (hE : Spoils d Q)
    (hraise : ∀ e o, Q (.error e) d o) (hc : v.commands.find c.id = some c) (hst : c.state ∈ nonTerminal)
    (hk : ∀ vs n, ExpireRows v vs → Timed J vs →
      (∀ id, id ≠ c.id → (v.write vs).commands.find id = v.commands.find id) →
      within P true J I (f n) Q d (.seeing (v.write vs))) :
      within P true J I ((expireCommand P c).bind f) Q d (.seeing v) := by
  have hlog : ∀ o : Open DB, o.failed = true ∨ o = .seeing v →
      within P true J I ((Prog.bind (logKeywords P) fun _ => .ret 0).bind f) Q d o := by
    rintro o (ho | rfl)
    · refine hE.solo (.bind (.bind all_logKeywords fun _ => ?_) hf) ho
      trivial
    · rw [Prog.bind_assoc]
      exact solo_logKeywords (hraise _ _) fun _ => hk [] 0 .skip (timed_of_tables (by simp)) fun _ _ => rfl
  refine alone_bind (alone_bind (alone_attempt ?_))
  refine within_transition rfl (by rintro _ ⟨rfl⟩; exact hc)
    (fun _ o' ho => alone_of_bind (hlog o' (.inl ho))) (fun hn => ?_)
    (fun _ _ _ => alone_of_bind (hlog _ (.inr rfl))) (fun _ _ o' _ _ _ _ ho => alone_of_bind (hlog o' (.inl ho)))
    fun c' u x hx hc' hacc _ => ?_
  · cases hc.symm.trans hn
  · cases hc.symm.trans hc'
    refine within_expireTask (fun r o ho => ?_) ?_
    · cases r with
      | ok _ => exact hE.solo (hf _) ho
      | error e => exact alone_of_bind (hlog o (.inl ho))
    · have := hk _ 1 (.expire (u := u) (n := x.clock) hc hst hacc)
        ((timed_moveRows hx).append timed_expireTaskRows) fun id hne => find_expired hne
      rw [DB.write_append] at this
      exact this

theorem within_expireAll {f : Nat → Op β} (hf : ∀ a, (f a).All Keeps) (hE : Spoils d Q)
    (hraise : ∀ e o, Q (.error e) d o) :
    ∀ {cs : List Command} {v : DB} {g : Nat → Nat}, (cs.map Command.id).Nodup →
      (∀ c ∈ cs, v.commands.find c.id = some c ∧ c.state ∈ nonTerminal) →
      (∀ ws n, Rounds (TimedExpire J) v ws → within P true J I (f (g n)) Q d (.seeing (v.write ws))) →
      within P true J I ((expireAll P cs).bind fun n => f (g n)) Q d (.seeing v)
  | [], _, _, _, _, hk => hk [] 0 .nil
  | c :: cs, v, g, hnd, hrows, hk => by
    unfold expireAll
    simp only [Prog.bind_eq, Prog.bind_assoc]
    rw [List.map_cons, List.nodup_cons] at hnd
    obtain ⟨hc, hst⟩ := hrows c (List.mem_cons_self ..)
    refine within_expireCommand (fun m => .bind keeps_plain.expireAll fun n => hf _) hE hraise hc hst
      fun vs m h ht hframe => ?_
    refine within_expireAll (g := fun n => g (m + n)) hf hE hraise hnd.2 (fun x hx => ?_) fun ws n hws => ?_
    · have hne : x.id ≠ c.id := fun he => hnd.1 (he ▸ List.mem_map_of_mem hx)
      rw [hframe x.id hne]
      exact hrows x (List.mem_cons_of_mem _ hx)
    · have := hk (vs ++ ws) (m + n) (.cons ⟨h, ht⟩ hws)
      rw [DB.write_append] at this
      exact this

theorem within_expireCommands {f : Nat → Op β} (hf : ∀ a, (f a).All Keeps) (hE : Spoils d Q)
    (hraise : ∀ e o, Q (.error e) d o)
    (hk : ∀ ws n, Rounds (TimedExpire J) v ws → within P true J I (f n) Q d (.seeing (v.write ws))) :
    within P true J I ((expireCommands P).bind f) Q d (.seeing v) := by
  unfold expireCommands
  simp only [Prog.bind_eq, Prog.bind_assoc]
  refine solo_now fun now => solo_skipLocked rfl hE (within_expireAll (g := id) hf hE hraise ?_ (fun c hc => ?_) hk)
  · refine v.commands.nodup.sublist (List.Sublist.map _ ?_)
    exact (List.take_sublist ..).trans List.filter_sublist
  · have := List.mem_filter.mp (List.mem_of_mem_take hc)
    have hst := this.2
    rw [Bool.and_eq_true, decide_eq_true_eq] at hst
    exact ⟨Table.find_of_mem this.1, hst.1⟩

theorem solo_logCount {n : Nat} {f : Unit → Op β} {o : Open DB} (hraise : Q (.error .typeError) d o)
    (hk : within P true J I (f ()) Q d o) : within P true J I ((logCount P n).bind f) Q d o := by
  unfold logCount
  split
  · exact hk
  · exact solo_logKeywords hraise fun _ => hk

theorem solo_expireStalePairings {f : Nat → Op β} (hE : Spoils d Q)
    (hk : ∀ (ps : List PairingRequest) n, within P true J I (f n) Q d (.seeing (d.write (ps.map .pairing)))) :
    within P true J I (expireStalePairings.bind f) Q d (.idle d) := by
  unfold expireStalePairings
  simp only [Prog.bind_eq, Prog.bind_assoc]
  refine solo_now fun now => ⟨fun _ => hE _ _ rfl, fun _ => ?_⟩
  have := hk ((expireStalePairings.stale now d).map fun p => { p with status := .expired })
  rw [List.map_map] at this
  exact this _

theorem solo_expirePendingApprovals {f : Nat → Op β} (hE : Spoils d Q)
    (hk : ∀ (as : List Approval) n, within P true J I (f n) Q d (.seeing (v.write (as.map .approval)))) :
    within P true J I (expirePendingApprovals.bind f) Q d (.seeing v) := by
  unfold expirePendingApprovals
  simp only [Prog.bind_eq, Prog.bind_assoc]
  refine solo_now fun now => ⟨fun _ => hE _ _ rfl, fun _ => ?_⟩
  have := hk ((expirePendingApprovals.overdue now v).map fun a => { a with status := .expired })
  rw [List.map_map] at this
  exact this _

theorem within_runTasks : within P true J (WroteIn J P .tasks d) (runTasks P)
    (fun _ d' o' => WroteIn J P .tasks d d' ∧ o'.locks = false) d (.idle d) := by
  have hsame : WroteIn J P .tasks d d := .inl rfl
  have hE : ∀ {α : Type}, Spoils d (Finished (α := α) (WroteIn J P .tasks d)) :=
    fun _ _ h => finished_failed hsame h
  refine within_session (solo_expireStalePairings hE fun ps _ => solo_logCount (finished_error hsame) ?_)
  refine solo_expirePendingApprovals hE fun as _ => solo_logCount (finished_error hsame) ?_
  refine within_expireCommands (fun _ => .bind all_logCount fun _ => .call trivial) hE
    (fun _ _ => finished_error hsame) fun ws n hws => solo_logCount (finished_error hsame) ?_
  rw [← Prog.bind_ret (commit _)]
  rw [← DB.write_append] at hws
  have hrows : Rows P d .tasks (ps.map .pairing ++ as.map .approval ++ ws) := .tasks (hws.imp fun _ _ h => h.1)
  have htimed : Timed J (ps.map .pairing ++ as.map .approval ++ ws) := (timed_of_tables (by simp)).append hws.timed
  exact within_commitRows hrows htimed (by simp only [DB.write_append]) fun h => finished_idle h

theorem solo_runTasks : solo P true (Wrote P .tasks d) (runTasks P)
    (fun _ d' o' => Wrote P .tasks d d' ∧ o'.locks = false) d (.idle d) :=
  alone_imp (fun _ h => h.wrote) (alone_mono (fun _ _ _ h => ⟨h.1.wrote, h.2⟩) within_runTasks)

end

/-! ## The gateway -/

theorem still_natsListener {conn : DeviceConnection} {p : ReadyPayload} : (natsListener conn p).All
    (Still (D := DB) (K := Key) (W := Write) (T := Label) (ε := Err) (E := Eff)) := by
  refine .bind (.call trivial) fun _ => .bind (.attempt (.bind ?_ fun stopped => ?_)) fun r => ?_
  · exact all_isActive trivial trivial fun _ => trivial
  · unfold deliverChecked
    split
    · exact .call trivial
    refine .bind (.bind (.attempt (.bind (.call trivial) fun row => ?_)) fun r => by split <;> trivial) fun ok => ?_
    · split
      · trivial
      split
      · trivial
      split
      · trivial
      split
      · trivial
      · exact .bind (.call trivial) fun _ => trivial
    split
    · refine .bind (.call trivial) fun _ => ?_
      split
      · trivial
      refine .bind (.call trivial) fun sent => ?_
      split
      · exact .bind (.call trivial) fun _ => .call trivial
      · exact .call trivial
    · exact .call trivial
  · split
    · trivial
    · exact .call trivial

theorem still_handleDeviceMessage {conn : DeviceConnection} {f : Frame} : (handleDeviceMessage conn f).All
    (Still (D := DB) (K := Key) (W := Write) (T := Label) (ε := Err) (E := Eff)) := by
  refine .bind (.call trivial) fun _ => .bind (.attempt ?_) fun _ => trivial
  unfold handleFrame
  split
  · refine .bind (.bind (.attempt (.call trivial)) fun r => by split <;> trivial) fun b => ?_
    split
    · exact .call trivial
    · trivial
  · split
    · exact .call trivial
    · exact .call trivial
    · trivial

/-! ## Every call -/

/-- Alone, a call writes all its rows or none, whichever statements of it fail. -/
theorem solo_code {P : Params} {d : DB} {n : UUID → Nat} (hi : DBInv d n) (call : Call) :
    solo P true (Wrote P call d) (call.code P)
    (fun _ d' o' => Wrote P call d d' ∧ o'.locks = false) d (.idle d) := by
  have hdrop : ∀ {α : Type} {p : Op α}, solo P true (Wrote P call d) p
    (fun _ d' o' => Wrote P call d d' ∧ o'.locks = false)
      d (.idle d) → solo P true (Wrote P call d) (drop p) (fun _ d' o' => Wrote P call d d' ∧
          o'.locks = false) d (.idle d) :=
    fun h => alone_bind (alone_mono (fun r _ _ h => by cases r <;> exact h) h)
  have hstill : ∀ {p : Op Unit}, p.All Still →
      solo P true (Wrote P call d) p (fun _ d' o' => Wrote P call d d' ∧ o'.locks = false) d (.idle d) :=
    fun h => alone_mono (fun _ d' o' he => by rw [he.1, he.2]; exact ⟨.inl rfl, rfl⟩) (alone_still h)
  cases call with
  | create r o => exact hdrop solo_createCommand
  | cancel id o => exact hdrop solo_cancelCommand
  | decide id o approve nonce note => exact hdrop (solo_decideApproval hi)
  | activate o reason actor => exact solo_activate
  | release o actor => exact solo_release
  | startPairing info => exact hdrop solo_startPairing
  | confirmPairing id o code => exact hdrop solo_confirmPairing
  | revoke id o => exact hdrop solo_revokeDevice
  | batch => exact hdrop solo_processBatch
  | tasks => exact solo_runTasks
  | consume k id p =>
    have hwrote : ∀ d', Processed true d k p d' → Wrote P (.consume k id p) d d' := by
      rintro d' (⟨-, rfl⟩ | ⟨u, n, rfl⟩)
      · exact .inl rfl
      · exact .inr ⟨_, .inl .consume, rfl⟩
    exact alone_mono (fun _ d' _ h => ⟨hwrote d' h.1, h.2⟩) (solo_consume hwrote)
  | listen conn p => exact hstill still_natsListener
  | frame conn f => exact hstill still_handleDeviceMessage

theorem solo_keeps {P : Params} {J : DB → Prop} {d : DB} {n : UUID → Nat} (hi : DBInv d n) (call : Call) (hJ : J d)
    (hrows : ∀ ws, Rows P d call ws ∨ Refusal P d call ws → J (d.write ws)) :
    solo P true J (call.code P) (fun _ d' o' => J d' ∧ o'.locks = false) d (.idle d) := by
  have hwrote : ∀ d', Wrote P call d d' → J d' := by
    rintro d' (rfl | ⟨ws, hw, rfl⟩)
    · exact hJ
    · exact hrows ws hw
  exact alone_imp hwrote (alone_mono (fun _ d' _ h => ⟨hwrote d' h.1, h.2⟩) (solo_code hi call))

/-- In a serial run one call is running at most. -/
theorem serial_calls {P : Params} {c : Conf} (h : (sys P).Serial Init c) : (sys P).Sequential (fun _ => True) c :=
  serial_sequential (fun _ _ _ => trivial)
    (fun _ call hr _ hJ => solo_keeps (reachable_inv hr).db call hJ fun _ _ => trivial) h

/-- What holds initially, and what the rows of every call keep, holds in every
state of a serial run. -/
theorem serial_store {P : Params} {J : DB → Prop} {c : Conf} (hinit : ∀ d x, Init d x → J d)
    (hrows : ∀ d call ws, J d → Rows P d call ws ∨ Refusal P d call ws → J (d.write ws))
    (h : (sys P).Serial Init c) : J c.world.sh.db :=
  serial_induct (I := J) hinit (fun _ call hr _ hJ => solo_keeps (reachable_inv hr).db call hJ
    fun ws => hrows _ call ws hJ) h

end Veyaan
