import Veyaan.Provenance

/-!
# Transitions, decided and committed

What becomes of the decisions of `transition_command`. The trigger refuses some
of them; some are made on an instance that was loaded before the row was
locked; and a command that has finished is moved again, to the state it is in.
-/

open Relation (ReflTransGen)

namespace Veyaan

open Sys

/-! ## The trigger -/

/-- A message that wants to fail a command has found it in a state from which the
trigger lets no command fail. -/
def Ev.dooming : Ev → Bool
  | .handled k p (some row) => k.target p == .failed && row.state ∈ [.queued, .delivered, .acknowledged]
  | _ => false

section
variable {P : Params} {c c' : Conf} {i : Nat}

theorem Doomed.entry {s : St} {v : Veto} (h : Doomed s i v) : ∃ u, (i, u) ∈ s.trace ∧ u.dooming = true := by
  obtain ⟨k, p, row, hm, -, hst, hk, -, -, hold⟩ := h
  refine ⟨_, hm, ?_⟩
  simp only [Ev.dooming, hk, hst]
  rcases hold with h | h | h <;> rw [h] <;> decide

/-- **The trigger agrees** with `transition_command` in every run in which no
message wants to fail a command too early. -/
theorem trigger_agrees (h : Reachable P c) (hd : ∀ x ∈ c.world.sh.trace, x.2.dooming = false) {v : Veto}
    (hv : (i, Ev.rejected (.trigger v)) ∈ c.world.sh.trace) : v.loaded ≠ v.old := by
  have hinv := reach_induct (P := P) (I := fun s => ∀ i v,
    (i, Ev.rejected (.trigger v)) ∈ s.trace → v.loaded = v.old →
    Doomed s i v) (fun d x _ i v hm => by cases hm) (fun s s' _ hI hs i v hm he => ?_) (reachable_real h)
  · intro he
    obtain ⟨u, hu, hdoom⟩ := (hinv i v hv he).entry
    rw [hd _ hu] at hdoom
    cases hdoom
  · have hmono : Doomed s i v → Doomed s' i v :=
      fun ⟨k, p, row, ht, hr⟩ => ⟨k, p, row, hs.later.trace.subset ht, hr⟩
    rcases hs.entry hm with hm | hm | ⟨_, _, hm, _⟩ | ⟨_, hm, _⟩
    · exact hmono (hI i v hm he)
    · exact hmono (hm he)
    · cases hm
    · cases hm

theorem trigger_agrees_ping : ∃ c cmd, Reachable demo c ∧ c.world.sh.db.commands.find 10 = some cmd ∧
    cmd.state = .acknowledged ∧ ∀ i v, (i, Ev.rejected (.trigger v)) ∈ c.world.sh.trace → v.loaded ≠ v.old := by
  obtain ⟨c, hr, hc⟩ := played (P := demo) (c := demoStart) (t := acknowledgedRun)
    (φ := fun c => c.world.sh.trace.all (fun x => !x.2.dooming) &&
      (c.world.sh.db.commands.find 10).any (·.state == .acknowledged)) (by decide +kernel)
  simp only [Bool.and_eq_true, List.all_eq_true, Bool.not_eq_true', Option.any_eq_true, beq_iff_eq] at hc
  obtain ⟨hd, cmd, hcmd, hst⟩ := hc
  have h : Reachable demo c := Reachable.runs demo_reachable hr
  exact ⟨c, cmd, h, hcmd, hst, fun i v hv => trigger_agrees h hd hv⟩

/-- The device refuses a command that was delivered to it. `transition_command`
lets it fail, the trigger does not. -/
def refusedRun : List (Turn Move) :=
  deliveredRun ++ .other (.frame 0 (.acknowledge 10 false none)) :: steps 4 3 ++ .other (.consume 2) :: steps 5 8

def Ev.vetoed : Ev → Option Veto
  | .rejected (.trigger v) => some v
  | _ => none

theorem refusal_vetoed : ∃ c i v, Reachable demo c ∧ (i, Ev.rejected (.trigger v)) ∈ c.world.sh.trace ∧
    v.loaded = .delivered ∧ v.old = .delivered ∧ v.new = .failed := by
  obtain ⟨c, hr, hc⟩ := played (P := demo) (c := demoStart) (t := refusedRun)
    (φ := fun c => c.world.sh.trace.any fun x => x.2.vetoed.any fun v =>
      v.loaded == .delivered && v.old == .delivered && v.new == .failed) (by decide +kernel)
  obtain ⟨⟨i, u⟩, hm, hu⟩ := List.any_eq_true.mp hc
  obtain ⟨v, hv, hst⟩ := (Option.any_eq_true _ _).mp hu
  simp only [Bool.and_eq_true, beq_iff_eq] at hst
  refine ⟨c, i, v, Reachable.runs demo_reachable hr, ?_, hst.1.1, hst.1.2, hst.2⟩
  cases u with
  | rejected e =>
    cases e with
    | trigger v' => cases hv; exact hm
    | _ => cases hv
  | _ => cases hv

/-! ## Old instances -/

/-- The state events of a chain: each records a decision that was made under
the lock of its command. -/
theorem chain_events {t : Tag} {s : St} {d : DB} {ws : List Write} (h : (sys P).Chain (Write.Allowed i t s) d ws) :
    ∃ es, ((sys P).applyAll ws d).events = d.events ++ es ∧ ∀ e ∈ es, ∃ l : Command, e.commandId = l.id ∧
      e.previousState = some l.state ∧ Locked s i l e.newState e.eventSource := by
  refine h.keeps (I := fun d' => ∃ es, d'.events = d.events ++ es ∧ ∀ e ∈ es, ∃ l : Command, e.commandId = l.id ∧
    e.previousState = some l.state ∧ Locked s i l e.newState e.eventSource)
    (fun d' w hw hI => ?_) ⟨[], by simp, by simp⟩
  obtain ⟨es, hes, hall⟩ := hI
  cases hw with
  | @event l new source m hl =>
    refine ⟨es ++ [⟨l.id, some l.state, new, source, m⟩], by simp [Write.apply, hes], fun e he => ?_⟩
    rcases List.mem_append.mp he with he | he
    · exact hall e he
    · cases List.mem_singleton.mp he
      exact ⟨l, rfl, rfl, hl⟩
  | _ => exact ⟨es, hes, hall⟩

theorem Tx.events_grow {t : Tag} {s : St} {d : DB} (h : Tx P s i t d) : s.db.events <+: d.events := by
  cases h with
  | create h => exact ⟨_, h.events.symm⟩
  | approve _ h =>
    obtain ⟨es, hes, -⟩ := h.events
    exact ⟨es, hes.symm⟩
  | chain h =>
    obtain ⟨es, hes, -⟩ := chain_events h
    exact ⟨es, hes.symm⟩

theorem acts_events {s s' : St} (h : ReflTransGen (Act P) s s') : s.db.events <+: s'.db.events := by
  induction h with
  | refl => exact List.prefix_rfl
  | tail _ h ih =>
    rcases h.store with hd | ⟨j, t, htx, -, -⟩
    · rw [hd]; exact ih
    · exact ih.trans htx.events_grow

/-- `cancel_command`, or a batch of the publisher. -/
def Tag.loadsFirst : Tag → Bool
  | .cancel _ => true
  | .batch => true
  | _ => false

theorem Tx.chained {t : Tag} {s : St} {d : DB} (h : Tx P s i t d) (ht : t.loadsFirst = true) :
    ∃ ws, (sys P).Chain (Write.Allowed i t s) s.db ws ∧ d = (sys P).applyAll ws s.db := by
  cases h with
  | create => cases ht
  | approve => cases ht
  | chain h => exact ⟨_, h, rfl⟩

/-- **Decisions on old instances.** When `cancel_command` or a batch commits,
each event it adds records the state that the row had before, and a step that
is allowed from there, just if the row, when it was locked, was in the state
of the instance that had been loaded. -/
theorem decided_on_row_iff (h : Reachable P c) (hs : (sys P).Step c c') {t : Tag} (ht : t.loadsFirst = true)
    (hc : c'.world.sh.trace = c.world.sh.trace ++ [(i, .committed t)]) :
    ∃ es, c'.world.sh.db.events = c.world.sh.db.events ++ es ∧ ∀ e ∈ es, ∃ loaded row,
      (i, Ev.locked e.commandId e.newState e.eventSource loaded (some row)) ∈ c.world.sh.trace ∧
      c.world.sh.db.commands.find e.commandId = some row ∧
      ((e.previousState = some row.state ∧
          (e.newState ∈ allowedTransitions row.state ∨ e.newState = row.state)) ↔
        loaded.getD row.state = row.state) := by
  rcases acts_one (runs_acts h (.single hs)) hc with hd | ⟨s, t', hv, hdb, hg, hg', htx⟩
  · exact ⟨[], by rw [hd, List.append_nil], by simp⟩
  · cases hv
    have hpre : s.trace <+: c.world.sh.trace ++ [(i, .committed t)] := hc ▸ (acts_later hg').trace
    obtain ⟨ws, hch, hd⟩ := htx.chained ht
    obtain ⟨es, hes, hall⟩ := chain_events hch
    refine ⟨es, by rw [hd, ← hdb]; exact hes, fun e he => ?_⟩
    obtain ⟨l, hid, hprev, loaded, row, hm, hrow, hst, hacc⟩ := hall e he
    rw [hdb, ← hid] at hrow
    rw [← hid] at hm
    refine ⟨loaded, row, ?_, hrow, ?_⟩
    · rcases List.mem_append.mp (hpre.subset hm) with hm | hm
      · exact hm
      · cases List.mem_singleton.mp hm
    · rw [hprev, ← hst]
      refine ⟨fun hp => Option.some.inj hp.1, fun he => ?_⟩
      rw [he] at hacc ⊢
      refine ⟨rfl, ?_⟩
      by_cases hn : row.state = e.newState
      · exact .inr hn.symm
      · exact .inl ((accepts_iff hn).mp hacc)

def cancelRun : List (Turn Move) :=
  .other (.call (.create (ping false) 7)) :: steps 0 26 ++ .other (.call (.cancel 10 7)) :: steps 1 6

def pendingEvents (c : Conf) (i : Nat) : List CommandStateEvent :=
  (c.world.sess i).pend.filterMap fun w => match w with
    | .event e => some e
    | _ => none

theorem view_events (ws : List Write) (d : DB) : ((sys P).applyAll ws d).events = d.events ++ ws.filterMap fun w =>
    match w with
    | .event e => some e
    | _ => none := by
  induction ws generalizing d with
  | nil => simp
  | cons w ws ih =>
    rw [applyAll_cons, ih]
    cases w <;> simp [Write.apply]

theorem decided_on_row_cancel : ∃ c c' es e loaded row, Reachable demo c ∧ (sys demo).Step c c' ∧
    c'.world.sh.db.events = c.world.sh.db.events ++ es ∧ e ∈ es ∧
    c.world.sh.db.commands.find e.commandId = some row ∧
    ((e.previousState = some row.state ∧
        (e.newState ∈ allowedTransitions row.state ∨ e.newState = row.state)) ↔
      Option.getD loaded row.state = row.state) := by
  obtain ⟨c, hr, hc⟩ := played (P := demo) (c := demoStart) (t := cancelRun)
    (φ := fun c => (committing c 1).any Tag.loadsFirst && !(c.world.sess 1).failed && !(pendingEvents c 1).isEmpty)
    (by decide +kernel)
  simp only [Bool.and_eq_true, Option.any_eq_true, Bool.not_eq_true'] at hc
  obtain ⟨⟨⟨t, ht, hl⟩, hf⟩, hne⟩ := hc
  have h : Reachable demo c := Reachable.runs demo_reachable hr
  obtain ⟨c', hs, htr, hdb⟩ := committing_step (P := demo) ht hf
  obtain ⟨es, hes, hall⟩ := decided_on_row_iff h hs hl htr
  have hpend : es = pendingEvents c 1 := by
    rw [hdb, view, view_events] at hes
    exact (List.append_cancel_left hes).symm
  obtain ⟨e, he⟩ := List.exists_mem_of_ne_nil es (by rw [hpend]; intro h0; rw [h0] at hne; cases hne)
  obtain ⟨loaded, row, -, hrow, hiff⟩ := hall e he
  exact ⟨c, c', es, e, loaded, row, h, hs, hes, he, hrow, hiff⟩

/-- The cancellation loads the command while it is queued; the message that it was
delivered is handled before the cancellation goes on. -/
def staleRun : List (Turn Move) :=
  publishedRun ++ .other (.listen 0 0) :: steps 2 9 ++ .other (.call (.cancel 10 7)) :: steps 3 1 ++
    .other (.consume 1) :: steps 4 12 ++ steps 3 5

def cancels (commandId : UUID) : Tag → Bool
  | .cancel id => id == commandId
  | _ => false

def staleEvent (c : Conf) : List CommandStateEvent → Bool
  | [e] => e.previousState == some .queued && e.newState == .cancelled &&
      (c.world.sh.db.commands.find e.commandId).any (·.state == .delivered)
  | _ => false

theorem cancel_decided_on_old_instance : ∃ c c' e row, Reachable demo c ∧ (sys demo).Step c c' ∧
    c'.world.sh.trace = c.world.sh.trace ++ [(3, .committed (.cancel 10))] ∧
    c'.world.sh.db.events = c.world.sh.db.events ++ [e] ∧ c.world.sh.db.commands.find e.commandId = some row ∧
    row.state = .delivered ∧ e.previousState = some .queued ∧ e.newState = .cancelled := by
  obtain ⟨c, hr, hc⟩ := played (P := demo) (c := demoStart) (t := staleRun)
    (φ := fun c => (committing c 3).any (cancels 10) && !(c.world.sess 3).failed &&
      staleEvent c (pendingEvents c 3))
    (by decide +kernel)
  simp only [Bool.and_eq_true, Option.any_eq_true, Bool.not_eq_true'] at hc
  obtain ⟨⟨⟨t, ht, hl⟩, hf⟩, he⟩ := hc
  unfold staleEvent at he
  split at he
  · rename_i e hpe
    simp only [Bool.and_eq_true, beq_iff_eq, Option.any_eq_true] at he
    obtain ⟨⟨hprev, hnew⟩, row, hrow, hst⟩ := he
    obtain ⟨c', hs, htr, hdb⟩ := committing_step (P := demo) ht hf
    cases t with
    | cancel id =>
      rw [beq_iff_eq.mp hl] at htr
      refine ⟨c, c', e, row, Reachable.runs demo_reachable hr, hs, htr, ?_, hrow, hst, hprev, hnew⟩
      rw [hdb, view, view_events, ← hpe]
      rfl
    | _ => cases hl
  · cases he

/-! ## Finished commands -/

/-- A row that was found finished is moved on the strength of an instance in
another state. -/
def Ev.outdated : Ev → Bool
  | .locked _ _ _ (some l) (some row) => row.state ∈ terminalStates && l != row.state
  | _ => false

/-- The row of the command, found finished, is moved to the state that it is in. -/
def Ev.repeats (id : UUID) : Ev → Bool
  | .locked id' new _ _ (some row) => id' == id && row.state ∈ terminalStates && new == row.state
  | _ => false

abbrev Repeated (s : CommandState) : Command → Command → Prop :=
  ReflTransGen fun c c' => ∃ u n m, c' = c.transition s u n m

theorem Repeated.state {s : CommandState} {x y : Command} (h : Repeated s x y)
    (hx : x.state = s) : y.state = s := by
  cases h with
  | refl => exact hx
  | tail _ h =>
    obtain ⟨u, n, m, rfl⟩ := h
    exact Command.transition_state ..

def Kept (h : List CommandStateEvent) (l : List Ev) (id : UUID) (x : Command) (d : DB) : Prop :=
  ∃ y es, d.commands.find id = some y ∧ Repeated x.state x y ∧ d.history id = h ++ es ∧
    (∀ e ∈ es, e.previousState = some x.state ∧ e.newState = x.state) ∧
    ((∀ v ∈ l, v.repeats id = false) → y = x ∧ es = [])

/-- Under the lock of a finished row a transition is only decided to the state
of that row. -/
theorem Locked.repeats {s : St} {l x : Command} {new : CommandState} {source : Source} (h : Locked s i l new source)
    (hf : s.db.commands.find l.id = some x) (hx : x.state ∈ terminalStates)
    (hold : ∀ v ∈ s.trace, v.2.outdated = false) :
    l.state = x.state ∧ new = x.state ∧ ∃ v ∈ own i s.trace, v.repeats l.id = true := by
  obtain ⟨loaded, row, hm, hrow, hst, hacc⟩ := h
  rw [hf] at hrow
  cases hrow
  have hl : l.state = x.state := by
    rw [hst]
    cases loaded with
    | none => rfl
    | some y =>
      have := hold _ hm
      simp only [Ev.outdated, hx, decide_true, Bool.true_and, bne_eq_false_iff_eq] at this
      exact this
  rw [hl] at hacc
  have hnew := accepts_terminal hx hacc
  exact ⟨hl, hnew, _, mem_own.mpr hm, by simp [Ev.repeats, hx, hnew]⟩

theorem Write.Allowed.kept {t : Tag} {s : St} {d : DB} {w : Write} {id : UUID} {x : Command} (h : w.Allowed i t s d)
    (hf : s.db.commands.find id = some x) (hx : x.state ∈ terminalStates)
    (hold : ∀ v ∈ s.trace, v.2.outdated = false) {h₀ : List CommandStateEvent}
    (hk : Kept h₀ (own i s.trace) id x d) : Kept h₀ (own i s.trace) id x (w.apply d) := by
  obtain ⟨y, es, hy, hrep, hes, hall, hnone⟩ := hk
  cases h with
  | @command l z new u n m source hz hl _ hm =>
    have hid := (Tag.Moves.flushed (u := u) (n := n) (m := m) hz hm).1
    by_cases hli : l.id = id
    · subst hli
      rw [hy] at hz
      cases hz
      obtain ⟨hls, hnew, v, hv, hvr⟩ := hl.repeats hf hx hold
      have hys : y.state = x.state := hrep.state rfl
      have hflush : l.flushed new u n m y = y.transition x.state u n m := by
        rw [← Command.flushed_self]
        simp [Command.flushed, hls, hnew, hys]
      refine ⟨_, es, ?_, hrep.tail ⟨u, n, m, hflush⟩, hes, hall, fun hno => ?_⟩
      · simp [Write.apply, Table.find_put, hid]
      · rw [hno v hv] at hvr; cases hvr
    · exact ⟨y, es, by simp [Write.apply, Table.find_put, hid, hli, hy], hrep, hes, hall, hnone⟩
  | @event l new source m hl _ _ =>
    by_cases hli : l.id = id
    · subst hli
      obtain ⟨hls, hnew, v, hv, hvr⟩ := hl.repeats hf hx hold
      refine ⟨y, es ++ [⟨l.id, some l.state, new, source, m⟩], hy, hrep, ?_, fun e he => ?_, fun hno => ?_⟩
      · have := hes
        simp only [DB.history] at this ⊢
        simp [Write.apply, this]
      · rcases List.mem_append.mp he with he | he
        · exact hall e he
        · cases List.mem_singleton.mp he
          exact ⟨by rw [hls], hnew⟩
      · rw [hno v hv] at hvr; cases hvr
    · refine ⟨y, es, hy, hrep, ?_, hall, hnone⟩
      rw [← hes]
      simp [DB.history, Write.apply, hli]
  | _ => exact ⟨y, es, hy, hrep, hes, hall, hnone⟩

theorem Tx.kept {t : Tag} {s : St} {d : DB} {id : UUID} {x : Command} (h : Tx P s i t d)
    (hf : s.db.commands.find id = some x) (hx : x.state ∈ terminalStates)
    (hold : ∀ v ∈ s.trace, v.2.outdated = false) : Kept (s.db.history id) (own i s.trace) id x d := by
  -- the new events are those of another command
  have hother : ∀ {y : UUID}, y ≠ id → (∃ es, d.events = s.db.events ++ es ∧ ∀ e ∈ es, e.commandId = y ∧
      e.eventMetadata = none) → d.history id = s.db.history id := by
    rintro y hy ⟨es, hes, hall⟩
    have : es.filter (·.commandId == id) = [] := List.filter_eq_nil_iff.mpr fun e he => by
      simpa [(hall e he).1] using hy
    simp [DB.history, hes, this]
  cases h with
  | @create _ q c r o h =>
    have hid : c.id ≠ id := by rintro rfl; rw [h.new] at hf; cases hf
    exact ⟨x, [], by rw [h.commands, Table.find_put_ne _ hid]; exact hf, .refl,
      by rw [List.append_nil]; exact hother hid ⟨_, h.events, createdEvents_own⟩, by simp, fun _ => ⟨rfl, rfl⟩⟩
  | @approve z _ c c' e a a' _ h =>
    have hcid : c.id = z.read.commandId := by simpa using Table.key_of_find h.find
    have hid : c.id ≠ id := by
      rintro rfl
      rw [hcid, h.find] at hf
      cases hf
      rw [h.awaiting] at hx
      exact absurd hx (by decide)
    exact ⟨x, [], by
      rw [h.commands, Table.find_put_ne _ (by rw [key_command, h.same.id]; exact hid)]; exact hf, .refl,
      by rw [List.append_nil]; exact hother hid h.events, by simp, fun _ => ⟨rfl, rfl⟩⟩
  | chain h =>
    exact h.keeps (fun d w hw hk => hw.kept hf hx hold hk) ⟨x, [], hf, .refl, by simp, by simp, fun _ => ⟨rfl, rfl⟩⟩

/-- **A finished command** stays in its state. Its row and its history change
only by transitions to that state; while no call that is in flight, or comes later,
makes such a transition, they stay as they are. -/
theorem finished_frozen (h : Reachable P c) (hr : Runs P c c') {id : UUID} {x : Command}
    (hf : c.world.sh.db.commands.find id = some x) (hx : x.state ∈ terminalStates)
    (hold : ∀ v ∈ c'.world.sh.trace, v.2.outdated = false) :
    ∃ y es, c'.world.sh.db.commands.find id = some y ∧ y.state = x.state ∧ Repeated x.state x y ∧
      c'.world.sh.db.history id = c.world.sh.db.history id ++ es ∧
      (∀ e ∈ es, e.previousState = some x.state ∧ e.newState = x.state) ∧
      ((∀ i v, (i, v) ∈ c'.world.sh.trace → v.repeats id = true →
        ∃ p, c.procs[i]? = some p ∧ p.prog.ended = true) → y = x ∧ es = []) := by
  induction hr with
  | refl => exact ⟨x, [], hf, rfl, .refl, by simp, by simp, fun _ => ⟨rfl, rfl⟩⟩
  | @tail b c' hb hs ih =>
    have hreach := Reachable.runs h hb
    have hpre := (runs_later hreach (.single hs)).trace.subset
    obtain ⟨y, es, hy, hys, hrep, hes, hall, hnone⟩ := ih fun v hv => hold v (hpre hv)
    by_cases hd : c'.world.sh.db = b.world.sh.db
    · exact ⟨y, es, hd ▸ hy, hys, hrep, hd ▸ hes, hall, fun hno => hnone fun i v hv => hno i v (hpre hv)⟩
    -- a process commits that has not ended in `c`
    obtain ⟨i, call, β, q, k, _, s₁, t, hp, -, -, -, hdb, -, hg, htx⟩ := step_commit hreach hs hd
    have hsub := (acts_later hg).trace.subset
    obtain ⟨z, es', hz, hrep', hes', hall', hnone'⟩ := htx.kept (hdb ▸ hy) (hys ▸ hx) fun v hv => hold v (hsub hv)
    rw [hys] at hrep' hall'
    rw [hdb] at hes'
    refine ⟨z, es ++ es', hz, hrep'.state hys, hrep.trans hrep',
      by rw [hes', hes, List.append_assoc], fun e he => ?_, fun hno => ?_⟩
    · exact (List.mem_append.mp he).elim (hall e) (hall' e)
    · obtain ⟨rfl, rfl⟩ := hnone fun i v hv => hno i v (hpre hv)
      obtain ⟨rfl, rfl⟩ := hnone' fun v hv => by
        by_contra hyes
        obtain ⟨p, hpc, hend⟩ := hno i v (hsub (mem_own.mp hv)) (by simpa using hyes)
        cases hp.symm.trans (runs_ended hb hpc hend)
        cases hend
      exact ⟨rfl, rfl⟩

theorem finished_frozen_cancelled : ∃ c c' x y es, Reachable demo c ∧ Runs demo c c' ∧
    c.world.sh.db.commands.find 10 = some x ∧ x.state = .cancelled ∧ c'.world.sh.db.commands.find 10 = some y ∧
    y.state = .cancelled ∧ Repeated .cancelled x y ∧
    c'.world.sh.db.history 10 = c.world.sh.db.history 10 ++ es ∧
    ∀ e ∈ es, e.previousState = some .cancelled ∧ e.newState = .cancelled := by
  obtain ⟨c, hr, hc⟩ := played (P := demo) (c := demoStart) (t := cancelledRun)
    (φ := fun c => (c.world.sh.db.commands.find 10).any (·.state == .cancelled) &&
      (play (moves demo) recancelRun c).any fun c' => c'.world.sh.trace.all fun v =>
      !v.2.outdated) (by decide +kernel)
  simp only [Bool.and_eq_true, Option.any_eq_true, beq_iff_eq, List.all_eq_true, Bool.not_eq_true'] at hc
  obtain ⟨⟨x, hx, hst⟩, c', hplay, hold⟩ := hc
  have h : Reachable demo c := Reachable.runs demo_reachable hr
  have hr' : Runs demo c c' := play_runs _ hplay
  obtain ⟨y, es, hy, hys, hrep, hes, hall, -⟩ := finished_frozen h hr' hx (by rw [hst]; decide) hold
  rw [hst] at hys hrep hall
  exact ⟨c, c', x, y, es, h, hr', hx, hst, hy, hys, hrep, hes, hall⟩

/-- The second cancellation sets a new `finished_at`, and adds an event. -/
theorem cancelled_again : ∃ c c' x y, Reachable demo c ∧ Runs demo c c' ∧
    c.world.sh.db.commands.find 10 = some x ∧ x.state = .cancelled ∧ x.finishedAt = some 0 ∧
    c'.world.sh.db.commands.find 10 = some y ∧ y.finishedAt = some 5 ∧
    (c.world.sh.db.history 10).length < (c'.world.sh.db.history 10).length := by
  obtain ⟨c, hr, hc⟩ := played (P := demo) (c := demoStart) (t := cancelledRun)
    (φ := fun c => (c.world.sh.db.commands.find 10).any
      (fun x => x.state == .cancelled && x.finishedAt == some 0) &&
      (play (moves demo) recancelRun c).any fun c' =>
        (c'.world.sh.db.commands.find 10).any (·.finishedAt == some 5) &&
          decide ((c.world.sh.db.history 10).length < (c'.world.sh.db.history 10).length)) (by decide +kernel)
  simp only [Bool.and_eq_true, Option.any_eq_true, beq_iff_eq, decide_eq_true_eq] at hc
  obtain ⟨⟨x, hx, hst, hfin⟩, c', hplay, ⟨y, hy, hfin'⟩, hlen⟩ := hc
  exact ⟨c, c', x, y, Reachable.runs demo_reachable hr, play_runs _ hplay, hx, hst, hfin, hy, hfin', hlen⟩

end

end Veyaan
