import Veyaan.Schedule
import Veyaan.Serial.Steps

/-!
# `finished_at` and the task

`transition_command` sets `finished_at` for some of the terminal states, and its
callers update the task for some of them. In a serial run the three columns of a
command and its task agree, except after a cancellation, a rejection or an
emergency stop.
-/

namespace Veyaan

open Sys

def finishedTasks : List TaskState := [.succeeded, .failed, .timedOut, .cancelled]

structure Command.Keeps (c : Command) (t : Task) : Prop where
  finished : c.finishedAt ≠ none ↔ c.state ∈ [.succeeded, .failed, .timedOut, .cancelled, .expired]
  task : t.state ∈ finishedTasks ↔ c.state ∈ [.succeeded, .failed, .timedOut, .expired]
  succeeded : t.state = .succeeded ↔ c.state = .succeeded

def Booked (d : DB) : Prop := ∀ id c, d.commands.find id = some c → ∃ t, d.tasks.find id = some t ∧ c.Keeps t

theorem finishedAt_transition (c : Command) (new : CommandState) (u n : Time) (m : Option Metadata) :
    (c.transition new u n m).finishedAt =
      if new ∈ [.succeeded, .failed, .timedOut, .cancelled, .expired] then some n else c.finishedAt := by
  cases new <;> rfl

theorem tasked_keeps {s new : CommandState} {t : TaskState} (ha : accepts s new = true)
    (htask : t ∈ finishedTasks ↔ s ∈ [.succeeded, .failed, .timedOut, .expired])
    (hsucc : t = .succeeded ↔ s = .succeeded) :
    (new.tasked t ∈ finishedTasks ↔ new ∈ [.succeeded, .failed, .timedOut, .expired]) ∧
      (new.tasked t = .succeeded ↔ new = .succeeded) := by
  by_cases hs : s = new
  · subst hs
    cases s <;> simp_all [CommandState.tasked, finishedTasks]
    rcases htask with rfl | rfl | rfl <;> simp
  · have hopen : s ∉ terminalStates := fun h => hs (accepts_terminal h ha).symm
    have ht : t ∉ finishedTasks := fun h => hopen (by revert h; rw [htask]; simp [terminalStates]; tauto)
    cases new <;> simp_all [CommandState.tasked, finishedTasks]

theorem Command.Keeps.move {c : Command} {t t' : Task} {new : CommandState} (h : c.Keeps t)
    (ha : accepts c.state new = true)
    (ht : t'.state = new.tasked t.state) (u n : Time) (m : Option Metadata) :
    (c.transition new u n m).Keeps t' := by
  obtain ⟨htask, hsucc⟩ := tasked_keeps ha h.task h.succeeded
  refine ⟨?_, by rw [ht, Command.transition_state]; exact htask, by rw [ht, Command.transition_state]; exact hsucc⟩
  rw [finishedAt_transition, Command.transition_state]
  by_cases hn : new ∈ [CommandState.succeeded, .failed, .timedOut, .cancelled, .expired]
  · simp [hn]
  · rw [if_neg hn, h.finished]
    refine ⟨fun hc => ?_, fun h => absurd h hn⟩
    have hterm : c.state ∈ terminalStates := by revert hc; simp [terminalStates]; tauto
    rw [accepts_terminal hterm ha]
    exact hc

section
variable {v : DB}

theorem booked_insert {c : Command} {taskId : UUID} (h : Booked v) (hs : c.state = .received)
    (hf : c.finishedAt = none) :
    Booked (v.write (insertRows c taskId)) := by
  intro id x hx
  have hfind : (v.write (insertRows c taskId)).commands.find id =
      if c.id = id then some c else v.commands.find id :=
    Table.find_put ..
  have htask : (v.write (insertRows c taskId)).tasks.find id =
      if c.id = id then some ⟨taskId, c.id, .pending, none, none, none⟩ else v.tasks.find id := Table.find_put ..
  rw [hfind] at hx
  rw [htask]
  by_cases hid : c.id = id
  · rw [if_pos hid] at hx ⊢
    cases hx
    exact ⟨_, rfl, by simp [hs, hf], by simp [hs, finishedTasks], by simp [hs]⟩
  · rw [if_neg hid] at hx ⊢
    exact h id x hx

theorem find_task {ts : List Write} {id id' : UUID}
    (ht : ∀ w ∈ ts, ∃ t : Task, w = .task t ∧ t.commandId = id) (hne : id' ≠ id) :
    (v.write ts).tasks.find id' = v.tasks.find id' := by
  induction ts generalizing v with
  | nil => rfl
  | cons w ts ih =>
    obtain ⟨t, rfl, hid⟩ := ht w (List.mem_cons_self ..)
    rw [DB.write_cons, ih fun x hx => ht x (List.mem_cons_of_mem _ hx)]
    exact Table.find_put_ne _ (by rw [key_task, hid]; exact Ne.symm hne)

theorem booked_move {id : UUID} {c : Command} {new : CommandState} {source : Source}
    {m : Option Metadata} {u n : Time}
    {ts : List Write} (h : Booked v) (hc : v.commands.find id = some c) (ha : accepts c.state new = true)
    (ht : TaskRows (v.write (moveRows c new source m u n)) id new ts) :
    Booked (v.write (moveRows c new source m u n ++ ts)) := by
  have hid : c.id = id := by simpa using Table.key_of_find hc
  subst hid
  intro id x hx
  rw [DB.write_append] at hx ⊢
  rw [DB.write_commands _ fun w hw c => by obtain ⟨t, rfl, -⟩ := ht.tasks w hw; simp] at hx
  by_cases hid : c.id = id
  · subst hid
    rw [find_moveRows] at hx
    cases hx
    obtain ⟨t, htask, hkeeps⟩ := h c.id c hc
    obtain ⟨t', htask', hst⟩ := ht.state t htask
    exact ⟨t', htask', hkeeps.move ha hst u n m⟩
  · have : (v.write (moveRows c new source m u n)).commands.find id = v.commands.find id :=
      Table.find_put_ne _ (by rw [key_command, (c.transition_same ..).id]; exact hid)
    rw [this] at hx
    rw [find_task ht.tasks (Ne.symm hid)]
    exact h id x hx

end

variable {P : Params} {c : Conf}

theorem serial_booked (h : (sys P).Serial Init c) : Booked c.world.sh.db := by
  refine serial_steps (J := Booked) (fun d x hi => ?_) (fun v c t hJ _ hs hf => booked_insert hJ hs hf)
    (fun v id c new source m u n ts hJ hc ha ht => booked_move hJ hc ha ht) (fun v w hJ hw => ?_) h
  · intro id c hc
    rw [hi.commands] at hc
    cases hc
  · cases w <;> first | exact hJ | cases hw

/-! ## Which commands escape the bookkeeping -/

/-- `transition_command` has locked a row that it may move to a state for which the
books are not kept. -/
def Ev.unkept : Ev → Bool
  | .locked _ new _ loaded (some row) =>
    new ∈ [.cancelled, .rejected, .blockedByEmergencyStop] && accepts (loaded.getD row.state) new
  | _ => false

theorem Write.Allowed.unkept {i : Nat} {t : Tag} {s : St} {d : DB} {w : Write} (h : w.Allowed i t s d)
    (hd : ∀ id x, d.commands.find id = some x → x.state ∈ [.cancelled, .rejected, .blockedByEmergencyStop] →
      ∃ v ∈ s.trace, v.2.unkept = true) {id : UUID} {x : Command} (hx : (w.apply d).commands.find id = some x)
    (hst : x.state ∈ [.cancelled, .rejected, .blockedByEmergencyStop]) : ∃ v ∈ s.trace, v.2.unkept = true := by
  cases h with
  | @command l row new u n m source hf hl _ _ =>
    rcases Table.mem_put.mp (Table.mem_of_find hx) with rfl | ⟨-, hm⟩
    · by_cases hn : l.state = new
      · refine hd l.id row hf ?_
        simpa [Command.flushed, hn] using hst
      · obtain ⟨loaded, r, hm, -, hls, hacc⟩ := hl
        refine ⟨_, hm, ?_⟩
        have hnew : new ∈ [CommandState.cancelled, .rejected, .blockedByEmergencyStop] := by
          simpa [Command.flushed, hn] using hst
        simp only [Ev.unkept, Bool.and_eq_true, decide_eq_true_eq]
        exact ⟨hnew, by rw [← hls]; exact hacc⟩
    · exact hd _ x (Table.find_of_mem hm) hst
  | _ => exact hd id x hx hst

theorem reachable_unkept (h : Reachable P c) {id : UUID} {x : Command}
    (hx : c.world.sh.db.commands.find id = some x)
    (hst : x.state ∈ [.cancelled, .rejected, .blockedByEmergencyStop]) :
    ∃ v ∈ c.world.sh.trace, v.2.unkept = true := by
  refine reach_induct (P := P) (I := fun s => ∀ id x, s.db.commands.find id = some x →
    x.state ∈ [.cancelled, .rejected, .blockedByEmergencyStop] → ∃ v ∈ s.trace, v.2.unkept = true)
    (fun d x hi id x hx => ?_) (fun s s' _ hI hs => ?_) (reachable_real h) id x hx hst
  · rw [hi.commands] at hx
    cases hx
  · have htrace : (∃ v ∈ s.trace, v.2.unkept = true) → ∃ v ∈ s'.trace, v.2.unkept = true :=
      fun ⟨v, hv, hk⟩ => ⟨v, hs.later.trace.subset hv, hk⟩
    have hnew : ∀ {a : Command}, s'.db.commands = s.db.commands.put a →
      a.state = .awaitingApproval ∨ a.state = .queued →
        ∀ id x, s'.db.commands.find id = some x → x.state ∈ [.cancelled, .rejected, .blockedByEmergencyStop] →
        ∃ v ∈ s'.trace, v.2.unkept = true := fun {a} hput hq id x hx hst => by
      rw [hput, Table.find_put] at hx
      split at hx
      · cases hx
        rcases hq with hq | hq <;> rw [hq] at hst <;> simp at hst
      · exact htrace (hI id x hx hst)
    rcases hs.store with hd | ⟨i, t, htx, -, -⟩
    · rw [hd]; exact fun id x hx hst => htrace (hI id x hx hst)
    · generalize s'.db = d at htx hnew ⊢
      cases htx with
      | create hcr => exact hnew hcr.commands (hcr.form.imp (fun h => h.2.1) fun h => h.2.1)
      | approve _ happ => exact hnew happ.commands (.inr happ.queued)
      | chain hch =>
        have := hch.keeps (I := fun d => ∀ id x, d.commands.find id = some x →
          x.state ∈ [.cancelled, .rejected, .blockedByEmergencyStop] → ∃ v ∈ s.trace, v.2.unkept = true)
          (fun d w hw hd id x hx hst => hw.unkept hd hx hst) hI
        exact fun id x hx hst => htrace (this id x hx hst)

/-- **Terminal bookkeeping.** -/
theorem books_kept (h : (sys P).Serial Init c) (hk : ∀ v ∈ c.world.sh.trace, v.2.unkept = false)
    {id : UUID} {cmd : Command}
    (hc : c.world.sh.db.commands.find id = some cmd) : ∃ t, c.world.sh.db.tasks.find id = some t ∧
      (cmd.state ∈ terminalStates ↔ cmd.finishedAt ≠ none) ∧
      (cmd.state ∈ terminalStates ↔ t.state ∈ finishedTasks) ∧
      (t.state = .succeeded → cmd.state = .succeeded) := by
  obtain ⟨t, ht, hkeeps⟩ := serial_booked h id cmd hc
  have hnot : cmd.state ∉ [CommandState.cancelled, .rejected, .blockedByEmergencyStop] := fun hst => by
    obtain ⟨v, hv, hun⟩ := reachable_unkept h.reachable hc hst
    rw [hk v hv] at hun
    cases hun
  refine ⟨t, ht, ?_, ?_, hkeeps.succeeded.mp⟩
  · rw [hkeeps.finished]
    revert hnot
    cases cmd.state <;> simp [terminalStates]
  · rw [hkeeps.task]
    revert hnot
    cases cmd.state <;> simp [terminalStates]

theorem books_kept_succeeded : ∃ c cmd t, (sys demo).Serial Init c ∧ c.world.sh.db.commands.find 10 = some cmd ∧
    cmd.state = .succeeded ∧ cmd.finishedAt ≠ none ∧ c.world.sh.db.tasks.find 10 = some t ∧
    t.state ∈ finishedTasks := by
  obtain ⟨c, hr, hc⟩ := played_serially (P := demo) (t := succeededRun) (φ := fun c =>
    (c.world.sh.db.commands.find 10).any (·.state == .succeeded) && c.world.sh.trace.all (!·.2.unkept)) demo_initial
    (by decide +kernel)
  simp only [Bool.and_eq_true, Option.any_eq_true, beq_iff_eq, List.all_eq_true, Bool.not_eq_true'] at hc
  obtain ⟨⟨cmd, hcmd, hst⟩, hk⟩ := hc
  obtain ⟨t, ht, hfin, htask, -⟩ := books_kept hr hk hcmd
  have hterm : cmd.state ∈ terminalStates := by rw [hst]; decide
  exact ⟨c, cmd, t, hr, hcmd, hst, hfin.mp hterm, ht, htask.mp hterm⟩

/-- A cancelled command leaves its task behind. -/
theorem cancelled_task_pending : ∃ c cmd t, (sys demo).Serial Init c ∧ c.world.sh.db.commands.find 10 = some cmd ∧
    c.world.sh.db.tasks.find 10 = some t ∧ ¬ (cmd.state ∈ terminalStates ↔ t.state ∈ finishedTasks) := by
  obtain ⟨c, hr, hc⟩ := played_serially (P := demo) (t := cancelledRun) (φ := fun c =>
    (c.world.sh.db.commands.find 10).any (·.state == .cancelled) &&
      (c.world.sh.db.tasks.find 10).any (·.state == .pending))
    demo_initial (by decide +kernel)
  simp only [Bool.and_eq_true, Option.any_eq_true, beq_iff_eq] at hc
  obtain ⟨⟨cmd, hcmd, hst⟩, t, ht, hpend⟩ := hc
  refine ⟨c, cmd, t, hr, hcmd, ht, ?_⟩
  rw [hst, hpend]
  decide

end Veyaan
