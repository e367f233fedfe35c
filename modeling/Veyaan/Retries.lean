import Veyaan.Decisions

/-!
# A queued command has an event

The outbox is there so that no command is lost: a command is queued in the
transaction that writes its event, and the publisher gives an event up when the
command has moved on. It also gives an event up when the fourth attempt to
publish it has failed, and then the command stays queued with nothing to deliver
it.
-/

open Relation (ReflTransGen)

namespace Veyaan

open Sys

def OutboxEvent.Live (e : OutboxEvent) : Prop := e.status = .pending ∨ e.status = .published

/-- Every queued command has a `command.queued` event that is pending or published. -/
def DB.Announced (d : DB) : Prop :=
  ∀ id c, d.commands.find id = some c → c.state = .queued →
    ∃ e, d.outbox.find e.id = some e ∧ e.isQueued = true ∧ e.aggregateId = id ∧ e.Live

/-- The last attempt to publish the event of a command failed: `publish_js` raised,
or the query of `is_active` did, or one of its calls to Valkey. -/
def givesUp : Nat × Ev → Bool
  | (_, .publishFailed _ (some e)) => e.isQueued && 3 ≤ e.attemptCount
  | (_, .stopRead (.publish e) _ none) => e.isQueued && 3 ≤ e.attemptCount
  | (_, .cacheFailed (some (.publish e)) _) => e.isQueued && 3 ≤ e.attemptCount
  | _ => false

section
variable {P : Params} {s : St} {i : Nat} {t : Tag} {d : DB}

theorem Exhausted.givesUp {l : List (Nat × Ev)} {k : UUID} (h : Exhausted l i k) : ∃ x ∈ l, givesUp x = true := by
  obtain ⟨e, -, hq, hn, hm | ⟨o, hm | hm⟩⟩ := h
  · exact ⟨_, hm, by simp [Veyaan.givesUp, hq, hn]⟩
  · exact ⟨_, hm, by simp [Veyaan.givesUp, hq, hn]⟩
  · exact ⟨_, hm, by simp [Veyaan.givesUp, hq, hn]⟩

theorem find_put_new {o : Table OutboxEvent} {e x : OutboxEvent} (hn : o.find x.id = none)
    (he : o.find e.id = some e) :
    (o.put x).find e.id = some e := by
  refine (Table.find_put_ne _ ?_).trans he
  intro hk
  rw [key_outbox] at hk
  rw [← hk, hn] at he
  cases he

/-- One write of a chain: a command is not queued by it, and an event is given up
only when its command has moved on. -/
theorem Write.Allowed.announced {w : Write} (hw : w.Allowed i t s d) (hx : ∀ k, ¬ Exhausted s.trace i k)
    (hd : d.Announced) : (w.apply d).Announced := by
  intro id c hc hst
  obtain ⟨c₀, hc₀, -, hm⟩ := hw.command_find hc
  have hq : c₀.state = .queued := by
    rcases hm with hm | hm
    · rw [← hm]; exact hst
    · exact absurd hst hm.1.ne.2.2.2.2
  obtain ⟨x, hx', hxq, hxa, hlive⟩ := hd id c₀ hc₀ hq
  cases hw with
  | @notice y hn => exact ⟨x, find_put_new hn hx', hxq, hxa, hlive⟩
  | @outbox e e' hf hs hst _ =>
    by_cases hk : e'.id = x.id
    swap
    · exact ⟨x, (Table.find_put_ne _ hk).trans hx', hxq, hxa, hlive⟩
    rw [hk, hx'] at hf
    cases hf
    have hq' : e'.isQueued = true := by
      rw [OutboxEvent.isQueued, hs.aggregateType, hs.eventType]
      exact hxq
    refine ⟨e', Table.find_put_self .., hq', hs.aggregateId.trans hxa, ?_⟩
    rcases hst with hst | hst | ⟨-, hfail⟩
    · exact .inl hst
    · exact .inr hst
    · rcases hfail hq' with ⟨c', hc', -, hne⟩ | hex
      · rw [hs.aggregateId, hxa, hc₀] at hc'
        cases hc'
        exact absurd hq hne
      · exact absurd hex (hx _)
  | _ => exact ⟨x, hx', hxq, hxa, hlive⟩

theorem Tx.announced (h : Tx P s i t d) (hx : ∀ k, ¬ Exhausted s.trace i k)
    (hd : s.db.Announced) : d.Announced := by
  cases h with
  | @create _ q c r o h =>
    intro id x hx hst
    rw [h.commands, Table.find_put] at hx
    split at hx
    · rename_i hid
      cases hx
      rcases h.form with ⟨-, ha, -⟩ | ⟨-, -, -, e, -, hq, hagg, hpend, -, hout⟩
      · rw [ha] at hst; cases hst
      · exact ⟨e, by rw [hout]; exact Table.find_put_self .., hq, hagg.trans hid, .inl hpend⟩
    · obtain ⟨e, he, hq⟩ := hd id x hx hst
      rcases h.form with ⟨-, -, hout, -⟩ | ⟨-, -, -, y, hn, -, -, -, -, hout⟩
      · exact ⟨e, by rw [hout]; exact he, hq⟩
      · exact ⟨e, by rw [hout]; exact find_put_new hn he, hq⟩
  | @approve x _ c c' e a a' _ h =>
    intro id y hy hst
    rw [h.commands, Table.find_put] at hy
    split at hy
    · rename_i hid
      cases hy
      refine ⟨e, by rw [h.outbox]; exact Table.find_put_self .., h.isQueued, ?_, .inl h.status⟩
      rw [h.aggregateId, ← h.same.id]
      exact hid
    · obtain ⟨e', he', hq⟩ := hd id y hy hst
      exact ⟨e', by rw [h.outbox]; exact find_put_new h.new he', hq⟩
  | chain h => exact h.keeps (I := DB.Announced) (fun d w hw hI => hw.announced hx hI) hd

end

/-- A step in which no last attempt to publish a command fails. -/
structure Lasting (P : Params) (c c' : Conf) : Prop where
  step : (sys P).Step c c'
  spared : ∀ x, c'.world.sh.trace = c.world.sh.trace ++ [x] → givesUp x = false

section
variable {P : Params} {c c' : Conf}

theorem Lasting.runs {c₀ : Conf} (h₀ : Initial Init c₀) (h : ReflTransGen (Lasting P) c₀ c) :
    Reachable P c ∧ (∀ x ∈ c.world.sh.trace, givesUp x = false) ∧ c.world.sh.db.Announced := by
  induction h with
  | refl =>
    refine ⟨.init h₀, by simp [h₀.trace], fun id c hc => ?_⟩
    rw [h₀.init.commands] at hc
    cases hc
  | @tail b c _ hs ih =>
    obtain ⟨hr, hnone, hann⟩ := ih
    have hnew : ∀ x ∈ c.world.sh.trace, givesUp x = false := by
      rcases step_entry handle_one hs.step with ht | ⟨j, v, ht, -⟩
      · rw [ht]
        exact hnone
      · intro x hx
        rw [ht] at hx
        rcases List.mem_append.mp hx with hx | hx
        · exact hnone x hx
        · rw [List.mem_singleton.mp hx]
          exact hs.spared _ ht
    refine ⟨.step hr hs.step, hnew, ?_⟩
    rcases step_tx hr hs.step with hd | ⟨i, t, _, ht, -⟩
    · rw [hd]
      exact hann
    obtain ⟨s₁, htr, hd, -, htx⟩ := step_commits hr hs.step ht
    refine htx.announced (fun k hex => ?_) (hd ▸ hann)
    obtain ⟨x, hx, hgive⟩ := hex.givesUp
    rw [hnone x (htr ▸ hx)] at hgive
    cases hgive

/-- **No command is lost** in a run in which no fourth attempt to publish a
`command.queued` event fails: every queued command has such an event, and it is
pending or published. -/
theorem queued_announced {c₀ : Conf} (h₀ : Initial Init c₀) (h : ReflTransGen (Lasting P) c₀ c) :
    c.world.sh.db.Announced := (Lasting.runs h₀ h).2.2

def lasting (P : Params) (c : Conf) (u : Turn Move) : Bool :=
  (turn (moves P) c u).all fun c' => (c'.world.sh.trace.drop c.world.sh.trace.length).all fun x => !givesUp x

theorem lasting_step {u : Turn Move} (hu : lasting P c u = true) (h : turn (moves P) c u = some c') :
    Lasting P c c' := by
  refine ⟨turn_step _ h, fun x hx => ?_⟩
  rw [lasting, h, Option.all_some, hx, List.drop_left] at hu
  simpa using hu

def pinged : List (Turn Move) := .other (.call (.create (ping false) 7)) :: steps 0 26

/-- Batch `i` runs, and `publish_js` raises for its event. -/
def failedBatch (i : Nat) : List (Turn Move) := .other (.call .batch) :: steps i 6 ++ .run i false :: steps i 3

theorem queued_announced_retried : ∃ c₀ c cmd, Initial Init c₀ ∧ ReflTransGen (Lasting demo) c₀ c ∧
    c.world.sh.db.commands.find 10 = some cmd ∧ cmd.state = .queued ∧
    ∃ e, c.world.sh.db.outbox.find e.id = some e ∧ e.isQueued = true ∧ e.aggregateId = 10 ∧ e.Live := by
  have hplay : (playIf (moves demo) (lasting demo) (pinged ++ failedBatch 1 ++ failedBatch 2 ++
    failedBatch 3) demoStart).any
      (fun c => (c.world.sh.db.commands.find 10).any (·.state == .queued)) = true := by
    decide +kernel
  obtain ⟨c, hc, hφ⟩ := (Option.any_eq_true _ _).mp hplay
  obtain ⟨cmd, hcmd, hst⟩ := (Option.any_eq_true _ _).mp hφ
  rw [beq_iff_eq] at hst
  have hr : ReflTransGen (Lasting demo) demoStart c := playIf_runs _ (Q := Lasting demo) lasting_step hc
  exact ⟨demoStart, c, cmd, demo_initial, hr, hcmd, hst, queued_announced demo_initial hr 10 cmd hcmd hst⟩

/-- After four batches whose publication failed, the command is queued and its event
has been given up. -/
theorem queued_unannounced : ∃ c, Reachable demo c ∧ ¬ c.world.sh.db.Announced := by
  obtain ⟨c, hr, hφ⟩ := played (P := demo) (c := demoStart)
    (t := pinged ++ failedBatch 1 ++ failedBatch 2 ++ failedBatch 3 ++ failedBatch 4)
    (φ := fun c => (c.world.sh.db.commands.find 10).any (·.state == .queued) &&
      c.world.sh.db.outbox.rows.all (·.status == .failed)) (by decide +kernel)
  simp only [Bool.and_eq_true, Option.any_eq_true, beq_iff_eq, List.all_eq_true] at hφ
  obtain ⟨⟨cmd, hcmd, hst⟩, hfailed⟩ := hφ
  refine ⟨c, Reachable.runs demo_reachable hr, fun hann => ?_⟩
  obtain ⟨e, he, -, -, hlive | hlive⟩ := hann 10 cmd hcmd hst
  · rw [hfailed e (Table.mem_of_find he)] at hlive
    cases hlive
  · rw [hfailed e (Table.mem_of_find he)] at hlive
    cases hlive

end

end Veyaan
