import Mathlib.Data.List.ReduceOption
import Veyaan.Schedule
import Veyaan.Serial.Workers

/-!
# The times of a command

`transition_command` sets a time with each of the later states, and the result
or the error with the last one. In a serial run the clock does not go back, and
the columns of a command agree with each other and with its state.
-/

namespace Veyaan

open Sys

/-! ## The times that a call writes -/

section
variable {P : Params} {J : Ext → Prop} {d v : DB} {ws : List Write}

/-- The states that `transition_command` sets no time for. -/
def unstamped : List CommandState :=
  [.received, .validated, .awaitingApproval, .approved, .rejected, .queued, .blockedByEmergencyStop]

theorem Command.stamp_unstamped {c : Command} (h : c.state ∈ unstamped) : c.stamp = none := by
  unfold stamp
  revert h
  cases c.state <;> simp [unstamped]

theorem timed_unstamped {c : Command} {new : CommandState} {source : Source} {m : Option Metadata} {u n : Time}
    (h : new ∈ unstamped) : Timed J (moveRows c new source m u n) := by
  intro c' hc' n' hn
  simp only [moveRows, List.mem_cons, Write.command.injEq, reduceCtorEq, List.not_mem_nil, or_false] at hc'
  subst hc'
  rw [Command.stamp_unstamped (by rw [Command.transition_state]; exact h)] at hn
  cases hn

theorem timed_createRows {c : Command} {tid : UUID} {new : CommandState}
    {u₁ n₁ u₂ n₂ : Time} (hc : c.state = .received)
    (hnew : new ∈ unstamped) : Timed J (createRows c tid new u₁ n₁ u₂ n₂) := by
  refine Timed.append (Timed.append ?_ (timed_unstamped (by decide))) (timed_unstamped hnew)
  intro c' hc' n hn
  simp only [insertRows, List.mem_cons, Write.command.injEq, reduceCtorEq, List.not_mem_nil, or_false] at hc'
  subst hc'
  rw [Command.stamp_unstamped (by rw [hc]; decide)] at hn
  cases hn

theorem BlockRows.timed {ids : List UUID} (h : BlockRows v ids ws) : Timed J ws := by
  induction h with
  | nil => exact timed_of_tables (by simp)
  | skip _ _ ih => exact ih
  | block _ _ _ ih => exact (timed_unstamped (by decide)).append ih

theorem timed_publishRows (h : Rounds PublishRows v ws) : Timed J ws := by
  induction h with
  | nil => exact timed_of_tables (by simp)
  | cons hm _ ih =>
    refine Timed.append ?_ ih
    cases hm with
    | mark => exact timed_of_tables (by simp)
    | block => exact (timed_unstamped (by decide)).append (timed_of_tables (by simp))

def Call.stamps : Call → Bool
  | .cancel .. => true
  | .tasks => true
  | .consume .. => true
  | _ => false

theorem Rows.timed {call : Call} (h : Rows P d call ws) (hc : call.stamps = false) : Timed J ws := by
  cases h with
  | createAwaiting _ hcmd =>
    exact (timed_createRows (by rw [hcmd]; rfl) (by decide)).append (timed_of_tables (by simp))
  | createQueued _ hcmd =>
    exact (timed_createRows (by rw [hcmd]; rfl) (by decide)).append (timed_of_tables (by simp))
  | @approve id o nonce note a c eid now at' u₁ n₁ u₂ n₂ dev =>
    have happ : Timed J [Write.approval (a.decide true now note)] := timed_of_tables (by simp)
    have hmove : Timed J (moveRows c .approved .approval none u₁ n₁) := timed_unstamped (by decide)
    have hqueue : Timed J (moveRows (c.transition .approved u₁ n₁ none) .queued .approval none u₂ n₂) :=
      timed_unstamped (by decide)
    exact ((happ.append hmove).append hqueue).append (timed_of_tables (by simp))
  | @reject id o nonce note a c now u n =>
    have happ : Timed J [Write.approval (a.decide false now note)] := timed_of_tables (by simp)
    have hmove : Timed J (moveRows c .rejected .approval none u n) := timed_unstamped (by decide)
    exact (happ.append hmove).append (timed_of_tables (by simp))
  | @activate o reason actor now now' ws eid at' existing _ _ hws =>
    have hstop : Timed J [Write.stop (activeStop existing o reason actor now)] := timed_of_tables (by simp)
    exact (hstop.append hws.timed).append (timed_of_tables (by simp))
  | batch hws => exact timed_publishRows hws
  | cancel => cases hc
  | tasks => cases hc
  | consume => cases hc
  | _ => exact timed_of_tables (by simp)

theorem Refusal.timed {call : Call} (h : Refusal P d call ws) : Timed J ws := by
  cases h <;> exact timed_of_tables (by simp)

/-- Alone, a call writes times that the clock had while it ran. -/
theorem within_code {n : UUID → Nat} (hi : DBInv d n) (call : Call) :
    within P true J (WroteIn J P call d) (call.code P)
    (fun _ d' o' => WroteIn J P call d d' ∧ o'.locks = false) d (.idle d) := by
  have hdrop : ∀ {α : Type} {p : Op α}, within P true J (WroteIn J P call d) p
      (fun _ d' o' => WroteIn J P call d d' ∧ o'.locks = false) d (.idle d) →
      within P true J (WroteIn J P call d) (drop p) (fun _ d' o' => WroteIn J P call d d' ∧
          o'.locks = false) d (.idle d) :=
    fun h => alone_bind (alone_mono (fun r _ _ h => by cases r <;> exact h) h)
  by_cases hs : call.stamps = true
  · cases call with
    | cancel id o => exact hdrop within_cancelCommand
    | tasks => exact within_runTasks
    | consume k id p =>
      have hwrote : ∀ d', ProcessedIn J true d k p d' → WroteIn J P (.consume k id p) d d' := by
        rintro d' (⟨rfl, -⟩ | ⟨u, x, hx, rfl⟩)
        · exact .inl rfl
        · refine .inr ⟨_, .inl .consume, ?_, rfl⟩
          unfold handleRows
          split
          · exact timed_of_tables (by simp)
          split
          · refine (timed_moveRows hx).append (timed_of_tables fun c hc => ?_)
            cases ht : k.task p with
            | none => simp [ht] at hc
            | some f => simp [ht, taskRows] at hc
          · exact timed_of_tables (by simp)
      exact alone_mono (fun _ d' _ h => ⟨hwrote d' h.1, h.2⟩) (within_consume hwrote)
    | _ => cases hs
  · have hs : call.stamps = false := by simpa using hs
    have hwrote : ∀ d', Wrote P call d d' → WroteIn J P call d d' := fun d' h =>
      h.imp_right fun ⟨ws, hw, hd⟩ => ⟨ws, hw, hw.elim (fun h => h.timed hs) Refusal.timed, hd⟩
    exact alone_imp hwrote (alone_mono (fun _ d' _ h => ⟨hwrote d' h.1, h.2⟩)
      (alone_outside (fun _ _ => trivial) (solo_code hi call)))

end

/-! ## What the columns say of each other -/

def CommandState.stage : CommandState → Nat
  | .delivered => 1
  | .acknowledged => 2
  | .running => 3
  | .received | .validated | .awaitingApproval | .approved | .queued => 0
  | _ => 4

theorem accepts_stage {s new : CommandState} (h : accepts s new = true) :
    s.stage ≤ new.stage ∧ (new.stage ≤ s.stage + 1 ∨ new.stage = 4) := by
  revert h
  cases s <;> cases new <;> decide

/-- The times of a command in state `s`, none of them after `t`. -/
structure Timing (t : Time) (s : CommandState)
    (deliveredAt acknowledgedAt startedAt finishedAt : Option Time) : Prop where
  ordered : ([deliveredAt, acknowledgedAt, startedAt, finishedAt].reduceOption ++ [t]).Pairwise (· ≤ ·)
  delivered : deliveredAt ≠ none → 1 ≤ s.stage
  acknowledged : acknowledgedAt ≠ none → deliveredAt ≠ none ∧ 2 ≤ s.stage
  started : startedAt ≠ none → acknowledgedAt ≠ none ∧ 3 ≤ s.stage
  finished : finishedAt ≠ none → s.stage = 4
  whenDelivered : s.stage = 1 → deliveredAt ≠ none
  whenAcknowledged : s.stage = 2 → acknowledgedAt ≠ none
  whenRunning : s.stage = 3 → startedAt ≠ none

namespace Timing
variable {t t' n : Time} {s new : CommandState} {a b c f : Option Time}

theorem none_of {p : Prop} {o : Option Time} (h : o ≠ none → p) (hp : ¬ p) : o = none :=
  Classical.byContradiction fun ho => hp (h ho)

theorem stay (h : Timing t s a b c f) (hs : s.stage ≤ new.stage)
    (hnew : new.stage = 0 ∨ new.stage = 4) (ht : t ≤ t') :
    Timing t' new a b c f where
  ordered := by
    have := h.ordered
    rw [List.pairwise_append] at this ⊢
    refine ⟨this.1, List.pairwise_singleton .., fun x hx y hy => ?_⟩
    rw [List.mem_singleton.mp hy]
    exact Nat.le_trans (this.2.2 x hx t (List.mem_singleton.mpr rfl)) ht
  delivered ha := Nat.le_trans (h.delivered ha) hs
  acknowledged hb := ⟨(h.acknowledged hb).1, Nat.le_trans (h.acknowledged hb).2 hs⟩
  started hc := ⟨(h.started hc).1, Nat.le_trans (h.started hc).2 hs⟩
  finished hf := by have := h.finished hf; omega
  whenDelivered h1 := by omega
  whenAcknowledged h2 := by omega
  whenRunning h3 := by omega

theorem deliver (h : Timing t s a b c f) (hs : s.stage ≤ 1) (hn : n ≤ t') :
    Timing t' .delivered (some n) b c f := by
  have hb : b = none := none_of h.acknowledged (by omega)
  have hc : c = none := none_of h.started (by omega)
  have hf : f = none := none_of h.finished (by omega)
  subst hb hc hf
  constructor <;> simp [CommandState.stage, List.reduceOption, hn]

theorem acknowledge (h : Timing t s a b c f) (hs : s.stage = 1 ∨ s.stage = 2) (hn : t ≤ n) (hn' : n ≤ t') :
    Timing t' .acknowledged a (some n) c f := by
  have hc : c = none := none_of h.started (by omega)
  have hf : f = none := none_of h.finished (by omega)
  have ha : a ≠ none := hs.elim h.whenDelivered fun h2 => (h.acknowledged (h.whenAcknowledged h2)).1
  subst hc hf
  obtain ⟨x, rfl⟩ := Option.ne_none_iff_exists'.mp ha
  have hx : x ≤ t := by
    have := h.ordered
    cases b <;> simp [List.reduceOption] at this <;> tauto
  constructor <;> simp [CommandState.stage, List.reduceOption]
  exact ⟨⟨Nat.le_trans hx hn, Nat.le_trans hx (Nat.le_trans hn hn')⟩, hn'⟩

theorem start (h : Timing t s a b c f) (hs : s.stage = 2 ∨ s.stage = 3) (hn : t ≤ n) (hn' : n ≤ t') :
    Timing t' .running a b (some n) f := by
  have hf : f = none := none_of h.finished (by omega)
  have hb : b ≠ none := hs.elim h.whenAcknowledged fun h3 => (h.started (h.whenRunning h3)).1
  have ha : a ≠ none := (h.acknowledged hb).1
  subst hf
  obtain ⟨x, rfl⟩ := Option.ne_none_iff_exists'.mp ha
  obtain ⟨y, rfl⟩ := Option.ne_none_iff_exists'.mp hb
  have hxy : x ≤ y ∧ y ≤ t := by
    have := h.ordered
    cases c <;> simp [List.reduceOption] at this <;> tauto
  have hyn := Nat.le_trans hxy.2 hn
  have hxn := Nat.le_trans hxy.1 hyn
  constructor <;> simp [CommandState.stage, List.reduceOption]
  exact ⟨⟨hxy.1, hxn, Nat.le_trans hxn hn'⟩, ⟨hyn, Nat.le_trans hyn hn'⟩, hn'⟩

theorem finish (h : Timing t s a b c f) (hnew : new.stage = 4) (hn : t ≤ n) (hn' : n ≤ t') :
    Timing t' new a b c (some n) where
  ordered := by
    have := h.ordered
    rw [show ([a, b, c, f] : List (Option Time)) = [a, b, c] ++ [f] from rfl,
      List.reduceOption_append, List.append_assoc, List.pairwise_append] at this
    rw [show ([a, b, c, some n] : List (Option Time)) = [a, b, c] ++ [some n] from rfl, List.reduceOption_append,
      List.append_assoc, List.pairwise_append]
    refine ⟨this.1, by simp [List.reduceOption, hn'], fun x hx y hy => ?_⟩
    have hxt : x ≤ t := this.2.2 x hx t (by simp)
    simp only [List.reduceOption, List.filterMap_cons, id, List.filterMap_nil, List.cons_append,
      List.nil_append, List.mem_cons, List.not_mem_nil, or_false] at hy
    rcases hy with rfl | rfl
    · exact Nat.le_trans hxt hn
    · exact Nat.le_trans hxt (Nat.le_trans hn hn')
  delivered _ := by omega
  acknowledged hb := ⟨(h.acknowledged hb).1, by omega⟩
  started hc := ⟨(h.started hc).1, by omega⟩
  finished _ := hnew
  whenDelivered h1 := by omega
  whenAcknowledged h2 := by omega
  whenRunning h3 := by omega

end Timing

/-- What the columns of a command say of each other and of its state, no time of it
being after `t`. -/
structure Command.Coherent (t : Time) (c : Command) : Prop where
  timing : Timing t c.state c.deliveredAt c.acknowledgedAt c.startedAt c.finishedAt
  result : c.resultData ≠ none ∨ c.resultSummary ≠ none → c.state = .succeeded
  error : c.errorCode ≠ none ∨ c.errorMessage ≠ none → c.state = .failed

/-- A transition keeps them, if the clock has not gone back. -/
theorem Command.Coherent.move {t t' u n : Time} {c : Command} {new : CommandState}
    {m : Option Metadata} (h : c.Coherent t)
    (ha : accepts c.state new = true) (ht : t ≤ t') (hn : new ∉ unstamped → t ≤ n ∧ n ≤ t') :
    (c.transition new u n m).Coherent t' := by
  obtain ⟨hle, hup⟩ := accepts_stage ha
  have hkeep : ∀ {s : CommandState} {p : Prop}, s ∈ terminalStates → (p → c.state = s) → p →
      new = s := fun hs h hp => by
    rw [h hp] at ha
    exact accepts_terminal hs ha
  have hres := hkeep (s := .succeeded) (by decide) h.result
  have herr := hkeep (s := .failed) (by decide) h.error
  cases new with
  | delivered => exact ⟨h.timing.deliver hle (hn (by decide)).2, hres, herr⟩
  | acknowledged =>
    have hs : c.state.stage = 1 ∨ c.state.stage = 2 := by
      rw [show CommandState.stage .acknowledged = 2 from rfl] at hle hup
      omega
    exact ⟨h.timing.acknowledge hs (hn (by decide)).1 (hn (by decide)).2, hres, herr⟩
  | running =>
    have hs : c.state.stage = 2 ∨ c.state.stage = 3 := by
      rw [show CommandState.stage .running = 3 from rfl] at hle hup
      omega
    exact ⟨h.timing.start hs (hn (by decide)).1 (hn (by decide)).2, hres, herr⟩
  | succeeded => exact ⟨h.timing.finish rfl (hn (by decide)).1 (hn (by decide)).2, fun _ => rfl, herr⟩
  | failed => exact ⟨h.timing.finish rfl (hn (by decide)).1 (hn (by decide)).2, hres, fun _ => rfl⟩
  | timedOut => exact ⟨h.timing.finish rfl (hn (by decide)).1 (hn (by decide)).2, hres, herr⟩
  | cancelled => exact ⟨h.timing.finish rfl (hn (by decide)).1 (hn (by decide)).2, hres, herr⟩
  | expired => exact ⟨h.timing.finish rfl (hn (by decide)).1 (hn (by decide)).2, hres, herr⟩
  | rejected => exact ⟨h.timing.stay hle (.inr rfl) ht, hres, herr⟩
  | blockedByEmergencyStop => exact ⟨h.timing.stay hle (.inr rfl) ht, hres, herr⟩
  | _ => exact ⟨h.timing.stay hle (.inl rfl) ht, hres, herr⟩

theorem Command.Coherent.later {t t' : Time} {c : Command} (h : c.Coherent t) (ht : t ≤ t') : c.Coherent t' := by
  refine ⟨{ h.timing with ordered := ?_ }, h.result, h.error⟩
  have := h.timing.ordered
  rw [List.pairwise_append] at this ⊢
  refine ⟨this.1, List.pairwise_singleton .., fun x hx y hy => ?_⟩
  rw [List.mem_singleton.mp hy]
  exact Nat.le_trans (this.2.2 x hx t (List.mem_singleton.mpr rfl)) ht

/-! ## Serial runs -/

def DB.Coherent (t : Time) (v : DB) : Prop := ∀ id c, v.commands.find id = some c → c.Coherent t

section
variable {P : Params} {t t' u n : Time} {d v : DB} {id : UUID} {c : Command} {new : CommandState} {source : Source}
  {m : Option Metadata} {ws : List Write}

theorem DB.Coherent.tables (h : v.Coherent t) (hws : ∀ w ∈ ws, ∀ c, w ≠ .command c) : (v.write ws).Coherent t := by
  intro id c hc
  rw [DB.write_commands v hws] at hc
  exact h id c hc

theorem DB.Coherent.later (h : v.Coherent t) (ht : t ≤ t') : v.Coherent t' := fun id c hc => (h id c hc).later ht

theorem DB.Coherent.move (h : v.Coherent t) (hc : v.commands.find id = some c)
    (ha : accepts c.state new = true) (ht : t ≤ t')
    (hn : new ∉ unstamped → t ≤ n ∧ n ≤ t') : (v.write (moveRows c new source m u n)).Coherent t' := by
  intro id' x hx
  by_cases hid : c.id = id'
  · subst hid
    rw [find_moveRows] at hx
    cases hx
    exact (h id c hc).move ha ht hn
  · have : (v.write (moveRows c new source m u n)).commands.find id' = v.commands.find id' :=
      Table.find_put_ne _ (by rw [key_command, (c.transition_same ..).id]; exact hid)
    rw [this] at hx
    exact (h id' x hx).later ht

theorem DB.Coherent.pass (h : v.Coherent t) (hc : v.commands.find id = some c) (ha : accepts c.state new = true)
    (hnew : new ∈ unstamped) : (v.write (moveRows c new source m u n)).Coherent t :=
  h.move hc ha (Nat.le_refl t) fun hn => absurd hnew hn

theorem DB.Coherent.insert {r : CreateCommandRequest} {df : CommandDefinition} {tid : UUID} (h : v.Coherent t)
    (hc : c = r.command df c.id c.updatedAt) : (v.write (insertRows c tid)).Coherent t := by
  intro id x hx
  have hfind : (v.write (insertRows c tid)).commands.find id = if c.id = id then some c else v.commands.find id :=
    Table.find_put ..
  rw [hfind] at hx
  by_cases hid : c.id = id
  · rw [if_pos hid] at hx
    cases hx
    rw [hc]
    refine ⟨?_, by simp [CreateCommandRequest.command], by simp [CreateCommandRequest.command]⟩
    constructor <;> simp [CreateCommandRequest.command, CommandState.stage, List.reduceOption]
  · rw [if_neg hid] at hx
    exact h id x hx

theorem DB.Coherent.create {r : CreateCommandRequest} {df : CommandDefinition} {tid : UUID} {u₁ n₁ u₂ n₂ : Time}
    (h : v.Coherent t) (hc : c = r.command df c.id c.updatedAt) (hnew : new = .awaitingApproval ∨ new = .queued) :
    (v.write (createRows c tid new u₁ n₁ u₂ n₂)).Coherent t := by
  have hs : c.state = .received := by rw [hc]; rfl
  have hfind : (v.write (insertRows c tid)).commands.find c.id = some c := Table.find_put_self ..
  have hvalid : ((v.write (insertRows c tid)).write (moveRows c .validated .api none u₁ n₁)).Coherent t :=
    (h.insert hc).pass hfind (by rw [hs]; decide) (by decide)
  rw [createRows, DB.write_append, DB.write_append]
  refine hvalid.pass (find_moveRows ..) ?_ ?_
  · rw [Command.transition_state]
    rcases hnew with rfl | rfl <;> decide
  · rcases hnew with rfl | rfl <;> decide

theorem DB.Coherent.block {ids : List UUID} (h : v.Coherent t) (hb : BlockRows v ids ws) :
    (v.write ws).Coherent t := by
  induction hb with
  | nil => exact h
  | skip _ _ ih => exact ih h
  | block hc ha _ ih =>
    rw [DB.write_append]
    exact ih (h.pass hc ha (by decide))

theorem DB.Coherent.publish (h : v.Coherent t) (hr : Rounds PublishRows v ws) : (v.write ws).Coherent t := by
  induction hr with
  | nil => exact h
  | cons hm _ ih =>
    rw [DB.write_append]
    refine ih ?_
    cases hm with
    | mark => exact h.tables (by simp)
    | block hc ha =>
      rw [DB.write_append]
      exact (h.pass hc ha (by decide)).tables (by simp)

abbrev TimedBetween (t t' : Time) (ws : List Write) : Prop := Timed (fun x => t ≤ x.clock ∧ x.clock ≤ t') ws

theorem Timed.between (h : TimedBetween t t' ws) (hm : Write.command (c.transition new u n m) ∈ ws)
    (hnew : new ∉ unstamped) :
    t ≤ n ∧ n ≤ t' := by
  have hstamp : (c.transition new u n m).stamp = some n := by
    cases new <;> first | rfl | exact absurd (by decide) hnew
  obtain ⟨x, hx, rfl⟩ := h _ hm n hstamp
  exact hx

/-- A run of the scheduler does not come to a command twice: one that has expired is
not selected. -/
theorem DB.Coherent.expire (h : v.Coherent t) (ht : t ≤ t') (hr : Rounds ExpireRows v ws)
    (hn : TimedBetween t t' ws) :
    (v.write ws).Coherent t' := by
  suffices hall : ∀ id c, (v.write ws).commands.find id = some c →
    c.Coherent t' ∧ (c.state ∈ nonTerminal → c.Coherent t) from
    fun id c hc => (hall id c hc).1
  have hv : ∀ id c, v.commands.find id = some c → c.Coherent t' ∧ (c.state ∈ nonTerminal → c.Coherent t) :=
    fun id c hc => ⟨(h id c hc).later ht, fun _ => h id c hc⟩
  clear h
  induction hr with
  | nil => exact hv
  | @cons v vs ws hm _ ih =>
    rw [DB.write_append]
    refine ih (fun c hc => hn c (List.mem_append_right _ hc)) ?_
    cases hm with
    | skip => exact hv
    | @expire id c u n hc hst ha =>
      intro id' x hx
      have hid : c.id = id := by simpa using Table.key_of_find hc
      by_cases hne : id' = c.id
      · subst hne
        rw [DB.write_append, DB.write_commands _ fun w hw c => ?_, find_moveRows] at hx
        · cases hx
          have hmem : Write.command (c.transition .expired u n none) ∈
              (moveRows c .expired .scheduler none u n ++ expireTaskRows v c.id) ++ ws := by simp [moveRows]
          have hb : t ≤ n ∧ n ≤ t' := hn.between hmem (by decide)
          have hmove := ((hv id c hc).2 hst).move (u := u) (m := none) ha ht fun _ => hb
          exact ⟨hmove, fun hx => by simp [nonTerminal] at hx⟩
        · obtain ⟨_, -, rfl⟩ := List.mem_map.mp hw
          simp
      · rw [find_expired hne] at hx
        exact hv id' x hx

theorem DB.Coherent.handle {k : Lifecycle} {p : LifecyclePayload} (h : d.Coherent t) (ht : t ≤ t')
    (hn : TimedBetween t t' (handleRows d k p u n)) : (d.write (handleRows d k p u n)).Coherent t' := by
  unfold handleRows at hn ⊢
  split
  · exact h.later ht
  rename_i c hc
  simp only [hc] at hn
  split
  · rename_i hgo
    rw [if_pos hgo] at hn
    simp only [Bool.and_eq_true] at hgo
    obtain ⟨id, -, hc⟩ := Option.bind_eq_some_iff.mp hc
    rw [DB.write_append]
    refine (h.move hc hgo.1.1.2 ht fun hnew => ?_).tables fun w hw c => ?_
    · exact hn.between (c := c) (m := some (k.metadata p c.id)) (u := u) (by simp [moveRows]) hnew
    · cases htask : k.task p with
      | none => simp [htask] at hw
      | some f =>
        simp only [htask, Option.elim_some, taskRows, List.mem_map] at hw
        obtain ⟨_, -, rfl⟩ := hw
        simp
  · exact h.later ht

theorem Rows.coherent {call : Call} (hw : Rows P d call ws) (h : d.Coherent t) (ht : t ≤ t')
    (hn : TimedBetween t t' ws) :
    (d.write ws).Coherent t' := by
  cases hw with
  | createAwaiting _ hc =>
    rw [DB.write_append]
    exact ((h.create hc (.inl rfl)).tables (by simp)).later ht
  | createQueued _ hc =>
    rw [DB.write_append]
    exact ((h.create hc (.inr rfl)).tables (by simp)).later ht
  | @cancel id o c u n hc _ ha =>
    exact h.move hc ha ht fun hnew => hn.between (c := c) (m := none) (u := u) (by simp [moveRows]) hnew
  | @approve id o nonce note a c eid now at' u₁ n₁ u₂ n₂ dev _ _ _ _ hc hst =>
    have happ : (d.write [.approval (a.decide true now note)]).Coherent t := h.tables (by simp)
    have hpass : ((d.write [.approval (a.decide true now note)]).write
        (moveRows c .approved .approval none u₁ n₁)).Coherent t :=
      happ.pass hc (by rw [hst]; decide) (by decide)
    have hqueue : (((d.write [.approval (a.decide true now note)]).write
      (moveRows c .approved .approval none u₁ n₁)).write
        (moveRows (c.transition .approved u₁ n₁ none) .queued .approval none u₂ n₂)).Coherent t :=
      hpass.pass (find_moveRows ..) (by rw [Command.transition_state]; decide) (by decide)
    rw [DB.write_append]
    exact (hqueue.tables (by simp)).later ht
  | @reject id o nonce note a c now u n _ _ _ _ hc ha =>
    have happ : (d.write [.approval (a.decide false now note)]).Coherent t := h.tables (by simp)
    have hpass : ((d.write [.approval (a.decide false now note)]).write
        (moveRows c .rejected .approval none u n)).Coherent t :=
      happ.pass hc ha (by decide)
    exact (hpass.tables (by simp)).later ht
  | @activate o reason actor now now' ws eid at' existing _ _ hws =>
    have hstop : (d.write [.stop (activeStop existing o reason actor now)]).Coherent t := h.tables (by simp)
    rw [DB.write_append]
    exact ((hstop.block hws).tables (by simp)).later ht
  | batch hws => exact (h.publish hws).later ht
  | @tasks ps as ws hws =>
    rw [DB.write_append]
    have htables : (d.write (ps.map .pairing ++ as.map .approval)).Coherent t := h.tables fun w hw c => by
      rcases List.mem_append.mp hw with hw | hw <;> obtain ⟨_, -, rfl⟩ := List.mem_map.mp hw <;> simp
    exact htables.expire ht hws fun c hc => hn c (List.mem_append_right _ hc)
  | consume => exact h.handle ht hn
  | revoke =>
    refine (h.tables fun w hw c => ?_).later ht
    simp only [List.mem_append, List.mem_cons, List.mem_map, List.not_mem_nil, or_false] at hw
    rcases hw with (rfl | ⟨r, -, rfl⟩) | rfl | rfl <;> simp
  | _ => exact (h.tables (by simp)).later ht

theorem Refusal.coherent {call : Call} (hw : Refusal P d call ws) (h : d.Coherent t) : (d.write ws).Coherent t := by
  cases hw <;> exact h.tables (by simp)

end

theorem serial_coherent {P : Params} {c : Conf} (h : (sys P).Serial Init c) :
    c.world.sh.db.Coherent c.world.sh.ext.clock := by
  refine serial_rising (f := Ext.clock) (G := DB.Coherent) step_clock
    (fun d x hi id c hc => ?_) (fun ht h => h.later ht)
    (fun c call t hr _ hd ht => ?_) h
  · rw [hi.commands] at hc
    cases hc
  · have hwrote : ∀ d', WroteIn (fun x => c.world.sh.ext.clock ≤ x.clock ∧ x.clock ≤ t) P call c.world.sh.db d' →
        d'.Coherent t := by
      rintro d' (rfl | ⟨ws, hw | hw, hn, rfl⟩)
      · exact hd.later ht
      · exact hw.coherent hd ht hn
      · exact (hw.coherent hd).later ht
    exact alone_imp hwrote (alone_mono (fun _ d' _ h => ⟨hwrote d' h.1, h.2⟩)
      (within_code (reachable_inv hr).db call))

/-- **Coherence of a command.** -/
theorem command_row_coherent {P : Params} {c : Conf} (h : (sys P).Serial Init c) {id : UUID} {cmd : Command}
    (hc : c.world.sh.db.commands.find id = some cmd) :
    (cmd.startedAt ≠ none → cmd.acknowledgedAt ≠ none) ∧ (cmd.acknowledgedAt ≠ none → cmd.deliveredAt ≠ none) ∧
      [cmd.deliveredAt, cmd.acknowledgedAt, cmd.startedAt, cmd.finishedAt].reduceOption.Pairwise (· ≤ ·) ∧
      (cmd.resultData ≠ none ∨ cmd.resultSummary ≠ none → cmd.state = .succeeded) ∧
      (cmd.errorCode ≠ none ∨ cmd.errorMessage ≠ none → cmd.state = .failed) := by
  have hcoh := serial_coherent h id cmd hc
  refine ⟨fun hs => (hcoh.timing.started hs).1, fun ha => (hcoh.timing.acknowledged ha).1,
    ?_, hcoh.result, hcoh.error⟩
  exact (List.pairwise_append.mp hcoh.timing.ordered).1

theorem command_row_coherent_succeeded : ∃ c cmd, (sys demo).Serial Init c ∧
    c.world.sh.db.commands.find 10 = some cmd ∧
    cmd.startedAt ≠ none ∧ cmd.acknowledgedAt ≠ none ∧ cmd.deliveredAt ≠ none ∧ cmd.resultData ≠ none ∧
    cmd.state = .succeeded := by
  obtain ⟨c, hr, hc⟩ := played_serially (P := demo) (t := succeededRun) (φ := fun c =>
    (c.world.sh.db.commands.find 10).any fun cmd => cmd.startedAt.isSome && cmd.resultData.isSome) demo_initial
    (by decide +kernel)
  obtain ⟨cmd, hcmd, hs⟩ := (Option.any_eq_true _ _).mp hc
  simp only [Bool.and_eq_true, Option.isSome_iff_ne_none] at hs
  obtain ⟨hack, hdel, -, hres, -⟩ := command_row_coherent hr hcmd
  exact ⟨c, cmd, hr, hcmd, hs.1, hack hs.1, hdel (hack hs.1), hs.2, hres (.inl hs.2)⟩

end Veyaan
