import Veyaan.Lib.Eval
import Veyaan.Schedule
import Veyaan.Serial.Base

/-!
# A batch with failing publications

What one run of `process_batch` should make of a batch: an event that is
published is marked so, and one that is not gets another attempt, whatever
becomes of the others. The failure is logged with keyword arguments first, which
a standard-library logger refuses: that takes the whole batch back, together
with the marks of the events that have gone out.
-/

namespace Veyaan

open Sys

/-! ## The batch -/

/-- The events that `get_unpublished` returns at this time. -/
def DB.batch (d : DB) (now : Time) : List OutboxEvent :=
  (d.outbox.rows.filter fun e => e.status == .pending && e.availableAt ≤ now).take 100

/-- What `is_active` answers, with Valkey connected or not. -/
def stopped (connected : Bool) (d : DB) (x : Ext) (ownerId : UUID) : Bool :=
  match if connected then x.cache ownerId else none with
  | some (.dict active _) => active.getD false
  | some (.scalar truthy) => truthy
  | none => d.stopActive ownerId

def DB.heldBack (v : DB) (stop : UUID → Bool) (e : OutboxEvent) : Bool :=
  e.isQueued && ((v.commands.find e.aggregateId).bind fun c => v.devices.find c.deviceId).any
    fun dev => stop dev.ownerId

/-- The publisher calls `is_active` for the event. -/
def DB.asks (v : DB) (e : OutboxEvent) : Bool :=
  e.isQueued && ((v.commands.find e.aggregateId).bind fun c => v.devices.find c.deviceId).isSome

def Ext.answers (x : Ext) (connected : Bool) : Bool := !connected || x.valkey == .up

def DB.blocks (v : DB) (e : OutboxEvent) : Bool :=
  (v.commands.find e.aggregateId).all fun c =>
    accepts c.state .blockedByEmergencyStop && c.goes .blockedByEmergencyStop none

/-- `publish_js` raises for the events in `fails`, and Valkey is connected or not. -/
def outage (connected : Bool) (fails : UUID → Bool) : Picks DB Key Write Label Err Eff
  | _, .eff (.publishJs _ (some e)) => !fails e.id
  | _, .eff (.cacheGet ..) => connected
  | _, .eff (.cacheSet ..) => connected
  | _, _ => true

/-- What is promised of a run on the store `d` that has come to the result `r` and
the store `d'`: it commits, every event that was published is PUBLISHED, and every
other one that was tried has one attempt less, or is FAILED after the fourth. -/
structure Isolated (connected : Bool) (fails : UUID → Bool) (d : DB) (x : Ext)
    (r : Except Err Nat) (d' : DB) : Prop where
  committed : ∃ n, r = .ok n
  published : ∀ e ∈ d.batch x.clock, d.heldBack (stopped connected d x) e = false → fails e.id = false →
    ∃ e', d'.outbox.find e.id = some e' ∧ e'.status = .published
  retried : ∀ e ∈ d.batch x.clock, d.heldBack (stopped connected d x) e = false → fails e.id = true →
    ∃ e', d'.outbox.find e.id = some e' ∧
      if 3 ≤ e.attemptCount then e'.status = .failed
      else e'.status = .pending ∧ e'.attemptCount = e.attemptCount + 1

/-- The event goes out, or its command can be blocked, and its check does not raise. -/
def Smooth (connected : Bool) (fails : UUID → Bool) (s : Solo DB Ext) (e : OutboxEvent) : Prop :=
  (s.view.asks e = true → s.ext.answers connected = true) ∧
  if s.view.heldBack (stopped connected s.db s.ext) e = true then s.view.blocks e = true else fails e.id = false

/-! ## Evaluation -/

section
variable {P : Params} {b : Bool} {F : UUID → Bool} {s : Solo DB Ext}

abbrev evaluate (P : Params) (connected : Bool) (fails : UUID → Bool) {α : Type} (p : Op α) (s : Solo DB Ext) :
    Except Err α × Solo DB Ext := (sys P).eval (outage connected fails) p s

def soloWrite (s : Solo DB Ext) (ws : List Write) : Solo DB Ext :=
  { s with view := s.view.write ws, failed := false }

theorem evaluate_now : evaluate P b F (effect .now) s = (.ok s.ext.clock, s) := rfl

theorem evaluate_select {β : Type} {q : DB → β} (hs : s.failed = false) :
    evaluate P b F (select q) s = (.ok (q s.view), s) := by
  simp [evaluate, select, eval_call, answer, outage, hs]

theorem evaluate_selectForUpdate {ρ : Type} {sel : DB → Option ρ} {key : ρ → Key}
    {l : Option Label} (hs : s.failed = false) :
    evaluate P b F (selectForUpdate sel key l) s = (.ok (sel s.view), s) := by
  unfold evaluate selectForUpdate
  rw [Prog.bind_eq, eval_bind, eval_call]
  simp only [answer, outage, hs, Bool.false_or, Bool.not_true, Bool.false_eq_true, if_false, Prog.pure_eq, eval_ret]
  cases sel s.view <;> rfl

theorem evaluate_execute {ks : List Key} {f : DB → Except Err (List Write)} {l : List Write} (hs : s.failed = false)
    (hf : f s.view = .ok l) : evaluate P b F (execute ks f) s = (.ok l.length, soloWrite s l) := by
  simp only [evaluate, execute, eval_call, answer, outage, hs, Bool.false_or, Bool.not_true,
    Bool.false_eq_true, if_false, hf]
  rfl

theorem evaluate_execute_raises {ks : List Key} {f : DB → Except Err (List Write)} {e : Err} (hs : s.failed = false)
    (hf : f s.view = .error e) : evaluate P b F (execute ks f) s = (.error e, { s with failed := true }) := by
  simp only [evaluate, execute, eval_call, answer, outage, hs, Bool.false_or, Bool.not_true,
    Bool.false_eq_true, if_false, hf]

section
variable {β : Type} {e : Eff β} {vs : List Ev} {g : Ext → β} {b₀ : β} {f : Ext → Ext}

theorem evaluate_ask (ho : outage b F _ (.eff e) = b)
    (he : ∀ ch x, Eff.handle ch e x = if ch then x.ask vs (g x) f else (.ok b₀, x, []))
    (ha : s.ext.answers b = true) : evaluate P b F (effect e) s =
      (.ok (if b then g s.ext else b₀), { s with ext := if b then f s.ext else s.ext }) := by
  have hh : (sys P).handle b e s.ext = if b then s.ext.ask vs (g s.ext) f else (.ok b₀, s.ext, []) := he _ _
  simp only [evaluate, effect, eval_call, answer, ho, hh]
  cases b with
  | false => rfl
  | true =>
    have hup : s.ext.valkey = .up := by simpa [Ext.answers] using ha
    simp only [if_true, Ext.ask, hup]

theorem evaluate_ask_raises (ho : outage b F _ (.eff e) = b)
    (he : ∀ ch x, Eff.handle ch e x = if ch then x.ask vs (g x) f else (.ok b₀, x, []))
    (ha : s.ext.answers b = false) : (evaluate P b F (effect e) s).1 = .error .valkey := by
  have hh : (sys P).handle b e s.ext = if b then s.ext.ask vs (g s.ext) f else (.ok b₀, s.ext, []) := he _ _
  simp only [evaluate, effect, eval_call, answer, ho, hh]
  cases b with
  | false => cases ha
  | true =>
    unfold Ext.ask
    cases hv : s.ext.valkey with
    | up => simp [Ext.answers, hv] at ha
    | _ => rfl

end

structure Alike (connected : Bool) (s : Solo DB Ext) (x : Ext) : Prop where
  clock : x.clock = s.ext.clock
  valkey : x.valkey = s.ext.valkey
  stop : ∀ o, stopped connected s.db x o = stopped connected s.db s.ext o

theorem Alike.refl : Alike b s s.ext := ⟨rfl, rfl, fun _ => rfl⟩

theorem Alike.answers {x : Ext} (h : Alike b s x) : x.answers b = s.ext.answers b := by
  rw [Ext.answers, h.valkey]
  rfl

theorem evaluate_isActive (ha : s.ext.answers b = true) (site : Site) (o : UUID) : ∃ x, Alike b s x ∧
    evaluate P b F (isActive site o) s = (.ok (stopped b s.db s.ext o), { s with ext := x }) := by
  have hget : evaluate P b F (effect (.cacheGet site o)) s = (.ok (if b then s.ext.cache o else none), s) := by
    refine (evaluate_ask (f := id) rfl (fun _ _ => rfl) ha).trans ?_
    cases b <;> rfl
  unfold evaluate at hget ⊢
  unfold isActive stopped
  rw [Prog.bind_eq, eval_bind, hget]
  cases hv : (if b then s.ext.cache o else none : Option CacheVal) with
  | some v => cases v <;> exact ⟨s.ext, .refl, rfl⟩
  | none =>
    have hread : (sys P).eval (outage b F) (Prog.call
      (.fresh (some (.stopRead site o)) fun d => d.stops.find o)) s =
        (.ok (s.db.stops.find o), s) := rfl
    simp only
    rw [Prog.bind_eq, eval_bind, hread]
    cases hst : s.db.stops.find o with
    | none => exact ⟨s.ext, .refl, by simp [DB.stopActive, hst]⟩
    | some stop =>
      simp only
      cases hact : stop.active with
      | false => exact ⟨s.ext, .refl, by simp [DB.stopActive, hst, hact]⟩
      | true =>
        have hset := evaluate_ask (P := P) (F := F)
          (e := .cacheSet (some site) o (.dict (some true) stop.activatedAt) 60)
          rfl (fun _ _ => rfl) ha
        refine ⟨if b then s.ext.setCache o (some (.dict (some true) stop.activatedAt)) else s.ext,
          ⟨?_, ?_, fun p => ?_⟩, (eval_bind_ok hset).trans (by simp [DB.stopActive, hst, hact])⟩
        · cases b <;> rfl
        · cases b <;> rfl
        · -- the answer for the owner is cached, and it is the one that the row gives
          cases b with
          | false => rfl
          | true =>
            simp only [if_true, stopped, Ext.setCache] at hv ⊢
            by_cases hp : p = o
            · subst hp
              simp [hv, DB.stopActive, hst, hact]
            · simp [hp]

theorem evaluate_isActive_raises (ha : s.ext.answers b = false) (site : Site) (o : UUID) :
    (evaluate P b F (isActive site o) s).1 = .error .valkey :=
  eval_bind_error (evaluate_ask_raises (f := id) rfl (fun _ _ => rfl) ha)

@[simp] theorem soloWrite_failed (s : Solo DB Ext) (ws : List Write) : (soloWrite s ws).failed = false := rfl
@[simp] theorem soloWrite_view (s : Solo DB Ext) (ws : List Write) : (soloWrite s ws).view = s.view.write ws := rfl
@[simp] theorem soloWrite_db (s : Solo DB Ext) (ws : List Write) : (soloWrite s ws).db = s.db := rfl
@[simp] theorem soloWrite_ext (s : Solo DB Ext) (ws : List Write) : (soloWrite s ws).ext = s.ext := rfl

theorem soloWrite_write (s : Solo DB Ext) (ws vs : List Write) :
    soloWrite (soloWrite s ws) vs = soloWrite s (ws ++ vs) := by
  simp [soloWrite, DB.write_append]

section
variable {c : Command} {new : CommandState} {source : Source} {m : Option Metadata}
    {loaded : Option Command} {id : UUID}

theorem evaluate_transition_missing (hs : s.failed = false) (hc : s.view.commands.find id = none) :
    evaluate P b F (transitionCommand loaded id new source m) s = (.ok none, s) := by
  refine (eval_bind_ok (evaluate_selectForUpdate hs)).trans ?_
  rw [hc]
  rfl

theorem evaluate_transition_forbidden (hs : s.failed = false)
    (hc : s.view.commands.find id = some c) (hl : loaded.getD c = c)
    (ha : accepts c.state new = false) : evaluate P b F (transitionCommand loaded id new source m) s =
      (.error (.stateTransition id c.state new), s) := by
  refine (eval_bind_ok (evaluate_selectForUpdate hs)).trans ?_
  rw [hc]
  simp only [hl, ha, Bool.false_eq_true, if_false]
  rfl

theorem evaluate_transition_accepted (hs : s.failed = false)
    (hc : s.view.commands.find id = some c) (hl : loaded.getD c = c)
    (ha : accepts c.state new = true) : evaluate P b F (transitionCommand loaded id new source m) s =
      evaluate P b F ((execute [.command id] (updateCommand c new s.ext.clock s.ext.clock source m)).bind fun _ =>
        (execute [] (insertEvent ⟨c.id, some c.state, new, source, m⟩)).bind fun _ =>
          pure (some (c.transition new s.ext.clock s.ext.clock m))) s := by
  refine (eval_bind_ok (evaluate_selectForUpdate hs)).trans ?_
  rw [hc]
  simp only [hl, ha, if_true]
  exact (eval_bind_ok evaluate_now).trans (eval_bind_ok evaluate_now)

theorem evaluate_transition_moved (hs : s.failed = false)
    (hc : s.view.commands.find id = some c) (hl : loaded.getD c = c)
    (ha : accepts c.state new = true) (hg : c.goes new m = true) :
    evaluate P b F (transitionCommand loaded id new source m) s =
      (.ok (some (c.transition new s.ext.clock s.ext.clock m)),
        soloWrite s (moveRows c new source m s.ext.clock s.ext.clock)) := by
  simp only [Command.goes, Bool.and_eq_true] at hg
  obtain ⟨⟨hv, hst⟩, hm⟩ := hg
  rw [evaluate_transition_accepted hs hc hl ha]
  have hupd : updateCommand c new s.ext.clock s.ext.clock source m s.view =
      .ok [.command (c.transition new s.ext.clock s.ext.clock m)] := by
    rw [updateCommand_self new _ _ source m hc, if_pos hv, if_pos hst]
  have hins : insertEvent ⟨c.id, some c.state, new, source, m⟩
      (soloWrite s [.command (c.transition new s.ext.clock s.ext.clock m)]).view =
        .ok [.event ⟨c.id, some c.state, new, source, m⟩] := by
    unfold insertEvent
    rw [if_pos hm]
  refine (eval_bind_ok (evaluate_execute hs hupd)).trans ((eval_bind_ok (evaluate_execute rfl hins)).trans ?_)
  rw [soloWrite_write]
  rfl

theorem evaluate_transition_refused (hs : s.failed = false)
    (hc : s.view.commands.find id = some c) (hl : loaded.getD c = c)
    (ha : accepts c.state new = true) (hg : c.goes new m = false) : ∃ e s',
    evaluate P b F (transitionCommand loaded id new source m) s = (.error e, s') ∧ s'.failed = true ∧
      ∀ i x y, e ≠ .stateTransition i x y := by
  rw [evaluate_transition_accepted hs hc hl ha]
  cases hupd : updateCommand c new s.ext.clock s.ext.clock source m s.view with
  | error e =>
    refine ⟨e, _, eval_bind_raises (evaluate_execute_raises hs hupd), rfl, fun i x y he => ?_⟩
    subst he
    rw [updateCommand_self new _ _ source m hc] at hupd
    repeat' split at hupd
    all_goals cases hupd
  | ok ws =>
    have hm : m.all Metadata.storable = false := by
      rw [updateCommand_self new _ _ source m hc] at hupd
      split at hupd
      · rename_i hv
        split at hupd
        · rename_i hst
          simpa [Command.goes, hv, hst] using hg
        · cases hupd
      · cases hupd
    have hins : insertEvent ⟨c.id, some c.state, new, source, m⟩ (soloWrite s ws).view = .error .data := by
      unfold insertEvent
      simp only
      rw [if_neg (by rw [hm]; decide)]
    refine ⟨.data, _, (eval_bind_ok (evaluate_execute hs hupd)).trans
      (eval_bind_raises (evaluate_execute_raises rfl hins)), rfl, ?_⟩
    intro i x y he
    cases he

theorem evaluate_transition (hs : s.failed = false) (hc : s.view.commands.find c.id = some c)
    (ha : accepts c.state new = true)
    (hg : c.goes new none = true) : ∃ c', evaluate P b F (transitionCommand (some c) c.id new source none) s =
      (.ok c', soloWrite s (moveRows c new source none s.ext.clock s.ext.clock)) :=
  ⟨_, evaluate_transition_moved hs hc rfl ha hg⟩

theorem evaluate_transition_error (hs : s.failed = false) (hc : s.view.commands.find c.id = some c)
    (h : (accepts c.state new && c.goes new none) = false) :
    ∃ e, (evaluate P b F (transitionCommand (some c) c.id new source none) s).1 = .error e := by
  cases ha : accepts c.state new with
  | false => exact ⟨_, congrArg Prod.fst (evaluate_transition_forbidden hs hc rfl ha)⟩
  | true =>
    have hg : c.goes new none = false := by simpa [ha] using h
    have hloaded : (some c).getD c = c := rfl
    obtain ⟨e, s', he, -⟩ := evaluate_transition_refused hs hc hloaded ha hg
    exact ⟨e, congrArg Prod.fst he⟩

end

theorem evaluate_markPublished {id : UUID} (hs : s.failed = false) : evaluate P b F (markPublished id) s =
    (.ok (), soloWrite s
      (markRows s.view id fun e => { e with status := .published, publishedAt := some s.ext.clock })) := by
  exact (eval_bind_ok evaluate_now).trans (eval_bind_ok (evaluate_execute hs (updateOutbox_rows ..)))

theorem evaluate_markFailed {id : UUID} (hs : s.failed = false) : evaluate P b F (markFailed id) s =
    (.ok (), soloWrite s (markRows s.view id fun e => { e with status := .failed })) := by
  exact eval_bind_ok (evaluate_execute hs (updateOutbox_rows ..))

end

/-! ## One event -/

structure BatchRound (v v' : DB) (e : OutboxEvent) (st : OutboxEventStatus) : Prop where
  devices : v'.devices = v.devices
  others : ∀ id, id ≠ e.id → v'.outbox.find id = v.outbox.find id
  self : v.outbox.find e.id = some e → ∃ e', v'.outbox.find e.id = some e' ∧ e'.status = st
  commands : ∀ id, v'.commands.find id = v.commands.find id ∨
    ∃ c u n, v.commands.find id = some c ∧ c.goes .blockedByEmergencyStop none = true ∧
      accepts c.state .blockedByEmergencyStop = true ∧
      v'.commands.find id = some (c.transition .blockedByEmergencyStop u n none)

section
variable {v v' : DB} {e x : OutboxEvent} {st : OutboxEventStatus}

theorem BatchRound.heldBack (h : BatchRound v v' e st) (stop : UUID → Bool) :
    v'.heldBack stop x = v.heldBack stop x := by
  unfold DB.heldBack
  rcases h.commands x.aggregateId with hc | ⟨c, u, n, hc, -, -, hc'⟩
  · rw [hc, h.devices]
  · simp only [hc, hc', h.devices, Option.bind_some, (c.transition_same ..).deviceId]

theorem BatchRound.asks (h : BatchRound v v' e st) : v'.asks x = v.asks x := by
  unfold DB.asks
  rcases h.commands x.aggregateId with hc | ⟨c, u, n, hc, -, -, hc'⟩
  · rw [hc, h.devices]
  · simp only [hc, hc', h.devices, Option.bind_some, (c.transition_same ..).deviceId]

theorem BatchRound.blocks (h : BatchRound v v' e st) : v'.blocks x = v.blocks x := by
  unfold DB.blocks
  rcases h.commands x.aggregateId with hc | ⟨c, u, n, hc, hg, ha, hc'⟩
  · rw [hc]
  · have hst : (c.transition .blockedByEmergencyStop 0 0 none).storable = true := by
      simp only [Command.goes, Bool.and_eq_true] at hg
      exact hg.1.2
    have hgo : (c.transition .blockedByEmergencyStop u n none).goes .blockedByEmergencyStop none = true := by
      simp only [Command.goes, Command.transition_state, beq_self_eq_true, Bool.true_or,
        Bool.true_and, Option.all_none, Bool.and_true]
      exact hst
    simp [hc, hc', hg, ha, hgo, accepts_self]

theorem markRows_round {f : OutboxEvent → OutboxEvent} (hf : ∀ e, (f e).status = st) (id : UUID) (hid : id = e.id) :
    BatchRound v (v.write (markRows v id f)) e st := by
  subst hid
  cases he : v.outbox.find e.id with
  | none =>
    simp only [markRows, he, Option.toList_none, List.map_nil, DB.write_nil]
    exact ⟨rfl, fun _ _ => rfl, fun h => (Option.some_ne_none _ (h.symm.trans he)).elim, fun _ => .inl rfl⟩
  | some y =>
    have hy : y.id = e.id := by simpa using Table.key_of_find he
    simp only [markRows, he, Option.toList_some, List.map_cons, List.map_nil,
      DB.write_cons, DB.write_nil, Write.apply]
    refine ⟨rfl, fun k hk => ?_, fun _ => ⟨{ f y with id := y.id }, ?_, hf y⟩, fun _ => .inl rfl⟩
    · exact Table.find_put_ne _ (by rw [key_outbox, hy]; exact Ne.symm hk)
    · rw [Table.find_put, key_outbox, hy, if_pos rfl]

theorem blockRows_round {c : Command} {u n : Time} {source : Source} {f : OutboxEvent → OutboxEvent}
    (hf : ∀ e, (f e).status = st)
    (hc : v.commands.find c.id = some c) (ha : accepts c.state .blockedByEmergencyStop = true)
    (hg : c.goes .blockedByEmergencyStop none = true) :
    BatchRound v (v.write (moveRows c .blockedByEmergencyStop source none u n ++ markRows v e.id f)) e st := by
  have hm : BatchRound (v.write (moveRows c .blockedByEmergencyStop source none u n)) _ e st :=
    markRows_round hf e.id rfl
  rw [DB.write_append]
  refine ⟨hm.devices, hm.others, hm.self, fun id => ?_⟩
  have hcm : ((v.write (moveRows c .blockedByEmergencyStop source none u n)).write (markRows v e.id f)).commands =
      (v.commands.put (c.transition .blockedByEmergencyStop u n none)) :=
    DB.write_commands _ (by simp [markRows])
  rw [hcm, Table.find_put, key_command, (c.transition_same ..).id]
  split
  · rename_i hid
    exact .inr ⟨c, u, n, hid ▸ hc, hg, ha, rfl⟩
  · exact .inl rfl

end

section
variable {P : Params} {b : Bool} {F : UUID → Bool} {s : Solo DB Ext} {e : OutboxEvent}

theorem evaluate_publishReady (hs : s.failed = false) (hf : F e.id = false) : ∃ x, Alike b s x ∧
    evaluate P b F (publishReady e) s = (.ok true, soloWrite { s with ext := x }
      (markRows s.view e.id fun e => { e with status := .published, publishedAt := some s.ext.clock })) := by
  refine ⟨{ s.ext with stream := s.ext.stream ++ [e.msg] }, ⟨rfl, rfl, fun _ => rfl⟩, ?_⟩
  have hpub : evaluate P b F (effect (.publishJs e.msg (some e))) s =
      (.ok (), { s with ext := { s.ext with stream := s.ext.stream ++ [e.msg] } }) := by
    have hh : (sys P).handle (!F e.id) (Eff.publishJs e.msg (some e)) s.ext =
        (.ok (), { s.ext with stream := s.ext.stream ++ [e.msg] }, [.published e.msg (some e)]) := by rw [hf]; rfl
    simp only [evaluate, effect, eval_call, answer, outage, hh]
  exact (eval_bind_ok hpub).trans (eval_bind_ok (evaluate_markPublished hs))

theorem evaluate_publishReady_error (hf : F e.id = true) :
    (evaluate P b F (publishReady e) s).1 = .error .nats := by
  refine eval_bind_error ?_
  have hh : ((sys P).handle (!F e.id) (Eff.publishJs e.msg (some e)) s.ext).1 = .error .nats := by rw [hf]; rfl
  simp only [effect, eval_call, answer, outage, hh]

theorem evaluate_publishEvent_ready (hs : s.failed = false) (ha : s.view.asks e = true → s.ext.answers b = true)
    (hh : s.view.heldBack (stopped b s.db s.ext) e = false) :
    ∃ x, Alike b s x ∧
      evaluate P b F (publishEvent P e) s = evaluate P b F (publishReady e) { s with ext := x } := by
  unfold publishEvent
  cases hq : e.isQueued with
  | false => exact ⟨s.ext, .refl, rfl⟩
  | true =>
    rw [if_pos rfl]
    cases hc : s.view.commands.find e.aggregateId with
    | none => exact ⟨s.ext, .refl, (eval_bind_ok (evaluate_select hs)).trans (by rw [hc])⟩
    | some c =>
      cases hd : s.view.devices.find c.deviceId with
      | none =>
        refine ⟨s.ext, .refl, (eval_bind_ok (evaluate_select hs)).trans ?_⟩
        rw [hc]
        exact (eval_bind_ok (evaluate_select hs)).trans (by rw [hd])
      | some dev =>
        obtain ⟨x, hlike, hx⟩ := evaluate_isActive (P := P) (F := F) (ha (by simp [DB.asks, hq, hc, hd]))
          (.publish e) dev.ownerId
        have hfree : stopped b s.db s.ext dev.ownerId = false := by simpa [DB.heldBack, hq, hc, hd] using hh
        refine ⟨x, hlike, (eval_bind_ok (evaluate_select hs)).trans ?_⟩
        rw [hc]
        refine (eval_bind_ok (evaluate_select hs)).trans ?_
        rw [hd]
        refine (eval_bind_ok hx).trans ?_
        rw [hfree]
        rfl

theorem evaluate_publishEvent_held (hs : s.failed = false) (ha : s.ext.answers b = true)
    (hh : s.view.heldBack (stopped b s.db s.ext) e = true) :
    ∃ x c, Alike b s x ∧ s.view.commands.find e.aggregateId = some c ∧ evaluate P b F (publishEvent P e) s =
      evaluate P b F ((enforceStop P e c).bind fun _ => .ret false) { s with ext := x } := by
  simp only [DB.heldBack, Bool.and_eq_true, Option.any_eq_true, Option.bind_eq_some_iff] at hh
  obtain ⟨hq, dev, ⟨c, hc, hd⟩, hst⟩ := hh
  obtain ⟨x, hlike, hx⟩ := evaluate_isActive (P := P) (F := F) ha (.publish e) dev.ownerId
  refine ⟨x, c, hlike, hc, ?_⟩
  unfold publishEvent
  rw [if_pos hq]
  refine (eval_bind_ok (evaluate_select hs)).trans ?_
  rw [hc]
  refine (eval_bind_ok (evaluate_select hs)).trans ?_
  rw [hd]
  refine (eval_bind_ok hx).trans ?_
  rw [hst]
  rfl

theorem evaluate_publishEvent_unanswered (hs : s.failed = false) (hq : s.view.asks e = true)
    (ha : s.ext.answers b = false) : (evaluate P b F (publishEvent P e) s).1 = .error .valkey := by
  simp only [DB.asks, Bool.and_eq_true, Option.isSome_iff_exists, Option.bind_eq_some_iff] at hq
  obtain ⟨hq, dev, c, hc, hd⟩ := hq
  unfold publishEvent
  rw [if_pos hq]
  refine (congrArg Prod.fst (eval_bind_ok (evaluate_select hs))).trans ?_
  rw [hc]
  refine (congrArg Prod.fst (eval_bind_ok (evaluate_select hs))).trans ?_
  rw [hd]
  exact eval_bind_error (evaluate_isActive_raises ha ..)

theorem heldBack_asks {v : DB} {stop : UUID → Bool} (h : v.heldBack stop e = true) : v.asks e = true := by
  simp only [DB.heldBack, Bool.and_eq_true, Option.any_eq_true] at h
  obtain ⟨hq, dev, hd, -⟩ := h
  simp [DB.asks, hq, hd]

theorem evaluate_enforceStop {c : Command} {f : Unit → Op Bool} (hs : s.failed = false)
    (hc : s.view.commands.find c.id = some c)
    (ha : accepts c.state .blockedByEmergencyStop = true) (hg : c.goes .blockedByEmergencyStop none = true) :
    evaluate P b F ((enforceStop P e c).bind f) s = evaluate P b F (f ()) (soloWrite s
      (moveRows c .blockedByEmergencyStop .outboxEnforcement none s.ext.clock s.ext.clock ++
        markRows s.view e.id fun e => { e with status := .failed })) := by
  obtain ⟨c', ht⟩ : ∃ c', evaluate P b F (transitionCommand (some c) c.id .blockedByEmergencyStop
    .outboxEnforcement none) s =
      (.ok c', _) := evaluate_transition hs hc ha hg
  refine eval_bind_ok ?_
  refine (eval_bind_ok (eval_attempt_ok ht)).trans ?_
  refine (evaluate_markFailed rfl).trans ?_
  rw [soloWrite_write]
  rfl

theorem evaluate_enforceStop_error (hP : P.loggerRaises = true) {c : Command}
    {f : Unit → Op Bool} (hs : s.failed = false) (hc : s.view.commands.find c.id = some c)
    (h : (accepts c.state .blockedByEmergencyStop && c.goes .blockedByEmergencyStop none) = false) :
    (evaluate P b F ((enforceStop P e c).bind f) s).1 = .error .typeError := by
  obtain ⟨err, ht⟩ : ∃ err,
    (evaluate P b F (transitionCommand (some c) c.id .blockedByEmergencyStop .outboxEnforcement none)
      s).1 = .error err := evaluate_transition_error hs hc h
  refine eval_bind_error ?_
  refine (congrArg Prod.fst (eval_bind_ok (eval_attempt_error ht))).trans ?_
  simp only [logKeywords, hP, if_true]
  rfl

/-- The `except` branch does not get past its log. -/
theorem evaluate_processEvent_error (hP : P.loggerRaises = true) {err : Err}
    (h : (evaluate P b F (publishEvent P e) s).1 = .error err) :
    (evaluate P b F (processEvent P e) s).1 = .error .typeError := by
  refine (congrArg Prod.fst (eval_bind_ok (eval_attempt_error h))).trans ?_
  simp only [retryEvent, logKeywords, hP, if_true]
  rfl

def mark (connected : Bool) (s : Solo DB Ext) (e : OutboxEvent) : OutboxEventStatus :=
  if s.view.heldBack (stopped connected s.db s.ext) e = true then .failed else .published

theorem evaluate_processEvent (hs : s.failed = false) (h : Smooth b F s e) : ∃ n x ws, Alike b s x ∧
    evaluate P b F (processEvent P e) s = (.ok n, soloWrite { s with ext := x } ws) ∧
    BatchRound s.view (s.view.write ws) e (mark b s e) := by
  obtain ⟨ha, h⟩ := h
  unfold mark
  split at h
  · rename_i hh
    obtain ⟨x, c, hx, hc, hev⟩ := evaluate_publishEvent_held (P := P) (F := F) hs (ha (heldBack_asks hh)) hh
    have hid : c.id = e.aggregateId := by simpa using Table.key_of_find hc
    simp only [DB.blocks, hc, Option.all_some, Bool.and_eq_true] at h
    have hc' : s.view.commands.find c.id = some c := by rw [hid]; exact hc
    have hstop := hev.trans (evaluate_enforceStop (s := { s with ext := x }) hs hc' h.1 h.2)
    exact ⟨0, x, _, hx, eval_bind_ok (eval_attempt_ok hstop),
      by rw [if_pos hh]; exact blockRows_round (fun _ => rfl) hc' h.1 h.2⟩
  · rename_i hh
    obtain ⟨x, hx, hev⟩ := evaluate_publishEvent_ready (P := P) (F := F) hs ha (by simpa using hh)
    obtain ⟨y, hy, hpub⟩ := evaluate_publishReady (P := P) (b := b) (s := { s with ext := x }) hs h
    refine ⟨1, y, _, ⟨hy.clock.trans hx.clock, hy.valkey.trans hx.valkey, fun o => (hy.stop o).trans (hx.stop o)⟩,
      eval_bind_ok (eval_attempt_ok (hev.trans hpub)), ?_⟩
    rw [if_neg hh]
    exact markRows_round (f := fun e => { e with status := .published, publishedAt := some x.clock })
      (fun _ => rfl) e.id rfl

theorem evaluate_processEvent_rough (hP : P.loggerRaises = true) (hs : s.failed = false) (h : ¬ Smooth b F s e) :
    (evaluate P b F (processEvent P e) s).1 = .error .typeError := by
  by_cases ha : s.view.asks e = true → s.ext.answers b = true
  swap
  · rw [Classical.not_imp, Bool.not_eq_true] at ha
    exact evaluate_processEvent_error hP (evaluate_publishEvent_unanswered hs ha.1 ha.2)
  replace h := fun hq => h ⟨ha, hq⟩
  split at h
  · rename_i hh
    obtain ⟨x, c, hx, hc, hev⟩ := evaluate_publishEvent_held (P := P) (F := F) hs (ha (heldBack_asks hh)) hh
    have hid : c.id = e.aggregateId := by simpa using Table.key_of_find hc
    have hbad : (accepts c.state .blockedByEmergencyStop && c.goes .blockedByEmergencyStop none) = false := by
      simpa [DB.blocks, hc] using h
    have herr := evaluate_enforceStop_error (b := b) (F := F) (e := e) (f := fun _ => .ret false)
      (s := { s with ext := x }) hP hs (by rw [hid]; exact hc) hbad
    exact evaluate_processEvent_error hP ((congrArg Prod.fst hev).trans herr)
  · rename_i hh
    obtain ⟨x, hx, hev⟩ := evaluate_publishEvent_ready (P := P) (F := F) hs ha (by simpa using hh)
    exact evaluate_processEvent_error hP ((congrArg Prod.fst hev).trans
      (evaluate_publishReady_error (by simpa using h)))

end

/-! ## The loop -/

section
variable {P : Params} {b : Bool} {F : UUID → Bool}

theorem BatchRound.smooth {s : Solo DB Ext} {x : Ext} {ws : List Write} {e y : OutboxEvent} {st : OutboxEventStatus}
    (h : BatchRound s.view (s.view.write ws) e st) (hx : Alike b s x) :
    (Smooth b F (soloWrite { s with ext := x } ws) y ↔ Smooth b F s y) ∧
      mark b (soloWrite { s with ext := x } ws) y = mark b s y := by
  have hheld : (soloWrite { s with ext := x } ws).view.heldBack (stopped b s.db x) y =
      s.view.heldBack (stopped b s.db s.ext) y := by
    rw [show stopped b s.db x = stopped b s.db s.ext from funext hx.stop]
    exact h.heldBack _
  have hblocks : (soloWrite { s with ext := x } ws).view.blocks y = s.view.blocks y := h.blocks
  have hasks : (soloWrite { s with ext := x } ws).view.asks y = s.view.asks y := h.asks
  constructor
  · unfold Smooth
    rw [show (soloWrite { s with ext := x } ws).db = s.db from rfl,
      show (soloWrite { s with ext := x } ws).ext = x from rfl, hheld, hblocks, hasks, hx.answers]
  · unfold mark
    rw [show (soloWrite { s with ext := x } ws).db = s.db from rfl,
      show (soloWrite { s with ext := x } ws).ext = x from rfl, hheld]

/-- The loop marks all events, if none of them goes wrong. -/
theorem evaluate_processEvents : ∀ (es : List OutboxEvent) {s : Solo DB Ext}, s.failed = false →
    (es.map OutboxEvent.id).Nodup → (∀ e ∈ es, s.view.outbox.find e.id = some e) → (∀ e ∈ es, Smooth b F s e) →
    ∃ n s', evaluate P b F (processEvents P es) s = (.ok n, s') ∧ s'.failed = false ∧
      (∀ e ∈ es, ∃ e', s'.view.outbox.find e.id = some e' ∧ e'.status = mark b s e) ∧
      ∀ id, id ∉ es.map OutboxEvent.id → s'.view.outbox.find id = s.view.outbox.find id
  | [], s, hs, _, _, _ => ⟨0, s, rfl, hs, by simp, fun _ _ => rfl⟩
  | e :: es, s, hs, hn, hf, hsm => by
    obtain ⟨hne, hn⟩ := List.nodup_cons.mp hn
    obtain ⟨m, x, ws, hx, hev, hround⟩ := evaluate_processEvent (P := P) hs (hsm e (List.mem_cons_self ..))
    have hkeep := fun y => hround.smooth (F := F) (y := y) hx
    have hother : ∀ y ∈ es, y.id ≠ e.id := fun y hy he => hne (he ▸ List.mem_map_of_mem hy)
    obtain ⟨n, s', hrest, hs', hmarks, hframe⟩ := evaluate_processEvents es
      (s := soloWrite { s with ext := x } ws) rfl hn
      (fun y hy => (hround.others y.id (hother y hy)).trans (hf y (List.mem_cons_of_mem _ hy)))
      fun y hy => (hkeep y).1.mpr (hsm y (List.mem_cons_of_mem _ hy))
    refine ⟨m + n, s', (eval_bind_ok hev).trans (eval_bind_ok hrest), hs', fun y hy => ?_, fun id hid => ?_⟩
    · rcases List.mem_cons.mp hy with rfl | hy
      · rw [hframe y.id hne]
        exact hround.self (hf y (List.mem_cons_self ..))
      · rw [← (hkeep y).2]
        exact hmarks y hy
    · simp only [List.map_cons, List.mem_cons, not_or] at hid
      rw [hframe id hid.2]
      exact hround.others id hid.1

/-- The first event that goes wrong ends the loop. -/
theorem evaluate_processEvents_rough (hP : P.loggerRaises = true) : ∀ (es : List OutboxEvent) {s : Solo DB Ext},
    s.failed = false → (∃ e ∈ es, ¬ Smooth b F s e) →
    (evaluate P b F (processEvents P es) s).1 = .error .typeError
  | [], s, _, h => by simp at h
  | e :: es, s, hs, h => by
    by_cases he : Smooth b F s e
    · obtain ⟨m, x, ws, hx, hev, hround⟩ := evaluate_processEvent (P := P) hs he
      obtain ⟨y, hy, hbad⟩ := h
      have hy : y ∈ es := (List.mem_cons.mp hy).resolve_left (by rintro rfl; exact hbad he)
      refine (congrArg Prod.fst (eval_bind_ok hev)).trans (eval_bind_error ?_)
      exact evaluate_processEvents_rough hP es rfl ⟨y, hy, fun hsm => hbad ((hround.smooth hx).1.mp hsm)⟩
    · exact eval_bind_error (evaluate_processEvent_rough hP hs he)

end

/-! ## The batch -/

section
variable {P : Params} {b : Bool} {F : UUID → Bool} {s : Solo DB Ext} {α : Type} {p : Op α}

theorem evaluate_commit {l : Option Label} (hs : s.failed = false) :
    evaluate P b F (Prog.call (.commit l)) s = (.ok (), .idle s.view s.ext) := by
  simp [evaluate, eval_call, answer, outage, hs]

theorem evaluate_withSession {a : α} {t : Solo DB Ext}
    (h : evaluate P b F p s = (.ok a, t)) (hs : t.failed = false) :
    evaluate P b F (withSession p) s = (.ok a, .idle t.view t.ext) :=
  eval_bind_ok (eval_attempt_ok ((eval_bind_ok h).trans (eval_bind_ok (evaluate_commit hs))))

theorem evaluate_withSession_raises {e : Err} {t : Solo DB Ext} (h : evaluate P b F p s = (.error e, t)) :
    evaluate P b F (withSession p) s = (.error e, .idle t.db t.ext) := by
  refine (eval_bind_ok (eval_attempt_error (congrArg Prod.fst (eval_bind_raises h)))).trans ?_
  rw [eval_bind_raises h]
  rfl

theorem evaluate_withSession_error {e : Err} (h : (evaluate P b F p s).1 = .error e) :
    (evaluate P b F (withSession p) s).1 = .error e :=
  congrArg Prod.fst (eval_bind_ok (eval_attempt_error (eval_bind_error h)))

theorem evaluate_getUnpublished (hs : s.failed = false) :
    evaluate P b F (getUnpublished 100) s = (.ok (s.view.batch s.ext.clock), s) := by
  refine (eval_bind_ok evaluate_now).trans ?_
  simp [eval_call, answer, outage, hs, DB.batch]

theorem batch_nodup (d : DB) (t : Time) : ((d.batch t).map OutboxEvent.id).Nodup := by
  refine List.Nodup.sublist (List.Sublist.map _ ?_) d.outbox.nodup
  exact (List.take_sublist ..).trans List.filter_sublist

theorem batch_find {d : DB} {t : Time} {e : OutboxEvent} (h : e ∈ d.batch t) : d.outbox.find e.id = some e :=
  Table.find_of_mem (List.mem_of_mem_filter (List.mem_of_mem_take h))

theorem evaluate_processBatch {d : DB} {x : Ext} (h : ∀ e ∈ d.batch x.clock, Smooth b F (.idle d x) e) : ∃ n s',
    evaluate P b F (processBatch P) (.idle d x) = (.ok n, s') ∧
      ∀ e ∈ d.batch x.clock, ∃ e', s'.db.outbox.find e.id = some e' ∧ e'.status = mark b (.idle d x) e := by
  obtain ⟨n, s', hloop, hs', hmarks, -⟩ := evaluate_processEvents (P := P) (d.batch x.clock)
    (s := .idle d x) rfl (batch_nodup d _)
    (fun e he => batch_find he) h
  by_cases hemp : (d.batch x.clock).isEmpty = true
  · refine ⟨0, _, evaluate_withSession (t := .idle d x)
      ((eval_bind_ok (evaluate_getUnpublished rfl)).trans ?_) rfl, ?_⟩
    · rw [show (Solo.idle d x).view.batch (Solo.idle d x).ext.clock = d.batch x.clock from rfl, if_pos hemp]
      rfl
    · rw [List.isEmpty_iff.mp hemp]
      simp
  · refine ⟨n, _, evaluate_withSession (t := .idle s'.view s'.ext)
      ((eval_bind_ok (evaluate_getUnpublished rfl)).trans ?_) rfl, hmarks⟩
    rw [show (Solo.idle d x).view.batch (Solo.idle d x).ext.clock = d.batch x.clock from rfl, if_neg hemp]
    exact (eval_bind_ok hloop).trans (eval_bind_ok (evaluate_commit hs'))

theorem evaluate_processBatch_rough (hP : P.loggerRaises = true) {d : DB} {x : Ext}
    (h : ∃ e ∈ d.batch x.clock, ¬ Smooth b F (.idle d x) e) :
    (evaluate P b F (processBatch P) (.idle d x)).1 = .error .typeError := by
  refine evaluate_withSession_error ((congrArg Prod.fst (eval_bind_ok (evaluate_getUnpublished rfl))).trans ?_)
  have hemp : (d.batch x.clock).isEmpty = false := by
    obtain ⟨e, he, -⟩ := h
    cases hl : d.batch x.clock with
    | nil => rw [hl] at he; cases he
    | cons => rfl
  rw [show (Solo.idle d x).view.batch (Solo.idle d x).ext.clock = d.batch x.clock from rfl, if_neg (by simp [hemp])]
  exact eval_bind_error (evaluate_processEvents_rough hP _ rfl h)

/-- **Failures in a batch.** With a logger that refuses keyword arguments a run keeps
its promise exactly when no publication that it tries fails, every command that it has
to block can be blocked, and Valkey answers when it is asked. -/
theorem batch_isolated_iff (hP : P.loggerRaises = true) (connected : Bool) (fails : UUID → Bool)
    (d : DB) (x : Ext) (i : Nat) :
    ∃ r w, (sys P).finishBy (outage connected fails) i (processBatch P) (fresh d x).world = some (r, w) ∧
      (Isolated connected fails d x r w.sh.db ↔ ∀ e ∈ d.batch x.clock,
        (d.asks e = true → x.answers connected = true) ∧
        if d.heldBack (stopped connected d x) e = true then d.blocks e = true else fails e.id = false) := by
  obtain ⟨w, hw, hshow⟩ := finishBy_eval (outage connected fails) (processBatch P)
    (w := (fresh d x).world) (s := .idle d x) (i := i)
    ⟨(fresh_matches d x i).opened, rfl⟩
  refine ⟨_, w, hw, ?_⟩
  by_cases hsm : ∀ e ∈ d.batch x.clock, Smooth connected fails (.idle d x) e
  · obtain ⟨n, s', hev, hmarks⟩ := evaluate_processBatch (P := P) hsm
    refine iff_of_true ?_ hsm
    have hdb : w.sh.db = s'.db := by rw [hshow.trans.db]; exact congrArg (fun r => r.2.db) hev
    rw [hdb]
    refine ⟨⟨n, congrArg Prod.fst hev⟩, fun e he hfree _ => ?_, fun e he hfree hfail => ?_⟩
    · have := hmarks e he
      rwa [mark, if_neg (by simpa [Solo.idle] using hfree)] at this
    · have := (hsm e he).2
      rw [if_neg (by simpa [Solo.idle] using hfree), hfail] at this
      cases this
  · refine iff_of_false (fun h => ?_) hsm
    obtain ⟨n, hn⟩ := h.committed
    have hbad := evaluate_processBatch_rough (b := connected) (F := fails) hP (by simpa using hsm)
    rw [show (evaluate P connected fails (processBatch P) (.idle d x)).1 = .ok n from hn] at hbad
    cases hbad

end

def revocation (id deviceId : UUID) : OutboxEvent :=
  ⟨id, .device, deviceId, .deviceRevoked, .deviceLifecycle deviceId "revoked" (some 7), .pending, 0, 0, none⟩

def twoEvents : DB := { demoDB with outbox := ⟨[revocation 3 1, revocation 4 2], by decide⟩ }

theorem batch_isolated_two : ∃ r w,
    (sys raising).finishBy (outage true fun _ => false) 0 (processBatch raising)
    (fresh twoEvents demoExt).world = some (r, w) ∧
      Isolated true (fun _ => false) twoEvents demoExt r w.sh.db := by
  obtain ⟨r, w, hw, hiff⟩ := batch_isolated_iff (P := raising) rfl true (fun _ => false) twoEvents demoExt 0
  exact ⟨r, w, hw, hiff.mpr (by decide +kernel)⟩

/-- The first event goes out, the second does not: both are pending again. -/
theorem batch_not_isolated : ∃ r w e,
    (sys raising).finishBy (outage true (· == 4)) 0 (processBatch raising)
    (fresh twoEvents demoExt).world = some (r, w) ∧
      w.sh.ext.stream.length = 1 ∧ w.sh.db.outbox.find 3 = some e ∧ e.status = .pending ∧
      ¬ Isolated true (· == 4) twoEvents demoExt r w.sh.db := by
  have hrun : ((sys raising).finishBy (outage true (· == 4)) 0 (processBatch raising)
    (fresh twoEvents demoExt).world).any
      (fun (_, w) => w.sh.ext.stream.length == 1 && (w.sh.db.outbox.find 3).any (·.status == .pending)) = true := by
    decide +kernel
  obtain ⟨⟨r, w⟩, hw, hc⟩ := (Option.any_eq_true _ _).mp hrun
  simp only [Bool.and_eq_true, beq_iff_eq, Option.any_eq_true] at hc
  obtain ⟨hlen, e, he, hst⟩ := hc
  refine ⟨r, w, e, hw, hlen, he, hst, fun h => ?_⟩
  obtain ⟨e', he', hst'⟩ :=
    h.published (revocation 3 1) (by simp [DB.batch, twoEvents, revocation]) (by decide +kernel) rfl
  have he' : w.sh.db.outbox.find 3 = some e' := he'
  rw [he] at he'
  cases he'
  rw [hst] at hst'
  cases hst'

end Veyaan
