import Mathlib.Data.List.Infix
import Veyaan.Isolation
import Veyaan.Lib.Backlog
import Veyaan.Serial.Workers

/-!
# The outbox is worked off

An event in the outbox is pending until it is published or given up. The publisher
takes the oldest pending events, a hundred at a time, and tries each one four times at
most; the other calls append events and touch none that is there. In a serial run, an
event with a few others before it is pending for a bounded number of batches, however
many of them meet an outage.
-/

open Relation (ReflTransGen)

namespace Veyaan

open Sys Backlog

/-! ## What is left of an event -/

/-- How often `increment_attempt` puts an event off. -/
def Params.retries (P : Params) : Nat := if P.loggerRaises then 0 else 3

/-- How often the event can be put off still, as long as it is pending. -/
def OutboxEvent.triesLeft (P : Params) (e : OutboxEvent) : Option Nat :=
  if e.status = .pending then some (P.retries - e.attemptCount) else none

structure OutboxEvent.Ages (P : Params) (e e' : OutboxEvent) : Prop where
  availableAt : e'.availableAt = e.availableAt
  less : Less (OutboxEvent.triesLeft P) e e'

structure DB.Grown (P : Params) (d d' : DB) : Prop where
  ids : d.outbox.rows.map OutboxEvent.id <+: d'.outbox.rows.map OutboxEvent.id
  ages : ∀ id e, d.outbox.find id = some e → ∃ e', d'.outbox.find id = some e' ∧ e.Ages P e'

section
variable {P : Params} {d d' d'' v : DB} {ws : List Write} {call : Call}

theorem OutboxEvent.Ages.refl (e : OutboxEvent) : e.Ages P e := ⟨rfl, .refl e⟩

theorem OutboxEvent.Ages.trans {e e' e'' : OutboxEvent} (h : e.Ages P e') (h' : e'.Ages P e'') : e.Ages P e'' :=
  ⟨h'.availableAt.trans h.availableAt, h.less.trans h'.less⟩

theorem DB.Grown.refl (d : DB) : d.Grown P d := ⟨List.prefix_refl _, fun _ e h => ⟨e, h, .refl e⟩⟩

theorem DB.Grown.trans (h : d.Grown P d') (h' : d'.Grown P d'') : d.Grown P d'' := by
  refine ⟨h.ids.trans h'.ids, fun id e he => ?_⟩
  obtain ⟨e', he', ha⟩ := h.ages id e he
  obtain ⟨e'', he'', ha'⟩ := h'.ages id e' he'
  exact ⟨e'', he'', ha.trans ha'⟩

/-! ## The calls that append -/

theorem DB.Grown.append (h : d.Grown P v) (hw : ∀ e, Write.outbox e ∈ ws → d.outbox.find e.id = none) :
    d.Grown P (v.write ws) := by
  induction ws generalizing v with
  | nil => exact h
  | cons w ws ih =>
    refine ih ?_ fun e he => hw e (List.mem_cons_of_mem _ he)
    cases w with
    | outbox e =>
      refine ⟨h.ids.trans (Table.keys_put v.outbox e), fun id x hx => ?_⟩
      obtain ⟨y, hy, ha⟩ := h.ages id x hx
      refine ⟨y, ?_, ha⟩
      have hne : e.id ≠ id := by
        rintro rfl
        rw [hw e (List.mem_cons_self ..)] at hx
        cases hx
      exact (Table.find_put_ne _ hne).trans hy
    | _ => exact ⟨h.ids, h.ages⟩

theorem BlockRows.noOutbox {ids : List UUID} (h : BlockRows v ids ws) (e : OutboxEvent) : Write.outbox e ∉ ws := by
  induction h with
  | nil => simp
  | skip _ _ ih => exact ih
  | block _ _ _ ih => simpa [moveRows] using ih

theorem ExpireRows.noOutbox (h : ExpireRows v ws) (e : OutboxEvent) : Write.outbox e ∉ ws := by
  cases h with
  | skip => simp
  | expire => simp [moveRows, expireTaskRows]

theorem Rounds.noOutbox (h : Veyaan.Rounds ExpireRows v ws) (e : OutboxEvent) : Write.outbox e ∉ ws := by
  induction h with
  | nil => simp
  | cons hm _ ih =>
    rw [List.mem_append, not_or]
    exact ⟨hm.noOutbox e, ih⟩

theorem handleRows_noOutbox {k : Lifecycle} {p : LifecyclePayload} {u n : Time} (e : OutboxEvent) :
    Write.outbox e ∉ handleRows d k p u n := by
  unfold handleRows
  split
  · simp
  · split
    · cases k.task p <;> simp [moveRows, taskRows]
    · simp

theorem Rows.appends (h : Rows P d call ws) (hcall : call ≠ .batch) (e : OutboxEvent) (he : Write.outbox e ∈ ws) :
    d.outbox.find e.id = none := by
  cases h with
  | createAwaiting => simp [createRows, insertRows, moveRows] at he
  | createQueued _ _ _ _ _ hnew =>
    simp only [createRows, insertRows, moveRows, List.mem_append, List.mem_cons, reduceCtorEq,
      List.not_mem_nil, or_false, false_or, Write.outbox.injEq] at he
    rw [he]
    exact hnew
  | cancel => simp [moveRows] at he
  | approve _ _ _ _ _ _ _ hnew =>
    simp only [approveRows, moveRows, List.cons_append, List.mem_append, List.mem_cons,
      reduceCtorEq, List.not_mem_nil, or_false, false_or, Write.outbox.injEq] at he
    rw [he]
    exact hnew
  | reject => simp [moveRows] at he
  | activate _ _ hb hnew =>
    simp only [List.cons_append, List.mem_cons, List.mem_append, reduceCtorEq, List.not_mem_nil, or_false, false_or,
      Write.outbox.injEq, hb.noOutbox] at he
    rw [he]
    exact hnew
  | reactivate _ _ hnew =>
    simp only [List.mem_cons, List.not_mem_nil, or_false, Write.outbox.injEq] at he
    rw [he]
    exact hnew
  | release _ _ hnew =>
    simp only [List.mem_cons, reduceCtorEq, List.not_mem_nil, or_false, false_or, Write.outbox.injEq] at he
    rw [he]
    exact hnew
  | startPairing => simp at he
  | confirmPairing => simp at he
  | revoke _ _ hnew =>
    simp only [List.cons_append, List.mem_cons, List.mem_append, List.mem_map,
      reduceCtorEq, and_false, exists_false, List.not_mem_nil, or_false, false_or, Write.outbox.injEq] at he
    rw [he]
    exact hnew
  | batch => exact absurd rfl hcall
  | tasks hr => simp [hr.noOutbox] at he
  | consume => exact absurd he (handleRows_noOutbox e)

theorem Refusal.appends (h : Refusal P d call ws) (e : OutboxEvent) (he : Write.outbox e ∈ ws) :
    d.outbox.find e.id = none := by
  cases h <;> simp at he

theorem Wrote.grown (h : Wrote P call d d') (hcall : call ≠ .batch) : d.Grown P d' := by
  rcases h with rfl | ⟨ws, hw | hw, rfl⟩
  · exact .refl d'
  · exact (DB.Grown.refl d).append (hw.appends hcall)
  · exact (DB.Grown.refl d).append hw.appends

/-! ## A batch -/

theorem EventRows.outbox {e : OutboxEvent} (h : EventRows P v e ws) (he : v.outbox.find e.id = some e)
    (hst : e.status = .pending) :
    ∃ e', (v.write ws).outbox = v.outbox.put e' ∧ e'.id = e.id ∧ e'.availableAt = e.availableAt ∧
      Spends (OutboxEvent.triesLeft P) e e' := by
  have hmark : ∀ f, markRows v e.id f = [.outbox { f e with id := e.id }] := fun f => by simp [markRows, he]
  cases h with
  | published =>
    rw [hmark]
    exact ⟨_, rfl, rfl, rfl, by simp [Spends, OutboxEvent.triesLeft]⟩
  | failed =>
    rw [hmark]
    exact ⟨_, rfl, rfl, rfl, by simp [Spends, OutboxEvent.triesLeft]⟩
  | again hlog hcount =>
    rw [hmark]
    refine ⟨_, rfl, rfl, rfl, ?_⟩
    simp only [Spends, OutboxEvent.triesLeft, hst, if_true, Option.some.injEq, Params.retries, hlog,
      Bool.false_eq_true, if_false]
    rintro _ rfl
    exact ⟨_, rfl, by omega⟩
  | block =>
    rw [hmark, DB.write_append]
    exact ⟨_, rfl, rfl, rfl, by simp [Spends, OutboxEvent.triesLeft]⟩

theorem BatchRows.outbox {es : List OutboxEvent} (h : BatchRows P es v ws)
    (hes : ∀ e ∈ es, v.outbox.find e.id = some e)
    (hst : ∀ e ∈ es, e.status = .pending) (hnd : (es.map OutboxEvent.id).Nodup) :
    v.outbox.rows.map OutboxEvent.id <+: (v.write ws).outbox.rows.map OutboxEvent.id ∧
      ∀ id x, v.outbox.find id = some x → ∃ y, (v.write ws).outbox.find id = some y ∧
      y.availableAt = x.availableAt ∧ (x ∈ es → Spends (OutboxEvent.triesLeft P) x y) ∧ (x ∉ es → y = x) := by
  induction h with
  | nil => exact ⟨List.prefix_refl _, fun id x hx => ⟨x, hx, rfl, nofun, fun _ => rfl⟩⟩
  | @cons e es v vs ws he _ ih =>
    rw [List.map_cons, List.nodup_cons] at hnd
    have hfind := hes e (List.mem_cons_self ..)
    obtain ⟨e', hput, hid, hat, hsp⟩ := he.outbox hfind (hst e (List.mem_cons_self ..))
    have hother : ∀ {id}, id ≠ e.id → (v.write vs).outbox.find id = v.outbox.find id := fun hne => by
      rw [hput]
      exact Table.find_put_ne _ fun hk => hne (hk.symm.trans hid)
    have hrest : ∀ x ∈ es, x.id ≠ e.id := fun x hx hxe => hnd.1 (hxe ▸ List.mem_map_of_mem hx)
    obtain ⟨hkeys, hrows⟩ := ih (fun x hx => by rw [hother (hrest x hx)]; exact hes x (List.mem_cons_of_mem _ hx))
      (fun x hx => hst x (List.mem_cons_of_mem _ hx)) hnd.2
    rw [DB.write_append]
    refine ⟨(hput ▸ Table.keys_put v.outbox e').trans hkeys, fun id x hx => ?_⟩
    by_cases hxe : id = e.id
    · subst hxe
      rw [hfind] at hx
      cases hx
      obtain ⟨y, hy, hyat, -, hsame⟩ := hrows e.id e' (by rw [hput, ← hid]; exact Table.find_put_self ..)
      have hnot : e' ∉ es := fun hm => hrest e' hm hid
      rw [hsame hnot] at hy
      exact ⟨e', hy, hat, fun _ => hsp, fun hm => absurd (List.mem_cons_self ..) hm⟩
    · have hne : x ≠ e := by
        rintro rfl
        exact hxe (Table.key_of_find hx).symm
      obtain ⟨y, hy, hyat, hsp', hsame⟩ := hrows id x (by rw [hother hxe]; exact hx)
      refine ⟨y, hy, hyat, fun hm => hsp' ((List.mem_cons.mp hm).resolve_left hne), fun hm => hsame fun hx => ?_⟩
      exact hm (List.mem_cons_of_mem _ hx)

def Batched (J : Ext → Prop) (P : Params) (d d' : DB) : Prop :=
  ∃ x ws, J x ∧ BatchRows P (d.batch x.clock) d ws ∧ d' = d.write ws

theorem mem_batch {now : Time} {e : OutboxEvent} (h : e ∈ d.batch now) :
    d.outbox.find e.id = some e ∧ e.status = .pending := by
  have := List.mem_filter.mp (List.mem_of_mem_take h)
  exact ⟨Table.find_of_mem this.1, by simpa using (Bool.and_eq_true_iff.mp this.2).1⟩

theorem nodup_batch (now : Time) : ((d.batch now).map OutboxEvent.id).Nodup :=
  d.outbox.nodup.sublist (((List.take_sublist ..).trans List.filter_sublist).map _)

theorem Batched.outbox {J : Ext → Prop} (h : Batched J P d d') : ∃ x, J x ∧ d.Grown P d' ∧
    ∀ id e, d.outbox.find id = some e → e ∈ d.batch x.clock → ∃ e', d'.outbox.find id = some e' ∧
      Spends (OutboxEvent.triesLeft P) e e' := by
  obtain ⟨x, ws, hx, hws, rfl⟩ := h
  obtain ⟨hkeys, hrows⟩ :=
    hws.outbox (fun _ he => (mem_batch he).1) (fun _ he => (mem_batch he).2) (nodup_batch x.clock)
  refine ⟨x, hx, ⟨hkeys, fun id e he => ?_⟩, fun id e he hm => ?_⟩
  · obtain ⟨e', he', hat, hsp, hsame⟩ := hrows id e he
    refine ⟨e', he', hat, ?_⟩
    by_cases hm : e ∈ d.batch x.clock
    · exact (hsp hm).less
    · rw [hsame hm]
      exact .refl e
  · obtain ⟨e', he', -, hsp, -⟩ := hrows id e he
    exact ⟨e', he', hsp hm⟩

/-- A run of `process_batch` that has returned has worked on a batch. -/
theorem within_processBatch {J : Ext → Prop} :
    within P true J (fun d' => d' = d ∨ Batched J P d d') (processBatch P)
    (fun r d' o' => (d' = d ∨ Batched J P d d') ∧ o'.locks = false ∧ ∀ n, r = .ok n →
      Batched J P d d') d (.idle d) := by
  have hfail : Spoils d (Closing (α := Nat) true (fun d' => d' = d ∨ Batched J P d d')
      fun r d' o' => (d' = d ∨ Batched J P d d') ∧ o'.locks = false ∧ ∀ n, r = .ok n → Batched J P d d') := by
    intro r o ho
    cases r with
    | ok n => exact ⟨fun _ => ⟨.inl rfl, rfl, nofun⟩, fun hf => by rw [ho] at hf; cases hf⟩
    | error e => exact ⟨.inl rfl, rfl, nofun⟩
  refine solo_withSession ?_
  unfold getUnpublished
  simp only [Prog.bind_eq, Prog.bind_assoc]
  refine within_now fun x hx => solo_skipLocked rfl hfail ?_
  show within P true J _ (if (d.batch x.clock).isEmpty = true then _ else _) _ d (.seeing d)
  split
  · rename_i hnone
    have hbatched : Batched J P d d := by
      refine ⟨x, [], hx, ?_, rfl⟩
      rw [List.isEmpty_iff.mp hnone]
      exact .nil
    exact ⟨fun _ => ⟨.inl rfl, rfl, nofun⟩, fun _ => ⟨.inl rfl, .inl rfl, rfl, fun _ _ => hbatched⟩⟩
  refine solo_processEvents (g := id) (f := fun n => (commit .batch).bind fun _ => .ret n)
    (fun _ => .bind (.call trivial) fun _ => trivial) hfail (fun _ _ => ⟨.inl rfl, rfl, nofun⟩) fun ws n hws => ?_
  have hbatched : Batched J P d (d.write ws) := ⟨x, ws, hx, hws, rfl⟩
  refine solo_commit rfl (fun _ => ⟨.inl rfl, rfl, nofun⟩) (.inr hbatched) ?_
  exact ⟨fun _ => ⟨.inr hbatched, rfl, nofun⟩, fun _ => ⟨.inr hbatched, .inr hbatched, rfl, fun _ _ => hbatched⟩⟩

theorem Batched.grown {J : Ext → Prop} (h : d' = d ∨ Batched J P d d') : d.Grown P d' := by
  rcases h with rfl | h
  · exact .refl d'
  · obtain ⟨-, -, hg, -⟩ := h.outbox
    exact hg

theorem within_batch {J : Ext → Prop} : within P true J (d.Grown P) (Call.batch.code P)
    (fun r d' o' => (d.Grown P d' ∧ o'.locks = false) ∧ (r = .ok () → Batched J P d d')) d (.idle d) := by
  refine alone_bind (alone_imp (fun _ => Batched.grown) (alone_mono (fun r d' o' h => ?_) within_processBatch))
  obtain ⟨hd, ho, hr⟩ := h
  cases r with
  | ok n => exact ⟨⟨Batched.grown hd, ho⟩, fun _ => hr n rfl⟩
  | error e => exact ⟨⟨Batched.grown hd, ho⟩, nofun⟩

theorem solo_grown {n : UUID → Nat} (hi : DBInv d n) (call : Call) :
    solo P true (d.Grown P) (call.code P) (fun _ d' o' => d.Grown P d' ∧ o'.locks = false) d (.idle d) := by
  by_cases hcall : call = .batch
  · subst hcall
    exact alone_mono (fun _ _ _ h => h.1) within_batch
  · exact alone_imp (fun _ h => h.grown hcall)
      (alone_mono (fun _ _ _ h => ⟨h.1.grown hcall, h.2⟩) (solo_code hi call))

end

/-! ## Runs -/

def DB.waiting (P : Params) (k : Nat) (d : DB) : List Nat :=
  (d.outbox.rows.take k).filterMap (OutboxEvent.triesLeft P)

def returnedBatch : Proc DB Key Write Label Call Err Eff → Bool
  | ⟨.batch, .ret _⟩ => true
  | _ => false

def batches (c c' : Conf) : Nat := (c'.procs.drop c.procs.length).countP returnedBatch

theorem returnedBatch_eq {call : Call} {p : Op Unit} (h : returnedBatch ⟨call, p⟩ = true) :
    call = .batch ∧ p = .ret () := by
  unfold returnedBatch at h
  split at h
  · rename_i heq
    cases heq
    exact ⟨rfl, rfl⟩
  · cases h

section
variable {P : Params} {d d' : DB} {c b b' : Conf} {k : Nat}

theorem DB.Grown.lowered (h : d.Grown P d') (hk : k ≤ d.outbox.rows.length) :
    Lowered (d.waiting P k) (d'.waiting P k) := by
  refine lowered_rows (Table.forall₂_take h.ids (fun x hx y hy => ?_) hk)
  obtain ⟨z, hz, ha⟩ := h.ages _ x (Table.find_of_mem hx)
  rw [hy] at hz
  cases hz
  exact ha.less

theorem Batched.tried {J : Ext → Prop} (h : Batched J P d d') (hk : k ≤ d.outbox.rows.length)
    (hdue : ∀ x, J x → ∀ e ∈ d.outbox.rows.take k, e.status = .pending → e.availableAt ≤ x.clock) :
    Backlog.Tried 100 (d.waiting P k) (d'.waiting P k) := by
  obtain ⟨x, hx, hg, hsp⟩ := h.outbox
  refine tried_rows (p := fun e => e.status == .pending && decide (e.availableAt ≤ x.clock)) (fun e he => ?_)
    (Table.forall₂_take hg.ids (fun e he e' he' => ?_) hk) (Table.forall₂_take hg.ids (fun e he e' he' hm => ?_) hk)
  · by_cases hst : e.status = .pending
    · simp [OutboxEvent.triesLeft, hst, hdue x hx e he hst]
    · simp [OutboxEvent.triesLeft, hst]
  · obtain ⟨z, hz, ha⟩ := hg.ages _ e (Table.find_of_mem he)
    rw [he'] at hz
    cases hz
    exact ha.less
  · have hpre : (d.outbox.rows.take k).filter _ <+: d.outbox.rows.filter _ :=
      (List.take_prefix k d.outbox.rows).filter fun e => e.status == .pending && decide (e.availableAt ≤ x.clock)
    obtain ⟨z, hz, hs⟩ := hsp _ e (Table.find_of_mem he) ((hpre.take 100).subset hm)
    rw [he'] at hz
    cases hz
    exact hs

theorem length_waiting (d : DB) : (d.waiting P k).length = (d.outbox.rows.take k).countP
    fun e => e.status == .pending := by
  rw [DB.waiting, List.length_filterMap_eq_countP]
  refine List.countP_congr fun e _ => ?_
  by_cases hst : e.status = .pending <;> simp [OutboxEvent.triesLeft, hst]

theorem waiting_le (d : DB) : ∀ n ∈ d.waiting P k, n ≤ P.retries := by
  intro n hn
  obtain ⟨e, -, he⟩ := List.mem_filterMap.mp hn
  unfold OutboxEvent.triesLeft at he
  split at he <;> cases he
  exact Nat.sub_le ..

/-- What a serial run from `c` has made of the first `k` rows of the outbox. -/
structure Worked (P : Params) (c : Conf) (k : Nat) (b : Conf) : Prop where
  serial : (sys P).Serial Init b
  started : c.procs.length ≤ b.procs.length
  clock : c.world.sh.ext.clock ≤ b.world.sh.ext.clock
  grown : c.world.sh.db.Grown P b.world.sh.db
  rounds : Backlog.Rounds 100 (batches c b) (c.world.sh.db.waiting P k) (b.world.sh.db.waiting P k)

theorem Worked.due (h : Worked P c k b) (hk : k ≤ c.world.sh.db.outbox.rows.length)
    (hdue : ∀ e ∈ c.world.sh.db.outbox.rows.take k, e.status = .pending → e.availableAt ≤ c.world.sh.ext.clock) :
    ∀ e ∈ b.world.sh.db.outbox.rows.take k, e.status = .pending → e.availableAt ≤ c.world.sh.ext.clock := by
  intro e he hst
  obtain ⟨i, hi, hget⟩ := List.mem_iff_getElem.mp he
  simp only [List.length_take, Nat.lt_min] at hi
  have hic : i < c.world.sh.db.outbox.rows.length := Nat.lt_of_lt_of_le hi.1 hk
  obtain ⟨y, hy, hfind⟩ := Table.find_place h.grown.ids (List.getElem?_eq_getElem hic)
  rw [List.getElem_take] at hget
  rw [List.getElem?_eq_getElem hi.2, hget] at hy
  cases hy
  have hmem : c.world.sh.db.outbox.rows[i] ∈ c.world.sh.db.outbox.rows.take k :=
    List.mem_take_iff_getElem.mpr ⟨i, by omega, rfl⟩
  obtain ⟨z, hz, ha⟩ := h.grown.ages _ _ (Table.find_of_mem (List.getElem_mem hic))
  rw [hfind] at hz
  cases hz
  obtain ⟨n, hn, -⟩ := ha.less (P.retries - e.attemptCount) (by simp [OutboxEvent.triesLeft, hst])
  have hpending : c.world.sh.db.outbox.rows[i].status = .pending := by
    unfold OutboxEvent.triesLeft at hn
    split at hn
    · assumption
    · cases hn
  rw [ha.availableAt]
  exact hdue _ hmem hpending

theorem Worked.env (h : Worked P c k b) (hs : (sys P).Step b b') (hp : b'.procs = b.procs)
    (hd : b'.world.sh.db = b.world.sh.db) : Worked P c k b' := by
  obtain ⟨hser, hst, hcl, hg, hr⟩ := h
  obtain ⟨c₀, h₀, hrun⟩ := hser
  refine ⟨⟨c₀, h₀, hrun.tail ⟨hs, .inl (by rw [hp])⟩⟩, hp ▸ hst, Nat.le_trans hcl (step_clock hs), hd ▸ hg, ?_⟩
  rw [batches, hp, hd]
  exact hr

/-- One more call, up to any of its steps. -/
theorem Worked.operation {call : Call} (h : Worked P c k b) (hk : k ≤ c.world.sh.db.outbox.rows.length)
    (hdue : ∀ e ∈ c.world.sh.db.outbox.rows.take k, e.status = .pending → e.availableAt ≤ c.world.sh.ext.clock)
    (ho : (sys P).Operation call b b') : Worked P c k b' := by
  have hseq := serial_calls h.serial
  have hser : (sys P).Serial Init b' := by
    obtain ⟨c₀, h₀, hrun⟩ := h.serial
    exact ⟨c₀, h₀, hrun.trans ho.serially⟩
  have hkb : k ≤ b.world.sh.db.outbox.rows.length := by
    have := h.grown.ids.length_le
    simp only [List.length_map] at this
    exact Nat.le_trans hk this
  have hg : b.world.sh.db.Grown P b'.world.sh.db :=
    (ho.sequential hseq (Q := DB.Grown P) (.refl _)
      fun _ => solo_grown (reachable_inv (Serial.reachable h.serial)).db call).store
  -- what the call has come to
  obtain ⟨p, o, hprocs, -, hp, hx⟩ := ho.answered
    (J := fun x => c.world.sh.ext.clock ≤ x.clock) (L := fun _ => True)
    (Φ := fun r d' _ => call = .batch → r = .ok () →
      Batched (fun x => c.world.sh.ext.clock ≤ x.clock) P b.world.sh.db d') hseq
    (fun hs hx => Nat.le_trans hx (step_clock hs)) h.clock fun _ => by
      by_cases hcall : call = .batch
      · subst hcall
        exact alone_imp (fun _ _ => trivial) (alone_mono (fun _ _ _ hr _ hok => hr.2 hok) within_batch)
      · exact alone_imp (fun _ _ => trivial) (alone_outside (fun _ _ => trivial)
          (alone_mono (fun _ _ _ _ he => absurd he hcall)
          (solo_grown (reachable_inv (Serial.reachable h.serial)).db call)))
  refine ⟨hser, by rw [hprocs]; simp [Nat.le_succ_of_le h.started], hx, h.grown.trans hg, ?_⟩
  rw [batches, hprocs, List.drop_append_of_le_length h.started, List.countP_append, List.countP_singleton]
  by_cases hret : returnedBatch ⟨call, p⟩ = true
  · obtain ⟨rfl, rfl⟩ := returnedBatch_eq hret
    rw [if_pos hret]
    exact h.rounds.round ((hp rfl rfl).tried hkb fun x hx e he hst => Nat.le_trans (h.due hk hdue e he hst) hx)
  · rw [if_neg hret]
    exact h.rounds.between (hg.lowered hkb)

/-- **No event starves**: an event with `before` pending ones before it, all of them due,
is published or given up when so many batches have returned. -/
theorem outbox_worked_off (hc : (sys P).Serial Init c) (hq : c.Quiet) {i : Nat} {e : OutboxEvent}
    (he : c.world.sh.db.outbox.rows[i]? = some e)
    (hdue : ∀ x ∈ c.world.sh.db.outbox.rows.take (i + 1), x.status = .pending →
      x.availableAt ≤ c.world.sh.ext.clock)
    {before : Nat} (hbefore : (c.world.sh.db.outbox.rows.take i).countP (·.status == .pending) = before)
    (hr : ReflTransGen (sys P).SerialStep c c') (hn : (P.retries + 1) * (before / 100 + 1) ≤ batches c c') :
    ∃ e', c'.world.sh.db.outbox.find e.id = some e' ∧ e'.status ≠ .pending := by
  obtain ⟨hi, hei⟩ := List.getElem?_eq_some_iff.mp he
  have hstart : Worked P c (i + 1) c :=
    ⟨hc, Nat.le_refl _, Nat.le_refl _, .refl _, by simpa [batches] using Backlog.Rounds.refl⟩
  have hend : Worked P c (i + 1) c' :=
    serial_calls_induct hq hstart Worked.env (fun h ho => h.operation hi hdue ho) hr
  have hnil : c'.world.sh.db.waiting P (i + 1) = [] := by
    refine hend.rounds.worked_off (waiting_le _) ?_ hn
    rw [length_waiting, List.take_add_one, List.countP_append, hbefore, he]
    have := List.countP_le_length (p := fun x : OutboxEvent => x.status == .pending) (l := (some e).toList)
    simp only [Option.toList_some, List.length_singleton] at this ⊢
    omega
  obtain ⟨e', he', hfind⟩ := Table.find_place hend.grown.ids he
  refine ⟨e', hfind, fun hst => ?_⟩
  have hmem : e' ∈ c'.world.sh.db.outbox.rows.take (i + 1) := by
    obtain ⟨hi', rfl⟩ := List.getElem?_eq_some_iff.mp he'
    exact List.mem_take_iff_getElem.mpr ⟨i, by omega, rfl⟩
  have := List.filterMap_eq_nil_iff.mp hnil e' hmem
  simp [OutboxEvent.triesLeft, hst] at this

end

def revoked : List (Turn Move) := .other (.call (.revoke 1 7)) :: steps 0 12

def outageBatch (i : Nat) : List (Turn Move) := .other (.call .batch) :: steps i 2 ++ .run i false :: steps i 3

def fourBatches : List (Turn Move) := outageBatch 1 ++ outageBatch 2 ++ outageBatch 3 ++ outageBatch 4

theorem outbox_worked_off_outage : ∃ c c' e e', (sys demo).Serial Init c ∧ ReflTransGen (sys demo).SerialStep c c' ∧
    batches c c' = 4 ∧ c.world.sh.db.outbox.rows[0]? = some e ∧ e.status = .pending ∧
    c'.world.sh.db.outbox.find e.id = some e' ∧ e'.status ≠ .pending := by
  have h₀ : Initial Init (fresh demoDB demoExt) :=
    ⟨rfl, rfl, fun _ => rfl, fun _ => rfl, rfl, rfl, rfl, rfl, rfl, rfl, rfl, fun _ => rfl, rfl, rfl⟩
  have hplay : (playIf (moves demo) serially revoked (fresh demoDB demoExt)).any (fun c =>
      c.procs.all (·.prog.ended) && (c.world.sh.db.outbox.rows[0]?).any (fun e => e.status == .pending &&
          decide (e.availableAt ≤ c.world.sh.ext.clock)) &&
        (playIf (moves demo) serially fourBatches c).any fun c' => batches c c' == 4) = true := by decide +kernel
  obtain ⟨c, hc, hφ⟩ := (Option.any_eq_true _ _).mp hplay
  simp only [Bool.and_eq_true, Option.any_eq_true, List.all_eq_true, beq_iff_eq, decide_eq_true_eq] at hφ
  obtain ⟨⟨hq, e, he, hst, hat⟩, c', hc', hn⟩ := hφ
  have hser : (sys demo).Serial Init c := ⟨_, h₀, playIf_runs _ (Q := (sys demo).SerialStep) serially_step hc⟩
  have hr : ReflTransGen (sys demo).SerialStep c c' := playIf_runs _ (Q := (sys demo).SerialStep) serially_step hc'
  have hdue : ∀ x ∈ c.world.sh.db.outbox.rows.take (0 + 1), x.status = .pending →
      x.availableAt ≤ c.world.sh.ext.clock := by
    intro x hx _
    rw [List.take_add_one, he, List.take_zero] at hx
    cases List.mem_singleton.mp hx
    exact hat
  obtain ⟨e', he', hst'⟩ := outbox_worked_off hser hq he hdue rfl hr (by rw [hn, List.take_zero]; decide)
  exact ⟨c, c', e, e', hser, hr, hn, he, hst, he', hst'⟩

end Veyaan
