import Veyaan.Lib.Follows
import Veyaan.Schedule
import Veyaan.Serial.Base

/-!
# A run of the scheduler

What `run_tasks` is for: every pairing request and approval whose time is over
expires, and so do a hundred of the overdue commands, with their tasks. The
counts are logged with a keyword argument, which a standard-library logger
refuses. Then the first row that expires takes the whole transaction back, so a
run does its work exactly when there is none.
-/

open Relation (ReflTransGen)

namespace Veyaan

open Sys

/-! ## The purpose of a run -/

def DB.overdue (d : DB) (t : Time) : List Command :=
  d.commands.rows.filter fun c => decide (c.state ∉ terminalStates) && c.expiresAt.any (· < t)

def PairingRequest.expireAt (t : Time) (p : PairingRequest) : PairingRequest :=
  if p.status = .pending ∧ p.expiresAt < t then { p with status := .expired } else p

def Approval.expireAt (t : Time) (a : Approval) : Approval :=
  if a.status = .pending ∧ a.expiresAt < t then { a with status := .expired } else a

structure Swept (t₁ t₂ t₃ : Time) (d d' : DB) : Prop where
  pairings : ∀ id, d'.pairings.find id = (d.pairings.find id).map (·.expireAt t₁)
  approvals : ∀ id, d'.approvals.find id = (d.approvals.find id).map (·.expireAt t₂)
  /-- A hundred of the overdue commands expire, or all of them, and no other. -/
  commands : ∃ ids : List UUID, ids.Nodup ∧ ids.length = min (d.overdue t₃).length 100 ∧
    (∀ id ∈ ids, (∃ c ∈ d.overdue t₃, c.id = id) ∧ (∃ c, d'.commands.find id = some c ∧ c.state = .expired) ∧
      ∃ t, d'.tasks.find id = some t ∧ t.state = .failed) ∧
    ∀ id ∉ ids, d'.commands.find id = d.commands.find id ∧ d'.tasks.find id = d.tasks.find id ∧
      d'.history id = d.history id
  devices : d'.devices = d.devices
  credentials : d'.credentials = d.credentials
  stops : d'.stops = d.stops
  outbox : d'.outbox = d.outbox
  audits : d'.audits = d.audits

structure NothingDue (d : DB) (t : Time) : Prop where
  pairings : ∀ p ∈ d.pairings.rows, p.status = .pending → ¬ p.expiresAt < t
  approvals : ∀ a ∈ d.approvals.rows, a.status = .pending → ¬ a.expiresAt < t
  commands : d.overdue t = []

section
variable {d : DB} {t t₁ t₂ t₃ : Time}

theorem overdue_mono {t' : Time} (h : t ≤ t') {c : Command} (hc : c ∈ d.overdue t) : c ∈ d.overdue t' := by
  simp only [DB.overdue, List.mem_filter, Bool.and_eq_true, Option.any_eq_true, decide_eq_true_eq] at hc ⊢
  obtain ⟨hm, hst, e, he, hlt⟩ := hc
  exact ⟨hm, hst, e, he, Nat.lt_of_lt_of_le hlt h⟩

theorem NothingDue.swept (h : NothingDue d t) : Swept t t t d d where
  pairings id := by
    cases hp : d.pairings.find id with
    | none => rfl
    | some p =>
      have := h.pairings p (Table.mem_of_find hp)
      simp only [Option.map_some, PairingRequest.expireAt, Option.some.injEq]
      rw [if_neg fun hc => this hc.1 hc.2]
  approvals id := by
    cases ha : d.approvals.find id with
    | none => rfl
    | some a =>
      have := h.approvals a (Table.mem_of_find ha)
      simp only [Option.map_some, Approval.expireAt, Option.some.injEq]
      rw [if_neg fun hc => this hc.1 hc.2]
  commands := ⟨[], List.nodup_nil, by simp [h.commands], by simp, fun _ _ => ⟨rfl, rfl, rfl⟩⟩
  devices := rfl
  credentials := rfl
  stops := rfl
  outbox := rfl
  audits := rfl

/-- A run that leaves the store as it is had nothing to do. -/
theorem Swept.nothingDue (h : Swept t₁ t₂ t₃ d d) (h₁ : t ≤ t₁) (h₂ : t ≤ t₂) (h₃ : t ≤ t₃) : NothingDue d t where
  pairings p hp hst hlt := by
    have hf := Table.find_of_mem hp
    have := h.pairings (key p)
    rw [hf, Option.map_some, Option.some.injEq, PairingRequest.expireAt,
      if_pos ⟨hst, Nat.lt_of_lt_of_le hlt h₁⟩] at this
    rw [this] at hst
    cases hst
  approvals a ha hst hlt := by
    have hf := Table.find_of_mem ha
    have := h.approvals (key a)
    rw [hf, Option.map_some, Option.some.injEq, Approval.expireAt, if_pos ⟨hst, Nat.lt_of_lt_of_le hlt h₂⟩] at this
    rw [this] at hst
    cases hst
  commands := by
    refine List.eq_nil_iff_forall_not_mem.mpr fun c hc => ?_
    obtain ⟨ids, -, hlen, hids, -⟩ := h.commands
    have hpos : 0 < (d.overdue t₃).length := List.length_pos_of_mem (overdue_mono h₃ hc)
    cases ids with
    | nil => simp only [List.length_nil] at hlen; omega
    | cons id _ =>
      obtain ⟨⟨c, hc, rfl⟩, ⟨c', hc', hst⟩, -⟩ := hids id (List.mem_cons_self ..)
      simp only [DB.overdue, List.mem_filter, Bool.and_eq_true, decide_eq_true_eq] at hc
      have hf : d.commands.find c.id = some c := Table.find_of_mem hc.1
      rw [hf] at hc'
      cases hc'
      exact hc.2.1 (by rw [hst]; decide)

end

/-! ## A logger that raises -/

section
variable {P : Params}

theorem rets_expireAll (hP : P.loggerRaises = true) : ∀ cs : List Command, (expireAll P cs).Rets (· = cs.length)
  | [] => rfl
  | c :: cs => by
    have hone : (expireCommand P c).Rets (· = 1) := by
      refine Prog.Rets.bind (Prog.rets_any _) fun r _ => ?_
      split
      · rfl
      · simp [logKeywords, hP, Prog.Rets]
    refine hone.bind fun m hm => (rets_expireAll hP cs).bind fun n hn => ?_
    simp only [Prog.pure_eq, Prog.Rets, List.length_cons]
    omega

theorem plain_within : Plain (Within (D := DB) (K := Key) (W := Write) (T := Label) (ε := Err) (E := Eff)) where
  read _ _ := trivial
  forUpdate _ _ _ := trivial
  skipLocked _ _ _ := trivial
  stmt _ _ _ := trivial
  now := trivial
  uuid4 := trivial
  token := trivial

section
variable {fails : Bool} {I : DB → Prop} {α : Type} {f : Unit → Op α}
    {Q : Except Err α → DB → Open DB → Prop} {d : DB}
  {o : Open DB}

/-- The count of something that was expired is not logged but raised. -/
theorem solo_logCount_raises (hP : P.loggerRaises = true) {n : Nat} (hraise : Q (.error .typeError) d o)
    (hk : n = 0 → solo P fails I (f ()) Q d o) : solo P fails I ((logCount P n).bind f) Q d o := by
  unfold logCount
  split
  · rename_i hn
    exact hk hn
  · simp only [logKeywords, hP, if_true]
    exact hraise

theorem solo_updateAll (hP : P.loggerRaises = true) {ρ : Type}
    {ks : Time → DB → List Key} {sel : Time → DB → List ρ}
    {g : ρ → Write} (hraise : ∀ e o, Q (.error e) d o) (hk : solo P fails I (f ()) Q d (.seeing o.view)) :
    solo P fails I (((effect .now).bind fun t =>
      (Prog.call (.stmt (ks t) fun d => .ok ((sel t d).map g)) : Op Nat)).bind
      fun n => (logCount P n).bind f) Q d o := by
  refine alone_bind (solo_now fun t => ⟨fun _ => hraise _ _, fun _ => ?_⟩)
  refine solo_logCount_raises hP (hraise _ _) fun hn => ?_
  have hnil : (sel t o.view).map g = [] := List.length_eq_zero_iff.mp hn
  rw [hnil]
  exact hk

end

theorem solo_runTasks_raises (hP : P.loggerRaises = true) (fails : Bool) (d : DB) :
    solo P fails (· = d) (runTasks P) (fun _ d' _ => d' = d) d (.idle d) := by
  refine solo_withSession ?_
  refine solo_updateAll hP (fun _ _ => rfl) (solo_updateAll hP (fun _ _ => rfl) ?_)
  refine alone_bind (solo_now fun t => ⟨fun _ => rfl, fun _ => ?_⟩)
  simp only [Prog.ofExcept_ok, Prog.ret_bind]
  generalize List.take 100 _ = cs
  cases cs with
  | nil => exact ⟨fun _ => rfl, fun _ => ⟨rfl, fun _ => rfl, fun _ => ⟨rfl, rfl⟩⟩⟩
  | cons c cs =>
    refine alone_within (φ := (· = (c :: cs).length)) (fun n o hn => ?_) (fun _ _ => rfl) plain_within.expireAll
      (rets_expireAll hP _)
    refine solo_logCount_raises hP rfl fun h0 => ?_
    rw [h0] at hn
    cases hn

theorem exec_clock {i : Nat} {ch : Bool} {β : Type} {s : Stmt β} {w w' : Wd} {r}
    (h : (sys P).exec i ch s w = some (r, w')) : w'.sh.ext.clock = w.sh.ext.clock := by
  rcases exec_ext h with ⟨e, -, hx, -⟩ | ⟨hx, -⟩
  · rw [hx]
    show (Eff.handle ch e w.sh.ext).2.1.clock = _
    exact handle_clock ..
  · rw [hx]

theorem alone_clock {fails : Bool} {i : Nat} {α : Type} {p : Op α} {w w' : Wd} {a}
    (h : (sys P).Alone fails i p w a w') :
    w.sh.ext.clock ≤ w'.sh.ext.clock := by
  induction h with
  | ret => exact Nat.le_refl _
  | throw => exact Nat.le_refl _
  | op _ he _ ih => rw [exec_clock he] at ih; exact ih
  | env hx _ ih =>
    refine Nat.le_trans ?_ ih
    cases hx with
    | clock ht => exact ht
    | _ => exact Nat.le_refl _

/-- `run_tasks` runs `n` times, one run after the other. -/
inductive TasksRepeated (P : Params) (i : Nat) : Nat → Wd → Wd → Prop
  | zero {w} : TasksRepeated P i 0 w w
  | succ {n w w' w'' r} : (sys P).Alone false i (runTasks P) w r w' → TasksRepeated P i n w' w'' →
      TasksRepeated P i (n + 1) w w''

/-- What is promised of the runs from a store: one run sweeps it, and enough of
them leave none of the commands that are overdue now without an end. -/
structure Sweeps (P : Params) (i : Nat) (d : DB) (x : Ext) : Prop where
  once : ∀ r w, (sys P).Alone false i (runTasks P) (fresh d x).world r w →
    ∃ t₁ t₂ t₃, x.clock ≤ t₁ ∧ t₁ ≤ t₂ ∧ t₂ ≤ t₃ ∧
    t₃ ≤ w.sh.ext.clock ∧ Swept t₁ t₂ t₃ d w.sh.db
  enough : ∀ n w, TasksRepeated P i n (fresh d x).world w → (d.overdue x.clock).length ≤ 100 * n →
    ∀ c ∈ d.overdue x.clock, ∃ c', w.sh.db.commands.find c.id = some c' ∧ c'.state ∈ terminalStates

theorem runTasks_keeps (hP : P.loggerRaises = true) {d : DB} {x : Ext} {i : Nat} {r w}
    (hr : (sys P).Alone false i (runTasks P) (fresh d x).world r w) : w.sh.db = d := by
  obtain ⟨d', o', hm, hd⟩ := alone_sound (fresh_matches d x i) (solo_runTasks_raises hP false d) hr
  exact hm.db.trans hd

theorem Sweeps.nothingDue (hP : P.loggerRaises = true) {d : DB} {x : Ext} {i : Nat} (h : Sweeps P i d x) :
    NothingDue d x.clock := by
  obtain ⟨r, w, hr⟩ := alone_ends (p := runTasks P) (fresh_matches (P := P) d x i)
  obtain ⟨t₁, t₂, t₃, h₁, h₂, h₃, -, hs⟩ := h.once r w hr
  rw [runTasks_keeps hP hr] at hs
  have h₂' : x.clock ≤ t₂ := Nat.le_trans h₁ h₂
  exact hs.nothingDue h₁ h₂' (Nat.le_trans h₂' h₃)

/-- **Scheduler runs.** With a logger that refuses keyword arguments a run sweeps
the store exactly when nothing is due; whatever is due stays as it is for ever. -/
theorem run_tasks_sweeps_iff (hP : P.loggerRaises = true) (d : DB) (x : Ext) (i : Nat) :
    Sweeps P i d x ↔ NothingDue d x.clock := by
  refine ⟨fun h => h.nothingDue hP, fun h => ⟨fun r w hr => ?_, fun n w _ _ c hc => ?_⟩⟩
  · refine ⟨x.clock, x.clock, x.clock, Nat.le_refl _, Nat.le_refl _, Nat.le_refl _, alone_clock hr, ?_⟩
    rw [runTasks_keeps hP hr]
    exact h.swept
  · rw [h.commands] at hc
    cases hc

def forgotten : DB :=
  { demoDB with pairings := ⟨[⟨3, laptop, "", 0, none, .pending, 10, none⟩], by decide⟩ }

theorem run_tasks_sweeps_iff_demo : raising.loggerRaises = true ∧ Sweeps raising 0 forgotten demoExt :=
  ⟨rfl, (run_tasks_sweeps_iff rfl forgotten demoExt 0).mpr
    ⟨by simp [forgotten, demoExt], by simp [forgotten, demoDB, Table.empty], rfl⟩⟩

/-- At time `11` it is due, and a run that nothing disturbs leaves it pending. -/
theorem run_tasks_sweeps_not : ¬ Sweeps raising 0 forgotten { demoExt with clock := 11 } := by
  intro h
  have := (h.nothingDue rfl).pairings
  exact this ⟨3, laptop, "", 0, none, .pending, 10, none⟩ (by simp [forgotten]) rfl (by decide)

end

end Veyaan
