import Veyaan.Decisions
import Mathlib.Data.List.Chain

/-!
# Activations and releases

The stop row of an owner is switched on and off under its lock, or, when there
is no row yet, under the unique index on the owner. Every switch commits the
row together with one audit row and one event, so the audit log of the owner is
the history of its row. An activation of a stop that is active already only adds
an event.
-/

namespace Veyaan

open Sys

/-- What the audit rows say of the owner's stop, in the order of their commits:
`true` for `EMERGENCY_STOP_ACTIVATED`, `false` for `EMERGENCY_STOP_RELEASED`. -/
def DB.stopAudits (d : DB) (o : UUID) : List Bool := (d.audits.filterMap AuditLog.stop).filterMap fun x =>
  if x.1 = o then some x.2 else none

def DB.stopEvents (d : DB) (o : UUID) (on : Bool) : Nat := d.outbox.rows.countP (·.stop == some (o, on))

structure StopHistory (d : DB) (o : UUID) : Prop where
  unique : (d.stops.rows.filter (·.ownerId == o)).length ≤ 1
  starts : ∀ b, (d.stopAudits o).head? = some b → b = true
  alternates : (d.stopAudits o).IsChain (· ≠ ·)
  active : d.stopActive o = true ↔ (d.stopAudits o).getLast? = some true
  whileActive : ∀ r, d.stops.find o = some r → r.active = true → r.releasedAt = none
  released : (d.stopAudits o).getLast? = some false →
    ∃ r, d.stops.find o = some r ∧ r.active = false ∧ r.releasedAt ≠ none
  releasedEvents : d.stopEvents o false = (d.stopAudits o).count false
  activatedEvents : (d.stopAudits o).count true ≤ d.stopEvents o true

/-- What a step adds to the history: nothing but events of further activations, or one
audit row and with it one event that says the same. -/
def StopStep (d d' : DB) (o : UUID) : Prop :=
  (d'.stopAudits o = d.stopAudits o ∧ d'.stopEvents o false = d.stopEvents o false ∧
    d.stopEvents o true ≤ d'.stopEvents o true) ∨
  ∃ on, d'.stopAudits o = d.stopAudits o ++ [on] ∧ d'.stopEvents o on = d.stopEvents o on + 1 ∧
    d'.stopEvents o (!on) = d.stopEvents o (!on)

section
variable {P : Params} {c c' : Conf} {s : St} {i : Nat} {d d' : DB} {o : UUID} {on : Bool}

/-! ## What a transaction adds -/

theorem stopAudits_append {a : AuditLog} (h : d'.audits = d.audits ++ [a]) :
    d'.stopAudits o = d.stopAudits o ++ (a.stop.toList.filterMap fun x => if x.1 = o then some x.2 else none) := by
  rw [DB.stopAudits, h, List.filterMap_append, List.filterMap_append]
  cases ha : a.stop <;> simp [DB.stopAudits, ha]

theorem stopEvents_new {e : OutboxEvent} (hn : d.outbox.find e.id = none) (h : d'.outbox = d.outbox.put e) :
    d'.stopEvents o on = d.stopEvents o on + if e.stop = some (o, on) then 1 else 0 := by
  rw [DB.stopEvents, h, Table.countP_put (by rw [key_outbox, hn]; simp), key_outbox, hn]
  simp [DB.stopEvents]

theorem OutboxEvent.Same.stop {e e' : OutboxEvent} (h : e.Same e') : e'.stop = e.stop := by
  rw [OutboxEvent.stop, OutboxEvent.stop, h.eventType, h.aggregateId]

theorem stopEvents_same {e e' : OutboxEvent} (he : d.outbox.find e'.id = some e) (hs : e.Same e')
    (h : d'.outbox = d.outbox.put e') : d'.stopEvents o on = d.stopEvents o on := by
  rw [DB.stopEvents, h, Table.countP_put, key_outbox, he]
  · simp [DB.stopEvents]
  · intro a ha
    rw [key_outbox, he] at ha
    cases ha
    rw [hs.stop]

theorem stop_of_isQueued {e : OutboxEvent} (h : e.isQueued = true) : e.stop = none := by
  cases ht : e.eventType <;> simp_all [OutboxEvent.isQueued, OutboxEvent.stop, EventType.hasQueued]

structure StopFrame (d d' : DB) (o : UUID) : Prop where
  stop : d'.stops.find o = d.stops.find o
  audits : d'.stopAudits o = d.stopAudits o
  released : d'.stopEvents o false = d.stopEvents o false
  activated : d.stopEvents o true ≤ d'.stopEvents o true

theorem StopFrame.refl (d : DB) (o : UUID) : StopFrame d d o := ⟨rfl, rfl, rfl, Nat.le_refl _⟩

theorem StopFrame.trans {d'' : DB} (h : StopFrame d d' o) (h' : StopFrame d' d'' o) : StopFrame d d'' o :=
  ⟨h'.stop.trans h.stop, h'.audits.trans h.audits, h'.released.trans h.released, h.activated.trans h'.activated⟩

theorem StopFrame.of_queued {e : OutboxEvent} (hs : d'.stops = d.stops) (ha : d'.stopAudits o = d.stopAudits o)
    (hn : d.outbox.find e.id = none) (hq : e.isQueued = true) (h : d'.outbox = d.outbox.put e) :
    StopFrame d d' o := by
  have he : ∀ on, d'.stopEvents o on = d.stopEvents o on := fun on => by
    rw [stopEvents_new hn h, stop_of_isQueued hq]
    simp
  exact ⟨by rw [hs], ha, he false, (he true).ge⟩

theorem Write.Allowed.stopFrame {t : Tag} {w : Write} (h : Write.Allowed i t s d w)
    (ht : ∀ on, t.stop ≠ some (o, on)) :
    StopFrame d (w.apply d) o := by
  cases h with
  | @stop r hr =>
    have hne : r.ownerId ≠ o := fun he => ht r.active (by rw [hr, he])
    exact ⟨Table.find_put_ne _ hne, rfl, rfl, Nat.le_refl _⟩
  | @audit a _ ha =>
    refine ⟨rfl, ?_, rfl, Nat.le_refl _⟩
    rw [stopAudits_append (a := a) rfl, ha]
    cases hs : t.stop with
    | none => simp
    | some x =>
      obtain ⟨p, b⟩ := x
      have hne : p ≠ o := fun he => ht b (by rw [hs, he])
      simp [hne]
  | @notice e hn _ _ he =>
    have hf : t.notice ≠ some (o, false) := fun hf => by
      cases t with
      | release p => exact ht false hf
      | _ => simp [Tag.notice] at hf
    have hev : ∀ on, ((Write.outbox e).apply d).stopEvents o on = _ := fun on => stopEvents_new hn rfl
    refine ⟨rfl, rfl, ?_, ?_⟩
    · rw [hev, he, if_neg hf, Nat.add_zero]
    · rw [hev]; exact Nat.le_add_right ..
  | outbox he hs =>
    exact ⟨rfl, rfl, stopEvents_same he hs rfl, (stopEvents_same he hs rfl).ge⟩
  | _ => exact ⟨rfl, rfl, rfl, Nat.le_refl _⟩

theorem Tx.stopFrame {t : Tag} (h : Tx P s i t d) (ht : ∀ on, t.stop ≠ some (o, on)) : StopFrame s.db d o := by
  cases h with
  | create h =>
    have ha : d.stopAudits o = s.db.stopAudits o := by rw [DB.stopAudits, h.audits]; rfl
    rcases h.form with ⟨-, -, hout, -⟩ | ⟨-, -, -, e, hn, hq, -, -, -, hout⟩
    · have he : ∀ on, d.stopEvents o on = s.db.stopEvents o on := fun on => by rw [DB.stopEvents, hout]; rfl
      exact ⟨by rw [h.stops], ha, he false, (he true).ge⟩
    · exact .of_queued h.stops ha hn hq hout
  | approve _ h =>
    obtain ⟨r, hr, -, hs⟩ := h.audits
    refine .of_queued h.stops ?_ h.new h.isQueued h.outbox
    rw [stopAudits_append hr, hs]
    simp
  | chain h =>
    exact h.keeps (I := fun d => StopFrame s.db d o) (fun _ _ hw hf => hf.trans (hw.stopFrame ht)) (.refl _ _)

/-- A transaction that sets the owner's stop switches it. -/
theorem Tx.switched {t : Tag} (h : Tx P s i t d) (ht : t.stop = some (o, on)) : Switched s.db d o on := by
  cases h with
  | create => cases ht
  | approve => cases ht
  | chain _ hcl =>
    cases t with
    | activate => cases ht; exact hcl.1
    | release => cases ht; exact hcl
    | _ => cases ht

theorem Switched.audits (h : Switched d d' o on) : d'.stopAudits o = d.stopAudits o ++ [on] := by
  obtain ⟨a, ha, hd⟩ := h.audit
  rw [stopAudits_append hd, ha]
  simp

theorem Switched.events (h : Switched d d' o on) (b : Bool) :
    d'.stopEvents o b = d.stopEvents o b + if on = b then 1 else 0 := by
  obtain ⟨e, hn, he, hd⟩ := h.event
  rw [stopEvents_new hn hd, he]
  simp

theorem Switched.row (h : Switched d d' o on) :
    ∃ r, d'.stops.find o = some r ∧ r.active = on ∧ (r.releasedAt = none ↔ on = true) := by
  obtain ⟨r, ho, ha, hr, hd⟩ := h.stop
  exact ⟨r, by rw [hd, ← ho]; exact Table.find_put_self .., ha, hr⟩

theorem step_stop (h : Reachable P c) (hs : (sys P).Step c c') (o : UUID) :
    StopFrame c.world.sh.db c'.world.sh.db o ∨ ∃ on, Switched c.world.sh.db c'.world.sh.db o on := by
  rcases step_tx h hs with hd | ⟨i, t, s, -, hd, -, htx⟩
  · rw [hd]; exact .inl (.refl _ _)
  rw [← hd]
  by_cases ht : ∃ on, t.stop = some (o, on)
  · obtain ⟨on, ht⟩ := ht
    exact .inr ⟨on, htx.switched ht⟩
  · exact .inl (htx.stopFrame fun on hon => ht ⟨on, hon⟩)

/-! ## The history -/

theorem filter_key_le_one (d : DB) (o : UUID) : (d.stops.rows.filter (·.ownerId == o)).length ≤ 1 := by
  have hn : ((d.stops.rows.filter (·.ownerId == o)).map key).Nodup :=
    d.stops.nodup.sublist (List.filter_sublist.map _)
  have hmem : ∀ x ∈ d.stops.rows.filter (·.ownerId == o), x.ownerId = o := fun x hx => by
    simpa using (List.mem_filter.mp hx).2
  generalize d.stops.rows.filter (·.ownerId == o) = l at hn hmem ⊢
  match l with
  | [] => simp
  | [_] => simp
  | a :: b :: l =>
    have hab : a.ownerId = b.ownerId := (hmem a (by simp)).trans (hmem b (by simp)).symm
    simp [hab] at hn

theorem stopActive_congr (h : d'.stops.find o = d.stops.find o) : d'.stopActive o = d.stopActive o := by
  rw [DB.stopActive, DB.stopActive, h]

theorem StopHistory.frame (hd : StopHistory d o) (h : StopFrame d d' o) : StopHistory d' o where
  unique := filter_key_le_one d' o
  starts := by rw [h.audits]; exact hd.starts
  alternates := by rw [h.audits]; exact hd.alternates
  active := by rw [h.audits, stopActive_congr h.stop]; exact hd.active
  whileActive := by rw [h.stop]; exact hd.whileActive
  released := by rw [h.audits, h.stop]; exact hd.released
  releasedEvents := by rw [h.audits, h.released]; exact hd.releasedEvents
  activatedEvents := by rw [h.audits]; exact hd.activatedEvents.trans h.activated

/-- The last audit row, if there is one, says the opposite of a switch. -/
theorem StopHistory.last_ne (hd : StopHistory d o) (h : Switched d d' o on) (b : Bool)
    (hb : (d.stopAudits o).getLast? = some b) : b ≠ on := by
  have ha := hd.active
  rw [hb, h.before] at ha
  rintro rfl
  cases b <;> simp at ha

theorem StopHistory.switched (hd : StopHistory d o) (h : Switched d d' o on) : StopHistory d' o := by
  obtain ⟨r, hf, hact, hrel⟩ := h.row
  have hda : d'.stopActive o = on := by rw [DB.stopActive, hf]; exact hact
  refine ⟨filter_key_le_one d' o, ?_, ?_, ?_, ?_, ?_, ?_, ?_⟩
  · intro b hb
    rw [h.audits] at hb
    cases hl : d.stopAudits o with
    | cons x l => exact hd.starts b (by rw [hl] at hb ⊢; simpa using hb)
    | nil =>
      -- the first switch finds the stop inactive
      have hoff : d.stopActive o ≠ true := fun ht => by simpa [hl] using hd.active.mp ht
      rw [h.before] at hoff
      have hon : on = true := by simpa using hoff
      rw [hl] at hb
      simpa [hon] using hb.symm
  · rw [h.audits, List.isChain_append]
    refine ⟨hd.alternates, .singleton _, fun x hx y hy => ?_⟩
    rw [List.head?_cons, Option.mem_some_iff] at hy
    rw [← hy]
    exact hd.last_ne h x hx
  · rw [h.audits, hda, List.getLast?_concat, Option.some.injEq]
  · intro r' hr' ha
    rw [hf] at hr'
    cases hr'
    exact hrel.mpr (hact.symm.trans ha)
  · rw [h.audits, List.getLast?_concat, Option.some.injEq]
    rintro rfl
    exact ⟨r, hf, hact, fun hn => by simpa using hrel.mp hn⟩
  · rw [h.audits, h.events, hd.releasedEvents, List.count_append]
    cases on <;> simp
  · rw [h.audits, h.events, List.count_append]
    have := hd.activatedEvents
    cases on <;> simp <;> omega

theorem stopHistory_init {x : Ext} (h : Init d x) (o : UUID) : StopHistory d o := by
  have ha : d.stopAudits o = [] := by rw [DB.stopAudits, h.audits]; rfl
  have hf : d.stops.find o = none := by rw [h.stops]; rfl
  refine ⟨filter_key_le_one d o, ?_, ?_, ?_, ?_, ?_, ?_, ?_⟩
  · simp [ha]
  · rw [ha]; exact .nil
  · simp [ha, DB.stopActive, hf]
  · simp [hf]
  · simp [ha]
  · rw [ha, DB.stopEvents, h.outbox]; rfl
  · simp [ha]

theorem StopFrame.step (h : StopFrame d d' o) : StopStep d d' o := .inl ⟨h.audits, h.released, h.activated⟩

theorem Switched.step (h : Switched d d' o on) : StopStep d d' o :=
  .inr ⟨on, h.audits, by simp [h.events], by simp [h.events]⟩

/-- **The history of a stop alternates**: in every reachable state the audit rows
of an owner are `ACTIVATED`, `RELEASED` in turn, they say what the owner's only row
says, and each of them was committed with its event. -/
theorem stop_history (h : Reachable P c) (o : UUID) : StopHistory c.world.sh.db o ∧
    ∀ c', (sys P).Step c c' → StopStep c.world.sh.db c'.world.sh.db o := by
  constructor
  · induction h with
    | init h₀ => exact stopHistory_init h₀.init o
    | step h hs ih =>
      rcases step_stop h hs o with hf | ⟨on, hsw⟩
      · exact ih.frame hf
      · exact ih.switched hsw
  · intro c' hs
    rcases step_stop h hs o with hf | ⟨on, hsw⟩
    · exact hf.step
    · exact hsw.step

def switchingRun : List (Turn Move) :=
  .other (.call (.activate 7 "x" 7)) :: .other (.call (.release 7 7)) :: .other (.call (.activate 7 "y" 7)) ::
    steps 0 15 ++ steps 1 13 ++ steps 2 12

theorem stop_history_switching : ∃ c, Reachable demo c ∧ c.world.sh.db.stopAudits 7 = [true, false, true] ∧
    c.world.sh.db.stopActive 7 = true ∧ c.world.sh.db.stopEvents 7 false = 1 := by
  obtain ⟨c, hr, hc⟩ := played (P := demo) (c := demoStart) (t := switchingRun)
    (φ := fun c => c.world.sh.db.stopAudits 7 == [true, false, true]) (by decide +kernel)
  have h : Reachable demo c := Reachable.runs demo_reachable hr
  have ha : c.world.sh.db.stopAudits 7 = [true, false, true] := by simpa using hc
  obtain ⟨hist, -⟩ := stop_history h 7
  exact ⟨c, h, ha, hist.active.mpr (by rw [ha]; rfl), by rw [hist.releasedEvents, ha]; rfl⟩

end

end Veyaan
