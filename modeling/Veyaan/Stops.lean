import Veyaan.Code
import Veyaan.Lib.Calls
import Veyaan.Refine.Sound
import Veyaan.Schedule

/-!
# The emergency stop

While the row of an owner says that the stop is active, `is_active` says so, too:
the cache never holds anything else. What a caller does with that answer is
read off its program.
-/

open Relation (ReflTransGen)

namespace Veyaan

open Sys

/-! ## `is_active` -/

section
variable {P : Params} {c c' : Conf} {i : Nat} {call : Call} {site : Site} {o : UUID}
variable {rest : Except Err Bool → Op Unit} {x : Except Err Bool}

abbrev UnderStop (P : Params) (i : Nat) (call : Call) (o : UUID) (rest : Except Err Bool → Op Unit) :
    Op (Except Err Bool) → Conf → Except Err Bool → Conf → Prop :=
  (sys P).Calling (fun s => s.db.stopActive o = true) i call rest

theorem exec_ask {β : Type} {e : Eff β} {ch : Bool} {w w' : Wd} {r : Except Err β} {v : Ev} {b : Ext → β} {b₀ : β}
    {f : Ext → Ext} (h : (sys P).exec i ch (.eff e) w = some (r, w'))
    (he : ∀ ch x, Eff.handle ch e x = if ch then x.ask [v] (b x) f else (.ok b₀, x, [])) :
    r = .ok b₀ ∨ r = .ok (b w.sh.ext) ∨ r = .error .valkey ∧ (i, v) ∈ w'.sh.trace := by
  simp only [exec] at h
  cases h
  show (Eff.handle ch e w.sh.ext).1 = _ ∨ (Eff.handle ch e w.sh.ext).1 = _ ∨ (Eff.handle ch e w.sh.ext).1 = _ ∧ _
  cases ch with
  | false => exact .inl (by rw [he]; rfl)
  | true =>
    have hh : Eff.handle true e w.sh.ext = w.sh.ext.ask [v] (b w.sh.ext) f := he true _
    rcases ask_cases w.sh.ext [v] (b w.sh.ext) f with ha | ⟨x', -, ha⟩
    · exact .inr (.inl (by rw [hh, ha]))
    · refine .inr (.inr ⟨by rw [hh, ha], ?_⟩)
      simp [sys, hh, ha, World.say, Shared.say]

/-- Under an active stop `is_active` answers `True`, or its query or Valkey raises. -/
theorem underStop_isActive (h : Reachable P c) (hc : UnderStop P i call o rest (isActive site o).attempt c x c') :
    x = .ok true ∨ x = .error .db ∧ (i, Ev.stopRead site o none) ∈ c'.world.sh.trace ∨
      x = .error .valkey ∧ (i, Ev.cacheFailed (some site) o) ∈ c'.world.sh.trace := by
  obtain ⟨c₁, ch, r, w₂, ps, hr₁, -, he, hs, hk⟩ := hc.of_op
  have h₁ := Reachable.runs h hr₁
  have h₂ := Reachable.step h₁ hs
  have hr : r = .ok none ∨ (∃ t, r = .ok (some (.dict (some true) t))) ∨
      r = .error .valkey ∧ (i, Ev.cacheFailed (some site) o) ∈ w₂.sh.trace := by
    rcases exec_ask he (fun _ _ => rfl) with hr | hr | hr
    · exact .inl hr
    · cases hv : c₁.world.sh.ext.cache o with
      | none => exact .inl (by rw [hr, hv])
      | some v =>
        obtain ⟨t, rfl⟩ := (reachable_inv h₁).cache o v hv
        exact .inr (.inl ⟨t, by rw [hr, hv]⟩)
    · exact .inr (.inr hr)
  rcases hr with rfl | ⟨t, rfl⟩ | ⟨rfl, hfail⟩
  · -- the cache knows nothing, and the row is read
    obtain ⟨c₃, ch, r, w₄, ps, hr₃, hstop, he, hs, hk⟩ := hk.of_op
    have h₄ := Reachable.step (Reachable.runs h₂ hr₃) hs
    cases ch with
    | false =>
      simp only [exec] at he
      cases he
      refine .inr (.inl ⟨hk.of_ret, (runs_later h₄ hk.runs).trace.subset ?_⟩)
      exact List.mem_append_right _ (List.mem_singleton.mpr rfl)
    | true =>
      simp only [exec] at he
      cases he
      cases hf : c₃.world.sh.db.stops.find o with
      | none => simp [DB.stopActive, hf] at hstop
      | some stop =>
        have ha : stop.active = true := by simpa [DB.stopActive, hf] using hstop
        simp only [hf, Prog.ofExcept_ok, Prog.ret_bind, ha, if_true, Prog.bind_eq] at hk
        obtain ⟨c₅, ch, r, w₆, ps, hr₅, -, he, hs, hk⟩ := hk.of_op
        have h₆ := Reachable.step (Reachable.runs h₄ hr₅) hs
        rcases exec_ask he (fun _ _ => rfl) with rfl | rfl | ⟨rfl, hfail⟩
        · exact .inl hk.of_ret
        · exact .inl hk.of_ret
        · exact .inr (.inr ⟨hk.of_ret, (runs_later h₆ hk.runs).trace.subset hfail⟩)
  · exact .inl hk.of_ret
  · exact .inr (.inr ⟨hk.of_ret, (runs_later h₂ hk.runs).trace.subset hfail⟩)

end

/-! ## What the callers do -/

/-- The `is_active` query that a statement is. -/
def asks {β : Type} : Stmt β → Option (Site × UUID)
  | .fresh (some (.stopRead s o)) _ => some (s, o)
  | _ => none

inductive Outward where
  | commit
  /-- A call of `publish_js`, for this outbox event. -/
  | publish (e : Option OutboxEvent)
  | send

def Label.outward : Option Label → Option Outward
  | some (.commit _) => some .commit
  | _ => none

theorem Label.Reads.outward {l : Option Label} (h : Label.Reads l) : Label.outward l = none := by
  match l with
  | none => rfl
  | some (.commit t) => exact absurd rfl (h t)
  | some (.stopRead ..) => rfl
  | some (.preDelivery ..) => rfl
  | some (.select _) => rfl
  | some (.handled ..) => rfl
  | some (.transition ..) => rfl

def outward {β : Type} : Stmt β → Option Outward
  | .read l _ => Label.outward l
  | .fresh l _ => Label.outward l
  | .forUpdate l _ _ => Label.outward l
  | .commit _ => some .commit
  | .eff (.publishJs _ e) => some (.publish e)
  | .eff (.publish _) => some (.publish none)
  | .eff (.sendJson ..) => some .send
  | _ => none

def Ev.outward : Ev → Option Outward
  | .committed _ => some .commit
  | .published _ e => some (.publish e)
  | .publishFailed _ e => some (.publish e)
  | .sent .. => some .send
  | .sendFailed .. => some .send
  | _ => none

theorem says_outward {P : Params} {w : Wd} {β : Type} {s : Stmt β} {v : Ev} {x : Outward} (h : (sys P).Says w s v)
    (hv : v.outward = some x) : outward s = some x := by
  have hlabel : ∀ l : Label, ∀ ok d e, (l.see ok d e).outward = some x → Label.outward (some l) = some x := by
    intro l ok d e hl
    cases l <;> exact hl
  cases s with
  | read l q => obtain ⟨l, ok, rfl, rfl⟩ := h; exact hlabel l ok _ _ hv
  | fresh l q => obtain ⟨l, ok, rfl, rfl⟩ := h; exact hlabel l ok _ _ hv
  | forUpdate l sel key => obtain ⟨l, ok, rfl, rfl⟩ := h; exact hlabel l ok _ _ hv
  | commit l =>
    obtain ⟨l, ok, rfl, rfl⟩ := h
    have := hlabel l ok _ _ hv
    cases l <;> first | exact this | cases this
  | stmt ks f => obtain ⟨e, rfl⟩ := h; cases hv
  | skipLocked sel key n => cases h
  | rollback => cases h
  | eff e =>
    obtain ⟨ch, h⟩ := h
    cases e <;> cases ch <;> simp [sys, Eff.handle] at h <;> first
      | (subst h; exact hv)
      | (obtain ⟨-, rfl⟩ := h; exact hv)

def Site.forbids : Site → Outward
  | .create => .commit
  | .decide => .commit
  | .publish e => .publish (some e)
  | .deliver => .send

/-- `is_active`, called at `site`, reads a row that is active. -/
inductive ReadsActive (site : Site) : (β : Type) → Stmt β → Except Err β → Prop
  | intro {o q stop} : stop.active = true →
      ReadsActive site (Option EmergencyStop) (.fresh (some (.stopRead site o)) q) (.ok (some stop))

theorem ReadsActive.asks {site : Site} {β : Type} {s : Stmt β} {r : Except Err β} (h : ReadsActive site β s r) :
    ∃ o, asks s = some (site, o) := by
  cases h with
  | @intro o => exact ⟨o, rfl⟩

theorem not_readsActive {site : Site} {β : Type} {s : Stmt β} {r : Except Err β} (hs : Veyaan.asks s = none) :
    ¬ ReadsActive site β s r := fun h => by
  obtain ⟨o, ho⟩ := h.asks
  rw [hs] at ho
  cases ho

abbrev Unasked (site : Site) (β : Type) (s : Stmt β) : Prop := ∀ o, asks s ≠ some (site, o)

abbrev Permitted (site : Site) (β : Type) (s : Stmt β) : Prop := outward s ≠ some site.forbids

structure Apart (site : Site) (β : Type) (s : Stmt β) : Prop where
  unasked : Unasked site β s
  permitted : Permitted site β s

def refuse (e : Err) : Op Unit := (Prog.call .rollback).bind fun _ => raise e

/-- The answer of `is_active` is cached, and the program goes on with `Q`. -/
def Cached {α : Type} (Q : Op α → Prop) (p : Op α) : Prop :=
  ∃ s o v n k, p = .op (.eff (.cacheSet s o v n)) k ∧ Q (k (.ok ()))

/-- When `is_active` has read an active row at `site`, the program goes on with
`Q`; and `is_active` is not asked after what `site` forbids was done. -/
structure Guarded {α : Type} (site : Site) (Q : Op α → Prop) (p : Op α) : Prop where
  after : p.Since Answers (ReadsActive site) (Cached Q)
  before : p.Since Answers (fun _ s _ => outward s = some site.forbids) (Prog.All (Unasked site))

section
variable {α β : Type} {site : Site} {p : Op α} {f : α → Op β}

theorem Cached.bind {Q : Op α → Prop} {Q' : Op β → Prop} (h : Cached Q p) (hQ : ∀ q, Q q → Q' (q.bind f)) :
    Cached Q' (p.bind f) := by
  obtain ⟨s, o, v, n, k, rfl, hk⟩ := h
  exact ⟨s, o, v, n, _, rfl, hQ _ hk⟩

theorem Cached.attempt {Q : Op α → Prop} {Q' : Op (Except Err α) → Prop} (h : Cached Q p)
    (hQ : ∀ q, Q q → Q' q.attempt) : Cached Q' p.attempt := by
  obtain ⟨s, o, v, n, k, rfl, hk⟩ := h
  exact ⟨s, o, v, n, _, rfl, hQ _ hk⟩

theorem Unasked.since {Q : Op α → Prop} (h : p.All (Unasked site)) : p.Since Answers (ReadsActive site) Q :=
  Prog.All.since_never (h.mono fun _ s hs r hr => by
    obtain ⟨o, ho⟩ := hr.asks
    exact hs o ho)

theorem Guarded.of_unasked {Q : Op α → Prop} (h : p.All (Unasked site)) : Guarded site Q p :=
  ⟨Unasked.since h, h.since⟩

theorem Guarded.prepend {Q : Op β → Prop} (hp : p.All (Apart site)) (hf : ∀ a, Guarded site Q (f a)) :
    Guarded site Q (p.bind f) where
  after := Prog.Since.bind (Q := fun _ => False) (fun _ h => h.elim) (fun a => (hf a).after)
    (Unasked.since (hp.mono fun _ _ h => h.unasked))
  before := Prog.Since.after (hp.mono fun _ _ hs _ => hs.permitted) fun a => (hf a).before

theorem Guarded.bind {Q : Op α → Prop} {R : Op β → Prop} (hp : Guarded site Q p) (hQ : ∀ q, Q q → R (q.bind f))
    (hf : ∀ a, (f a).All (Unasked site)) : Guarded site R (p.bind f) where
  after := hp.after.bind (fun _ h => h.bind hQ) fun a => Unasked.since (hf a)
  before := hp.before.andThen hf

theorem Guarded.mono {Q Q' : Op α → Prop} (hp : Guarded site Q p) (hQ : ∀ q, Q q → Q' q) : Guarded site Q' p where
  after := hp.after.mono fun _ h => by
    obtain ⟨s, o, v, n, k, rfl, hk⟩ := h
    exact ⟨s, o, v, n, k, rfl, hQ _ hk⟩
  before := hp.before

theorem Guarded.attempt {Q : Op α → Prop} {R : Op (Except Err α) → Prop} (hp : Guarded site Q p)
    (hQ : ∀ q, Q q → R q.attempt) : Guarded site R p.attempt where
  after := hp.after.attempt fun _ h => h.attempt hQ
  before := hp.before.attempt fun _ h => h.attempt

theorem Guarded.session {e : Err} (hp : Guarded site (· = .throw e) p) :
    Guarded site (· = refuse e) (drop (withSession p)) := by
  have hbody := (hp.bind (f := fun a => (Prog.call (.commit none)).bind fun _ => .ret a) (R := (· = .throw e))
    (fun _ hq => by subst hq; rfl) fun a => .bind (.call nofun) fun _ => trivial).attempt
    (R := (· = .ret (.error e))) fun _ hq => by subst hq; rfl
  have hsession : Guarded site (· = (Prog.call .rollback).bind fun _ => raise e) (withSession p) := by
    refine hbody.bind (fun _ hq => by subst hq; rfl) fun r => ?_
    cases r with
    | ok a => trivial
    | error e => exact .bind (.call nofun) fun _ => trivial
  refine hsession.bind (fun _ hq => ?_) fun _ => ?_
  · subst hq
    exact Prog.bind_assoc ..
  · trivial

theorem Guarded.sessionAll (hp : Guarded site (Prog.All (Permitted site)) p) (hs : site.forbids ≠ .commit) :
    Guarded site (Prog.All (Permitted site)) (drop (withSession p)) := by
  have hcommit : Permitted site _ (.commit none) := fun h => hs (Option.some.inj h).symm
  have hbody := (hp.bind (f := fun a => (Prog.call (.commit none)).bind fun _ => .ret a)
    (R := Prog.All (Permitted site)) (fun _ hq => hq.bind fun a => .bind (.call hcommit) fun _ => trivial)
    fun a => .bind (.call nofun) fun _ => trivial).attempt (R := Prog.All (Permitted site)) fun _ hq => hq.attempt
  have hsession : Guarded site (Prog.All (Permitted site)) (withSession p) := by
    refine hbody.bind (fun _ hq => hq.bind fun r => ?_) fun r => ?_
    all_goals
      cases r with
      | ok a => trivial
      | error e => exact .bind (.call nofun) fun _ => trivial
  exact hsession.bind (fun _ hq => hq.bind fun _ => trivial) fun _ => trivial

theorem since_isActive {site' : Site} {o : UUID} {f : Bool → Op β} {Q : Op β → Prop} (hT : Q (f true))
    (hf : ∀ b, (f b).Since Answers (ReadsActive site) (Cached Q)) :
    ((isActive site' o).bind f).Since Answers (ReadsActive site) (Cached Q) := by
  refine fun r _ => ⟨fun h => absurd h (not_readsActive rfl), ?_⟩
  match r with
  | .error e => trivial
  | .ok (some (.dict active _)) => exact hf _
  | .ok (some (.scalar truthy)) => exact hf _
  | .ok none =>
    refine fun r _ => ⟨fun h => ?_, ?_⟩
    · cases h with
      | @intro _ _ stop hs =>
        exact ⟨some site, o, .dict (some true) stop.activatedAt, 60, _, by simp [hs, effect, Prog.call]; rfl, hT⟩
    · match r with
      | .error e => trivial
      | .ok none => exact hf false
      | .ok (some stop) =>
        by_cases hs : stop.active = true
        · simp only [Prog.ofExcept_ok, Prog.ret_bind, hs, if_true]
          refine fun r _ => ⟨fun h => absurd h (not_readsActive rfl), ?_⟩
          cases r with
          | error e => trivial
          | ok u => exact hf true
        · simp only [Prog.ofExcept_ok, Prog.ret_bind, hs]
          exact hf false

theorem permitted_isActive {o : UUID} {site' : Site} : (isActive site' o).All (Permitted site) :=
  all_isActive nofun nofun fun _ => nofun

theorem Guarded.isActive {site' : Site} {o : UUID} {f : Bool → Op β} {Q : Op β → Prop} (hT : Q (f true))
    (hf : ∀ b, (f b).All (Unasked site)) : Guarded site Q ((isActive site' o).bind f) where
  after := since_isActive hT fun b => Unasked.since (hf b)
  before := .after (permitted_isActive.mono fun β _ h (_ : Except Err β) => h) fun b => (hf b).since

theorem Guarded.skipLocked {ρ : Type} {sel : DB → List ρ} {key : ρ → Key} {n : Nat} {f : List ρ → Op β}
    {Q : Op β → Prop} (hf : ∀ rows d, rows.Sublist (sel d) → Guarded site Q (f rows)) :
    Guarded site Q ((Prog.call (.skipLocked sel key n)).bind f) where
  after r hr := by
    refine ⟨fun h => absurd h (not_readsActive rfl), ?_⟩
    cases r with
    | error e => trivial
    | ok rows => obtain ⟨d, hd⟩ := hr; exact (hf rows d hd).after
  before r hr := by
    refine ⟨nofun, ?_⟩
    cases r with
    | error e => trivial
    | ok rows => obtain ⟨d, hd⟩ := hr; exact (hf rows d hd).before

theorem plain_apart : Plain (Apart site) where
  read _ hl := ⟨nofun, fun h => by rw [outward, hl.outward] at h; cases h⟩
  forUpdate _ _ hl := ⟨nofun, fun h => by rw [outward, hl.outward] at h; cases h⟩
  skipLocked _ _ _ := ⟨nofun, nofun⟩
  stmt _ _ := ⟨nofun, nofun⟩
  now := ⟨nofun, nofun⟩
  uuid4 := ⟨nofun, nofun⟩
  token := ⟨nofun, nofun⟩

theorem quiet_of_asks {φ : ∀ β, Stmt β → Prop} (h : ∀ β s, asks s = none → φ β s) : Quiet φ := by
  refine ⟨⟨?_, ?_, ?_, ?_, ?_, ?_, ?_⟩, ?_, ?_, ?_⟩ <;> (intros; exact h _ _ rfl)

theorem quiet_unasked : Quiet (Unasked site) := quiet_of_asks fun _ _ hs o ho => by rw [hs] at ho; cases ho

end

/-! ## The calls -/

/-- `EMERGENCY_STOP_ACTIVE` with this message. -/
def stopError (message : String) : Err := .api .emergencyStopActive message 423

def Refusing (e : Err) (q : Op Unit) : Prop := q = refuse e ∨ q = raise e

def Call.Refused (site : Site) : Call → Op Unit → Prop
  | .create .., q => Refusing (stopError "Emergency stop is active. Cannot create new commands.") q
  | .decide .., q => Refusing (stopError "Emergency stop is active. Cannot queue commands.") q
  | _, q => q.All (Permitted site)

section
variable {P : Params} {site : Site}

theorem guarded_createCommand {r : CreateCommandRequest} {o : UUID} :
    Guarded site ((Call.create r o).Refused site) ((Call.create r o).code P) := by
  refine (Guarded.session (.prepend plain_apart.select fun dev => ?_)).mono fun _ => .inl
  split
  · exact .of_unasked trivial
  split
  · exact .of_unasked trivial
  refine .prepend all_columnValue fun _ => ?_
  split
  · exact .of_unasked trivial
  exact .isActive rfl fun b => quiet_unasked.createChecked fun _ _ _ h => by cases h

theorem guarded_decideApproval {a o : UUID} {approve : Bool} {nonce : String} {note : Option String} :
    Guarded site ((Call.decide a o approve nonce note).Refused site)
    ((Call.decide a o approve nonce note).code P) := by
  refine (Guarded.session (.prepend plain_apart.select fun row => ?_)).mono fun _ => .inl
  split
  · exact .of_unasked trivial
  split
  · exact .of_unasked trivial
  split
  · exact .of_unasked (.bind all_columnValue fun _ => trivial)
  refine .prepend (.call plain_apart.now) fun clock => ?_
  split
  · exact .of_unasked (.bind quiet_unasked.execute fun _ => .bind (.call fun _ h => by cases h) fun _ => trivial)
  split
  · exact .of_unasked trivial
  refine .prepend (.call plain_apart.now) fun clock => .prepend plain_apart.execute fun _ => ?_
  cases approve with
  | false => exact .of_unasked (.bind (quiet_unasked.rejectDecision fun _ _ _ h => by cases h) fun _ => trivial)
  | true =>
    simp only [if_true, Prog.bind_eq]
    exact .isActive rfl fun b => .bind (quiet_unasked.approveChecked fun _ _ _ h => by cases h) fun _ => trivial

section
variable {e e' : OutboxEvent} {es : List OutboxEvent}

theorem apart_processEvent (hne : e' ≠ e) : (processEvent P e').All (Apart (.publish e)) := by
  have hp : Apart (.publish e) _ (.eff (.publishJs e'.msg (some e'))) :=
    ⟨nofun, fun h => hne (by simpa [outward, Site.forbids] using h)⟩
  refine all_processEvent plain_apart hp fun _ owner => ?_
  refine all_isActive ⟨nofun, nofun⟩ ⟨fun o ho => hne ?_, nofun⟩ fun _ => ⟨nofun, nofun⟩
  simpa [asks] using congrArg (Option.map Prod.fst) ho

theorem apart_processEvents (h : e ∉ es) : (processEvents P es).All (Apart (.publish e)) := by
  induction es with
  | nil => trivial
  | cons e' es ih =>
    rw [List.mem_cons, not_or] at h
    exact .bind (apart_processEvent (Ne.symm h.1)) fun _ => .bind (ih h.2) fun _ => trivial

theorem guarded_processEvent :
    Guarded (.publish e) (Prog.All (Permitted (.publish e))) (processEvent P e) := by
  have hun : Plain (Unasked (.publish e)) := quiet_unasked.toPlain
  have hjs : Unasked (.publish e) _ (.eff (.publishJs e.msg (some e))) := nofun
  have hpub : Guarded (.publish e) (Prog.All (Permitted (.publish e))) (publishReady e) :=
    .of_unasked (all_publishReady hun hjs)
  have hevent : Guarded (.publish e) (Prog.All (Permitted (.publish e))) (publishEvent P e) := by
    unfold publishEvent
    split
    · refine .prepend plain_apart.select fun c => ?_
      split
      · exact hpub
      refine .prepend plain_apart.select fun dev => ?_
      split
      · exact hpub
      refine .isActive ?_ fun b => all_publishChecked hun hjs
      exact .bind ((all_enforceStop plain_apart).mono fun _ _ h => h.permitted) fun _ => trivial
    · exact hpub
  have htry := hevent.attempt (R := Prog.All (Permitted (.publish e))) fun _ hq => hq.attempt
  refine htry.bind (fun _ hq => hq.bind fun r => ?_) fun r => ?_
  · split
    · trivial
    · exact (all_retryEvent plain_apart).mono fun _ _ h => h.permitted
  · split
    · trivial
    · exact all_retryEvent hun

theorem guarded_processEvents (h : es.Nodup) :
    Guarded (.publish e) (Prog.All (Permitted (.publish e))) (processEvents P es) := by
  induction es with
  | nil => exact .of_unasked trivial
  | cons e' es ih =>
    rw [List.nodup_cons] at h
    by_cases he : e' = e
    · subst he
      have hrest : ∀ m, ((processEvents P es).bind fun n => .ret (m + n)).All (Apart (.publish e')) :=
        fun m => .bind (apart_processEvents h.1) fun _ => trivial
      exact guarded_processEvent.bind (fun _ hq => hq.bind fun m => (hrest m).mono fun _ _ h => h.permitted)
        fun m => (hrest m).mono fun _ _ h => h.unasked
    · exact .prepend (apart_processEvent he) fun m =>
        (ih h.2).bind (fun _ hq => hq.bind fun _ => trivial) fun _ => trivial

theorem guarded_processBatch :
    Guarded (.publish e) (Call.batch.Refused (.publish e)) (Call.batch.code P) := by
  refine Guarded.sessionAll ?_ (by simp [Site.forbids])
  simp only [getUnpublished, Prog.bind_eq, Prog.bind_assoc]
  refine .prepend (.call plain_apart.now) fun now => .skipLocked fun es d hes => ?_
  split
  · exact .of_unasked trivial
  have hnd : es.Nodup := (List.Nodup.of_map _ d.outbox.nodup).sublist (hes.trans List.filter_sublist)
  refine (guarded_processEvents hnd).bind (fun _ hq => hq.bind fun _ => ?_) fun _ => ?_
  · exact .bind (.call nofun) fun _ => trivial
  · exact .bind (.call nofun) fun _ => trivial

end

theorem guarded_natsListener {conn : DeviceConnection} {p : ReadyPayload} :
    Guarded .deliver ((Call.listen conn p).Refused .deliver) ((Call.listen conn p).code P) := by
  have hround : Guarded .deliver (Prog.All (Permitted .deliver))
      ((isActive .deliver conn.ownerId).bind fun stopped => deliverChecked conn p stopped) :=
    .isActive (.call nofun) fun _ => all_deliverChecked quiet_unasked fun _ => nofun
  have htry := hround.attempt (R := Prog.All (Permitted .deliver)) fun _ hq => hq.attempt
  refine .prepend (.call ⟨nofun, nofun⟩) fun _ => htry.bind (fun _ hq => hq.bind fun r => ?_) fun r => ?_
  · split
    · trivial
    · exact .call nofun
  · split
    · trivial
    · exact .call nofun

def Asking (call : Call) (β : Type) (s : Stmt β) : Prop := ∀ site o, asks s = some (site, o) → call.Asks site o

theorem asking_of_none {call : Call} {β : Type} {s : Stmt β} (h : asks s = none) :
    Asking call β s := fun _ _ ho => by
  rw [h] at ho; cases ho

theorem asking_code (call : Call) : (call.code P).All (Asking call) :=
  (quiet_of_asks fun _ _ => asking_of_none).code (fun _ _ => asking_of_none rfl)
    (fun _ _ h _ _ ho => by cases ho; exact h)
    (fun _ _ _ => asking_of_none rfl) (fun _ _ => asking_of_none rfl)
    (fun _ _ _ => ⟨asking_of_none rfl, asking_of_none rfl⟩) fun _ _ _ _ _ _ => asking_of_none rfl

theorem guarded_code {call : Call} {o : UUID} (h : call.Asks site o) :
    Guarded site (call.Refused site) (call.code P) := by
  cases call with
  | create r o => exact guarded_createCommand
  | decide a o approve nonce note => exact guarded_decideApproval
  | batch => obtain ⟨e, rfl, -⟩ := h; exact guarded_processBatch
  | listen conn p => cases h.1; exact guarded_natsListener
  | _ => exact h.elim

end

/-! ## Soundness -/

section
variable {P : Params} {c c' : Conf} {i : Nat} {call : Call} {site : Site} {o : UUID}
variable {rest : Except Err Bool → Op Unit} {x : Except Err Bool}

/-- A process and its entries `l`: its checks are those of its call, they are
guarded, and there is none after what they forbid. -/
structure Watched (call : Call) (l : List Ev) (q : Op Unit) : Prop where
  asking : q.All (Asking call)
  guarded : ∀ site o, call.Asks site o → Guarded site (call.Refused site) q
  done : ∀ site o, call.Asks site o → (∃ v ∈ l, v.outward = some site.forbids) → q.All (Unasked site)

theorem reachable_watched (h : Reachable P c) {p : Proc DB Key Write Label Call Err Eff}
    (hp : c.procs[i]? = some p) :
    Watched p.call (own i c.world.sh.trace) p.prog := by
  refine Reachable.history (Ψ := Watched) (fun call => ⟨asking_code call, fun _ _ => guarded_code, ?_⟩) ?_ h hp
  · rintro _ _ - ⟨v, hv, -⟩
    cases hv
  · intro call l β s k i ch r vs w w' hw he _ hv
    refine ⟨hw.asking.2 r, fun site o ha => ?_, fun site o ha ⟨v, hm, hout⟩ => ?_⟩
    · have hg := hw.guarded site o ha
      exact ⟨(hg.after r (exec_answers he)).2, (hg.before r (exec_answers he)).2⟩
    · rcases List.mem_append.mp hm with hm | hm
      · exact (hw.done site o ha ⟨v, hm, hout⟩).2 r
      · exact ((hw.guarded site o ha).before r (exec_answers he)).1 (says_outward (hv v hm) hout)

theorem all_at_check {φ : ∀ β, Stmt β → Prop} (h : Prog.All φ ((isActive site o).attempt.bind rest)) :
    φ _ (.fresh (some (.stopRead site o)) fun d => d.stops.find o) :=
  (h.2 (.ok none)).1

theorem guarded_at_check {Q : Op Unit → Prop} (h : Guarded site Q ((isActive site o).attempt.bind rest)) :
    Q (rest (.ok true)) := by
  let stop : EmergencyStop := ⟨o, true, none, none, none, none, none⟩
  obtain ⟨_, _, _, _, k, hk, hQ⟩ := ((h.after (.ok none) trivial).2 (.ok (some stop)) trivial).1 (.intro rfl)
  cases hk
  exact hQ

theorem refused_step (ha : call.Asks site o) {β : Type} {s : Stmt β} {k : Except Err β → Op Unit} {ch : Bool}
    {r : Except Err β} {w w' : Wd} (h : call.Refused site (.op s k)) (he : (sys P).exec i ch s w = some (r, w')) :
    Permitted site β s ∧ call.Refused site (k r) := by
  have hrefusing : ∀ e, Refusing e (.op s k) → Permitted site β s ∧ Refusing e (k r) := by
    intro e hq
    rcases hq with hq | hq <;> cases hq
    simp only [exec] at he
    cases he
    refine ⟨fun hf => ?_, .inr rfl⟩
    cases hf
  cases call with
  | create r o => exact hrefusing _ h
  | decide a o approve nonce note => exact hrefusing _ h
  | batch => exact ⟨h.1, h.2 r⟩
  | listen conn p => exact ⟨h.1, h.2 r⟩
  | _ => exact ha.elim

structure StopChecked (s : St) : Prop where
  create : ∀ i id q, (i, Ev.committed (.create id q)) ∈ s.trace → ∃ c o, s.db.commands.find id = some c ∧
    s.db.ownerOf c.deviceId = some o ∧ (i, Ev.stopRead .create o (some false)) ∈ s.trace
  approve : ∀ i d, (i, Ev.committed (.decide d)) ∈ s.trace → d.approve = true → ∃ c,
    s.db.commands.find d.read.commandId = some c ∧ s.db.ownerOf c.deviceId = some d.ownerId ∧
      (i, Ev.stopRead .decide d.ownerId (some false)) ∈ s.trace
  publish : ∀ i m e, (i, Ev.published m (some e)) ∈ s.trace → e.isQueued = true → ∃ c o,
    s.db.commands.find e.aggregateId = some c ∧ s.db.ownerOf c.deviceId = some o ∧
      (i, Ev.stopRead (.publish e) o (some false)) ∈ s.trace
  send : ∀ i conn m, (i, Ev.sent conn m) ∈ s.trace → s.db.ownerOf conn.deviceId = some conn.ownerId ∧
    (i, Ev.stopRead .deliver conn.ownerId (some false)) ∈ s.trace

theorem Tx.created {s : St} {d : DB} {id : UUID} {q : CreateCommandRequest} (h : Tx P s i (.create id q) d) :
    ∃ c r o, c.id = id ∧ Created s i d q c r o := by
  cases h with
  | create h => exact ⟨_, _, _, rfl, h⟩
  | chain _ h => exact h.elim

theorem Tx.approved {s : St} {d : DB} {x : Decision} (h : Tx P s i (.decide x) d) (hx : x.approve = true) :
    ∃ c c' e a a', Approved P s i x d c c' e a a' := by
  cases h with
  | approve _ h => exact ⟨_, _, _, _, _, h⟩
  | chain _ h => rw [h.reject] at hx; cases hx

theorem reach_stopChecked {s : St} (h : Reach (Act P) Init s) : StopChecked s := by
  refine reach_induct (I := StopChecked) (fun d x hinit => ?_) (fun s s' hinv hi ha => ?_) h
  · constructor <;> simp
  have hl := ha.later
  have hsub := hl.trace.subset
  have hkeep : ∀ {id o}, (∃ c, s.db.commands.find id = some c ∧ s.db.ownerOf c.deviceId = some o) →
      ∃ c, s'.db.commands.find id = some c ∧ s'.db.ownerOf c.deviceId = some o := by
    rintro id o ⟨c, hc, ho⟩
    obtain ⟨c', hc', hs⟩ := hl.db.command _ c hc
    exact ⟨c', hc', by rw [hs.deviceId]; exact hl.db.ownerOf ho⟩
  refine ⟨fun i id q hm => ?_, fun i d hm hd => ?_, fun i m e hm he => ?_, fun i conn m hm => ?_⟩
  · rcases ha.entry hm with hm | hm | ⟨_, _, hv, -⟩ | ⟨_, hv, ht⟩
    · obtain ⟨c, o, hc, ho, hr⟩ := hi.create i id q hm
      obtain ⟨c', hc', ho'⟩ := hkeep ⟨c, hc, ho⟩
      exact ⟨c', o, hc', ho', hsub hr⟩
    · exact hm.elim
    · cases hv
    · cases hv
      obtain ⟨c, r, o, rfl, hcr⟩ := ht.created
      exact ⟨c, o, by simp [hcr.commands, Table.find_put], hl.db.ownerOf hcr.owner, hsub hcr.checked⟩
  · rcases ha.entry hm with hm | hm | ⟨_, _, hv, -⟩ | ⟨_, hv, ht⟩
    · obtain ⟨c, hc, ho, hr⟩ := hi.approve i d hm hd
      obtain ⟨c', hc', ho'⟩ := hkeep ⟨c, hc, ho⟩
      exact ⟨c', hc', ho', hsub hr⟩
    · exact hm.elim
    · cases hv
    · cases hv
      obtain ⟨c, _, _, _, _, happ⟩ := ht.approved hd
      obtain ⟨c', hc, ho⟩ := hkeep ⟨c, happ.find, happ.owner⟩
      exact ⟨c', hc, ho, hsub happ.checked⟩
  · rcases ha.entry hm with hm | hm | ⟨m', e', hv, hpub⟩ | ⟨_, hv, -⟩
    · obtain ⟨c, o, hc, ho, hr⟩ := hi.publish i m e hm he
      obtain ⟨c', hc', ho'⟩ := hkeep ⟨c, hc, ho⟩
      exact ⟨c', o, hc', ho', hsub hr⟩
    · exact hm.elim
    · cases hv
      obtain ⟨-, -, -, -, hq⟩ := hpub.event
      obtain ⟨c, o, hc, ho, hr⟩ := hq he
      obtain ⟨c', hc', ho'⟩ := hkeep ⟨c, hc, ho⟩
      exact ⟨c', o, hc', ho', hsub hr⟩
    · cases hv
  · rcases ha.entry hm with hm | hm | ⟨_, _, hv, -⟩ | ⟨_, hv, -⟩
    · obtain ⟨ho, hr⟩ := hi.send i conn m hm
      exact ⟨hl.db.ownerOf ho, hsub hr⟩
    · exact ⟨hl.db.ownerOf (hinv.conns conn hm.1), hsub hm.2.1⟩
    · cases hv
    · cases hv

def Waitless (P : Params) (β : Type) (s : Stmt β) : Prop := ∀ i ch w, ((sys P).exec i ch s w).isSome = true

theorem waitless_isActive : (isActive site o).All (Waitless P) := by
  refine all_isActive (fun _ _ _ => rfl) (fun _ ch _ => ?_) fun _ _ _ _ => rfl
  cases ch <;> rfl

/-- **Emergency-stop soundness.** A call of `is_active` that runs while the stop
is active never waits, and answers `True` unless its own query or a call of its own to
Valkey raises. Its caller then does nothing that it must not do, before or after, and
`create_command` and `decide_approval` raise `EMERGENCY_STOP_ACTIVE`. Nothing
else passes unchecked. -/
theorem emergency_stop_sound (h : Reachable P c) (hc : UnderStop P i call o rest (isActive site o).attempt c x c') :
    call.Asks site o ∧ (isActive site o).All (Waitless P) ∧
    (x = .ok true ∨ x = .error .db ∧ (i, Ev.stopRead site o none) ∈ c'.world.sh.trace ∨
      x = .error .valkey ∧ (i, Ev.cacheFailed (some site) o) ∈ c'.world.sh.trace) ∧
    (x = .ok true → ∀ c'', Runs P c' c'' → (∀ v, v.outward = some site.forbids → (i, v) ∉ c''.world.sh.trace) ∧
      ∃ q, c''.procs[i]? = some ⟨call, q⟩ ∧ call.Refused site q) ∧
    StopChecked c.world.sh := by
  have hw := reachable_watched h hc.start
  have ha : call.Asks site o := all_at_check hw.asking site o rfl
  refine ⟨ha, waitless_isActive, underStop_isActive h hc, fun hx c'' hr => ?_, reach_stopChecked (reachable_real h)⟩
  subst hx
  -- nothing forbidden was done before the check, and the check does nothing of the kind
  have hnone : ∀ v ∈ own i c'.world.sh.trace, v.outward ≠ some site.forbids := by
    intro v hv hout
    rcases hc.entries (Φ := fun v => v.outward ≠ some site.forbids)
      (Prog.All.attempt (permitted_isActive.mono fun _ _ hs w v hsay hv => hs (says_outward hsay hv))) hv
      with hm | hm
    · exact all_at_check (hw.done site o ha ⟨v, hm, hout⟩) o rfl
    · exact hm hout
  obtain ⟨q, hq, hall, href⟩ := runs_keep
    (Φ := fun l q => (∀ v ∈ l, v.outward ≠ some site.forbids) ∧ call.Refused site q)
    (fun ⟨hl, hq⟩ he _ hv => by
      obtain ⟨hs, hk⟩ := refused_step ha hq he
      refine ⟨fun v hm => ?_, hk⟩
      rcases List.mem_append.mp hm with hm | hm
      · exact hl v hm
      · exact fun hout => hs (says_outward (hv v hm) hout)) hr hc.done
    ⟨hnone, guarded_at_check (hw.guarded site o ha)⟩
  exact ⟨fun v hv hm => hall v (mem_own.mpr hm) hv, q, hq, href⟩

end

theorem createCommand_check {P : Params} {r : CreateCommandRequest} {o : UUID} {device : Device}
    (hP : P.plainStr = false) (ho : device.ownerId = o) (ht : device.trustStatus = .trusted) :
    ∃ k, (Call.create r o).code P = .op (.read none fun d => d.devices.find r.deviceId) k ∧
        ∃ rest, k (.ok (some device)) = (isActive .create o).attempt.bind rest := by
  refine ⟨_, rfl, ?_⟩
  simp only [Prog.ofExcept_ok, Prog.ret_bind, ho, ht, ne_eq, not_true_eq_false, if_false,
    Prog.bind_eq, columnValue, hP, Prog.pure_eq, Bool.false_eq_true]
  rw [Prog.bind_assoc, Prog.attempt_bind, Prog.bind_assoc, Prog.attempt_bind, Prog.bind_assoc]
  exact ⟨_, rfl⟩

def setsActive : CacheVal → Bool
  | .dict (some true) _ => true
  | _ => false

/-- A stop is active, and a ping is refused. -/
theorem emergency_stop_sound_ping : ∃ c rest c', Reachable demo c ∧
    UnderStop demo 1 (.create (ping false) 7) 7 rest (isActive .create 7).attempt c (.ok true) c' ∧
    ∀ c'', Runs demo c' c'' → ∀ t, (1, Ev.committed t) ∉ c''.world.sh.trace := by
  obtain ⟨⟨w, ps⟩, hr, hc⟩ := played (P := demo) (c := demoStart)
    (t := .other (.call (.activate 7 "x" 7)) :: steps 0 15)
    (φ := fun c => c.procs.length == 1 && c.world.sh.db.stopActive 7 &&
      (c.world.sh.db.devices.find 1).any (fun d => d.ownerId == 7 && d.trustStatus == .trusted) &&
      (c.world.sh.ext.cache 7).any setsActive && c.world.sh.ext.valkey == .up) (by decide +kernel)
  simp only [Bool.and_eq_true, beq_iff_eq] at hc
  obtain ⟨⟨⟨⟨hlen, hstop⟩, hdev⟩, hcache⟩, hup⟩ := hc
  obtain ⟨dev, hdev, hown⟩ := (Option.any_eq_true _ _).mp hdev
  simp only [Bool.and_eq_true, beq_iff_eq] at hown
  obtain ⟨v, hv, hactive⟩ := (Option.any_eq_true _ _).mp hcache
  have h₀ : Reachable demo ⟨w, ps⟩ := Reachable.runs demo_reachable hr
  replace hlen : ps.length = 1 := hlen
  have hsess : w.sess 1 = ⟨[], false⟩ := ((reachable_steady h₀).idle 1 (by simp [hlen])).1.sess
  obtain ⟨k, hcode, rest, hk⟩ := createCommand_check (P := demo) (r := ping false) rfl hown.1 hown.2
  -- the device is read
  have hread : (sys demo).exec ps.length true (.read none fun d : DB => d.devices.find (ping false).deviceId) w =
      some (.ok (some dev), w) := by
    simp only [hlen, exec, hsess, view, label]
    exact congrArg (fun x => some (Except.ok x, w)) hdev
  obtain ⟨ps', h₁, hp⟩ := Reachable.launch (S := sys demo) h₀ (a := .create (ping false) 7) trivial hcode hread
  rw [hlen, hk] at hp
  -- and the cache answers
  obtain ⟨t, rfl⟩ : ∃ t, v = .dict (some true) t := by
    unfold setsActive at hactive
    split at hactive
    · exact ⟨_, rfl⟩
    · cases hactive
  have hget : (sys demo).exec 1 true (.eff (.cacheGet .create 7)) w =
      some (.ok (some (.dict (some true) t)), w) := by
    simp [exec, sys, Eff.handle, Ext.ask, hup, hv, World.say, Shared.say]
  have hcall : UnderStop demo 1 (.create (ping false) 7) 7 rest (isActive .create 7).attempt ⟨w, ps'⟩ (.ok true)
      ⟨w, ps'.set 1 ⟨.create (ping false) 7, rest (.ok true)⟩⟩ :=
    .self hstop hp hget (.ret hstop (List.getElem?_set_self (List.getElem?_eq_some_iff.mp hp).1))
  exact ⟨_, rest, _, h₁, hcall, fun c'' hr t => ((emergency_stop_sound h₁ hcall).2.2.2.1 rfl c'' hr).1 _ rfl⟩

end Veyaan
