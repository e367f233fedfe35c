import Veyaan.Lib.Runs
import Veyaan.Statements

/-!
# Which statements a program makes

`Prog.All φ` for the programs of the system, from what `φ` says of the single
statements: the parts that are made of ordinary statements only (`Plain`), and
the calls that make queries and effects besides (`Quiet`).
-/

namespace Veyaan

open Sys

section
variable {φ : ∀ β, Stmt β → Prop} {α : Type}

def Label.Reads (l : Option Label) : Prop := ∀ t, l ≠ some (.commit t)

def Label.Ordinary (l : Option Label) : Prop := ∀ o, l ≠ some (.commit (.release o))

structure Plain (φ : ∀ β, Stmt β → Prop) : Prop where
  read : ∀ {β : Type} {l} (q : DB → β), Label.Reads l → φ β (.read l q)
  forUpdate : ∀ {ρ : Type} {l} (sel : DB → List ρ) key, Label.Reads l → φ (List ρ) (.forUpdate l sel key)
  skipLocked : ∀ {ρ : Type} (sel : DB → List ρ) key n, φ (List ρ) (.skipLocked sel key n)
  stmt : ∀ ks f [Fits f] [Statement ks f], φ Nat (.stmt ks f)
  now : φ Time (.eff .now)
  uuid4 : φ UUID (.eff .uuid4)
  token : φ String (.eff .tokenUrlsafe)

theorem all_logKeywords {P : Params} : (logKeywords P).All φ := by
  unfold logKeywords
  split <;> trivial

theorem all_columnValue {P : Params} : (columnValue P).All φ := by
  unfold columnValue
  split <;> trivial

theorem all_logCount {P : Params} {n : Nat} : (logCount P n).All φ := by
  unfold logCount
  split
  · trivial
  · exact all_logKeywords

namespace Plain
variable (h : Plain φ)
include h

theorem select {q : DB → α} : (Veyaan.select q).All φ := .call (h.read q (by simp [Label.Reads]))

theorem execute {ks : List Key} {f : DB → Except Err (List Write)} [Fits f] [Statement (fun _ => ks) f] :
    (Veyaan.execute ks f).All φ :=
  .call (h.stmt _ f)

theorem executeAll {ρ : Type} {ks : DB → List Key} {sel : DB → List ρ} {g : ρ → Write}
    [Statement ks fun d => .ok ((sel d).map g)] (hg : ∀ r, (g r).fits = true) :
    (Prog.call (.stmt ks fun d => .ok ((sel d).map g)) : Op Nat).All φ :=
  have : Fits fun d => .ok ((sel d).map g) := fits_all hg
  .call (h.stmt _ _)

theorem selectForUpdate {ρ : Type} {sel : DB → Option ρ} {key : ρ → Key} {l : Option Label} (hl : Label.Reads l) :
    (Veyaan.selectForUpdate sel key l).All φ :=
  .bind (.call (h.forUpdate _ key hl)) fun _ => trivial

theorem transition {loaded : Option Command} {id : UUID} {new : CommandState} {source : Source}
    {m : Option Metadata} : (transitionCommand loaded id new source m).All φ := by
  refine .bind (h.selectForUpdate (by simp [Label.Reads])) fun row => ?_
  cases row with
  | none => trivial
  | some row =>
    dsimp only
    split
    · refine .bind (.call h.now) fun _ => .bind (.call h.now) fun _ => .bind h.execute fun _ =>
        .bind h.execute fun _ => ?_
      trivial
    · trivial

theorem addEvent {et : EventType} {a : AggregateType} {id : UUID} {m : Msg} : (Veyaan.addEvent et a id m).All φ :=
  .bind (.call h.uuid4) fun _ => .bind (.call h.now) fun _ => .bind h.execute fun _ =>
    .bind h.select fun _ => trivial

theorem createApproval {P : Params} {id o : UUID} {risk : RiskLevel} {title descr : String} {n : Nat} :
    (Veyaan.createApproval P id o risk title descr n).All φ :=
  .bind (.call h.token) fun _ => .bind (.call h.now) fun _ =>
    .bind (.call h.uuid4) fun _ => .bind h.execute fun _ =>
    .bind h.select fun _ => trivial

theorem updateTaskState {id : UUID} {st : TaskState} {rs ec em : Option String} :
    (Veyaan.updateTaskState id st rs ec em).All φ := by
  refine .bind (h.selectForUpdate (by simp [Label.Reads])) fun row => ?_
  cases row with
  | none => trivial
  | some _ => exact .bind h.execute fun _ => trivial

theorem isDuplicate {id : UUID} {key : DedupKey} : (Veyaan.isDuplicate id key).All φ := by
  refine .bind h.select fun l => ?_
  split <;> trivial

theorem blockAll : ∀ {ids : List UUID}, (Veyaan.blockAll ids).All φ
  | [] => trivial
  | _ :: _ => .bind h.transition.attempt fun _ => blockAll

theorem blockCommands {o : UUID} : (Veyaan.blockCommands o).All φ := by
  refine .bind (.call (h.read _ (by simp [Label.Reads]))) fun _ => ?_
  split
  · trivial
  · exact .bind (.call (h.read _ (by simp [Label.Reads]))) fun _ => h.blockAll

theorem writeStop {existing : Option EmergencyStop} {o : UUID} {reason : String} {actor : UUID} :
    (Veyaan.writeStop existing o reason actor).All φ := by
  refine .bind (.call h.now) fun _ => ?_
  cases existing with
  | none => exact .bind h.execute fun _ => trivial
  | some _ => exact .bind h.execute fun _ => trivial

theorem expireTask {id : UUID} : (Veyaan.expireTask id).All φ := by
  refine .bind (.call (h.skipLocked ..)) fun rows => ?_
  split
  · trivial
  · split
    · trivial
    · exact .bind h.execute fun _ => trivial

theorem expireCommand {P : Params} {c : Command} : (Veyaan.expireCommand P c).All φ := by
  refine .bind (.attempt (.bind h.transition fun _ => h.expireTask)) fun r => ?_
  split
  · trivial
  · exact .bind all_logKeywords fun _ => trivial

theorem expireAll {P : Params} : ∀ {cs : List Command}, (Veyaan.expireAll P cs).All φ
  | [] => trivial
  | _ :: _ => .bind h.expireCommand fun _ => .bind expireAll fun _ => trivial

theorem expireCommands {P : Params} : (Veyaan.expireCommands P).All φ :=
  .bind (.call h.now) fun _ => .bind (.call (h.skipLocked ..)) fun _ => h.expireAll

end Plain

/-- The effect is neither the publication of an outbox event nor the end of a cache
entry, and compares no code. -/
def Eff.quiet : {β : Type} → Eff β → Bool
  | _, .publishJs _ e => e.isNone
  | _, .cacheDelete _ => false
  | _, .compareDigest _ _ => false
  | _, _ => true

theorem Eff.event_of_quiet {β : Type} {e : Eff β} (h : e.quiet = true) : e.event = none := by
  cases e with
  | publishJs m e => exact Option.isNone_iff_eq_none.mp h
  | _ => rfl

structure Quiet (φ : ∀ β, Stmt β → Prop) : Prop extends Plain φ where
  rollback : φ Unit .rollback
  fresh : ∀ {β : Type} (q : DB → β), φ β (.fresh none q)
  eff : ∀ {β : Type} (e : Eff β), e.quiet = true → φ β (.eff e)

namespace Quiet
variable (h : Quiet φ)
include h

theorem withSession {body : Op α} (hb : body.All φ) (hc : φ _ (.commit none)) :
    (Veyaan.withSession body).All φ := by
  refine .bind (.attempt (.bind hb fun a => .bind (.call hc) fun _ => trivial)) fun r => ?_
  cases r with
  | ok a => trivial
  | error e => exact .bind (.call h.rollback) fun _ => trivial

theorem frame {conn : DeviceConnection} {f : Frame} : (handleDeviceMessage conn f).All φ := by
  refine .bind (.call (h.eff _ (by rfl))) fun _ => .bind (.attempt ?_) fun _ => trivial
  unfold handleFrame
  split
  · refine .bind (.bind (.attempt (.call (h.fresh _))) fun r => ?_) fun b => ?_
    · split <;> trivial
    · split
      · exact .call (h.eff _ (by rfl))
      · trivial
  · split
    · exact .call (h.eff _ (by rfl))
    · exact .call (h.eff _ (by rfl))
    · trivial

section
variable (hn : φ _ (.commit none))
include hn

theorem handleOnce {kind : Lifecycle} {p : LifecyclePayload} {body : Command → Op Unit} {after : UUID → Op Unit}
    (ht : φ _ (.commit (some (.commit (.handle kind p))))) (hb : ∀ c, (body c).All φ)
    (ha : ∀ id, (after id).All φ) :
    (Veyaan.handleOnce kind p body after).All φ := by
  unfold Veyaan.handleOnce
  split
  · trivial
  refine h.withSession (.bind h.isDuplicate fun dup => ?_) hn
  split
  · trivial
  refine .bind (h.selectForUpdate (by simp [Label.Reads])) fun row => ?_
  split
  · trivial
  split
  · trivial
  refine .bind (.attempt (hb _)) fun r => ?_
  split
  · trivial
  · trivial
  · exact .bind (ha _) fun _ => .call ht

theorem consume {kind : Lifecycle} {id : UUID} {p : LifecyclePayload}
    (ht : φ _ (.commit (some (.commit (.handle kind p))))) : (Veyaan.consume kind id p).All φ := by
  refine .bind (.attempt ?_) fun r => by split <;> exact .call (h.eff _ (by rfl))
  cases kind with
  | delivered =>
    exact h.handleOnce hn ht (fun _ => .bind h.transition fun _ => trivial) fun _ => h.updateTaskState
  | acknowledged =>
    refine h.handleOnce hn ht (fun _ => ?_) fun _ => trivial
    split
    · exact .bind h.transition fun _ => trivial
    · exact .bind h.transition fun _ => h.updateTaskState
  | progress =>
    show (handleProgress p).All _
    unfold handleProgress
    split
    · trivial
    refine h.withSession (.bind (h.selectForUpdate (by simp [Label.Reads])) fun row => ?_) hn
    split
    · trivial
    · split
      · refine .bind (.attempt (.bind h.transition fun _ => h.updateTaskState)) fun r => ?_
        split
        · exact .call ht
        · trivial
        · exact .call ht
      · exact .call ht
  | result =>
    refine h.handleOnce hn ht (fun _ => ?_) fun _ => trivial
    split
    · exact .bind h.transition fun _ => h.updateTaskState
    · exact .bind h.transition fun _ => h.updateTaskState

end

section
variable (hc : ∀ t, Label.Ordinary t → φ _ (.commit t))
include hc

theorem insertNewCommand {P : Params} {r : CreateCommandRequest} {o : UUID}
    {device : Device} {df : CommandDefinition} :
    (Veyaan.insertNewCommand P r o device df).All φ := by
  refine .bind (.call h.uuid4) fun _ => .bind (.call h.now) fun _ => .bind h.execute fun _ =>
    .bind (.call h.uuid4) fun _ =>
    .bind h.execute fun _ => .bind h.execute fun _ => ?_
  split
  · exact .bind h.transition fun _ => .bind h.transition fun _ => .bind h.createApproval fun _ =>
      .bind (.call (hc _ (by simp [Label.Ordinary]))) fun _ => trivial
  · exact .bind h.transition fun _ => .bind h.transition fun _ => .bind h.addEvent fun _ =>
      .bind (.call (hc _ (by simp [Label.Ordinary]))) fun _ => trivial

theorem createChecked {P : Params} {r : CreateCommandRequest} {o : UUID} {device : Device} {stopped : Bool} :
    (Veyaan.createChecked P r o device stopped).All φ := by
  unfold Veyaan.createChecked
  split
  · trivial
  refine .bind h.select fun existing => ?_
  split
  · split
    · trivial
    · trivial
  · split
    · trivial
    · split
      · exact h.insertNewCommand hc
      · trivial

theorem finishDecision {d : Decision} {note : Option String} : (Veyaan.finishDecision d note).All φ :=
  .bind h.execute fun _ => .call (hc _ (by simp [Label.Ordinary]))

theorem approveChecked {d : Decision} {note : Option String} {stopped : Bool} :
    (Veyaan.approveChecked d note stopped).All φ := by
  unfold Veyaan.approveChecked
  split
  · trivial
  refine .bind (.attempt (.bind h.transition fun _ => .bind h.transition fun _ => trivial)) fun r => ?_
  split
  · trivial
  · trivial
  · refine .bind (.bind h.select fun row => ?_) fun _ => h.finishDecision hc
    split
    · trivial
    · refine .bind h.select fun dev => ?_
      split
      · trivial
      · exact h.addEvent

theorem rejectDecision {d : Decision} {note : Option String} : (Veyaan.rejectDecision d note).All φ := by
  refine .bind (.attempt h.transition) fun r => ?_
  split
  · trivial
  · trivial
  · exact h.finishDecision hc

theorem cancelCommand {c o : UUID} : (Veyaan.cancelCommand c o).All φ := by
  refine h.withSession (.bind h.select fun row => ?_) (hc none (by simp [Label.Ordinary]))
  split
  · trivial
  · split
    · trivial
    · refine .bind (.attempt h.transition) fun r => ?_
      split
      · exact .bind (.call (hc _ (by simp [Label.Ordinary]))) fun _ => trivial
      · trivial
      · trivial

theorem activate {o : UUID} {reason : String} {actor : UUID} : (Veyaan.activate o reason actor).All φ := by
  have hfrom : ∀ existing, (activateRow.activateFrom o reason actor existing).All φ := fun existing =>
    .bind h.writeStop fun _ => .bind h.blockCommands fun _ => .bind h.execute fun _ => .bind (.call h.now) fun _ =>
      .bind h.addEvent fun _ => .bind (.call (hc _ (by simp [Label.Ordinary]))) fun _ =>
        .bind h.select fun _ => trivial
  refine .bind (h.withSession (.bind (h.selectForUpdate (by simp [Label.Reads])) fun stop => ?_)
    (hc none (by simp [Label.Ordinary]))) fun r => ?_
  · split
    · split
      · exact .bind (.call h.now) fun _ => .bind h.addEvent fun _ =>
          .bind (.call (hc _ (by simp [Label.Ordinary]))) fun _ => trivial
      · exact hfrom _
    · exact hfrom _
  · split
    · trivial
    · exact .call (h.eff _ (by rfl))

theorem release {o actor : UUID} (hr : φ _ (.commit (some (.commit (.release o)))))
    (hd : φ _ (.eff (.cacheDelete o))) :
    (Veyaan.release o actor).All φ := by
  refine .bind (h.withSession (.bind (h.selectForUpdate (by simp [Label.Reads])) fun stop => ?_)
    (hc none (by simp [Label.Ordinary]))) fun r => ?_
  · split
    · trivial
    · split
      · exact .bind (.call h.now) fun _ => .bind h.execute fun _ => .bind h.execute fun _ =>
          .bind (.call h.now) fun _ =>
          .bind h.addEvent fun _ => .bind (.call hr) fun _ => .bind h.select fun _ => trivial
      · trivial
  · split
    · exact .call hd
    · trivial

theorem startPairing {P : Params} {info : DeviceInfo} : (Veyaan.startPairing P info).All φ := by
  refine h.withSession ?_ (hc none (by simp [Label.Ordinary]))
  exact .bind (.call h.token) fun _ => .bind (.call h.now) fun _ =>
    .bind (.call h.uuid4) fun _ => .bind h.execute fun _ =>
    .bind h.select fun _ => .bind (.call (hc _ (by simp [Label.Ordinary]))) fun _ => trivial

theorem refusePairing {t : Tag} {id : UUID} {f : PairingRequest → PairingRequest} {e : Err}
    (ht : Label.Ordinary (some (.commit t))) : (Veyaan.refusePairing (α := α) t id f e).All φ :=
  .bind h.execute fun _ => .bind (.call (hc _ ht)) fun _ => trivial

theorem confirmDevice {P : Params} {a : Attempt} {o : UUID} : (Veyaan.confirmDevice P a o).All φ :=
  .bind (.call h.uuid4) fun _ => .bind h.execute fun _ => .bind h.execute fun _ => .bind (.call h.token) fun _ =>
    .bind (.call h.now) fun _ => .bind (.call h.now) fun _ =>
      .bind (.call h.uuid4) fun _ => .bind h.execute fun _ =>
    .bind h.execute fun _ => .bind h.execute fun _ => .bind (.call (hc _ (by simp [Label.Ordinary]))) fun _ =>
    .bind h.select fun _ => trivial

theorem confirmPairing {P : Params} {id o : UUID} {code : String} (hcmp : ∀ s a, φ _ (.eff (.compareDigest s a))) :
    (Veyaan.confirmPairing P id o code).All φ := by
  refine h.withSession (.bind (h.selectForUpdate (by simp [Label.Reads])) fun pairing => ?_)
    (hc none (by simp [Label.Ordinary]))
  split
  · trivial
  split
  · exact .bind all_columnValue fun _ => trivial
  refine .bind (.call h.now) fun _ => ?_
  split
  · exact h.refusePairing hc (by simp [Label.Ordinary])
  split
  · exact h.refusePairing hc (by simp [Label.Ordinary])
  refine .bind (.call (hcmp _ _)) fun ok => ?_
  split
  · exact h.confirmDevice hc
  · exact h.refusePairing hc (by simp [Label.Ordinary])

theorem revokeDevice {dev o : UUID} : (Veyaan.revokeDevice dev o).All φ := by
  refine h.withSession (.bind h.select fun row => ?_) (hc none (by simp [Label.Ordinary]))
  split
  · trivial
  exact .bind (.call h.now) fun _ => .bind (.call h.now) fun _ => .bind h.execute fun _ =>
    .bind (h.executeAll fun _ => rfl) fun _ =>
    .bind h.execute fun _ => .bind h.addEvent fun _ =>
      .bind (.call (hc _ (by simp [Label.Ordinary]))) fun _ => trivial

theorem runTasks {P : Params} : (Veyaan.runTasks P).All φ := by
  refine h.withSession ?_ (hc none (by simp [Label.Ordinary]))
  exact .bind (.bind (.call h.now) fun _ => h.executeAll fun _ => rfl) fun _ => .bind all_logCount fun _ =>
    .bind (.bind (.call h.now) fun _ => h.executeAll fun _ => rfl) fun _ => .bind all_logCount fun _ =>
    .bind h.expireCommands fun _ => .bind all_logCount fun _ => .call (hc _ (by simp [Label.Ordinary]))

end

end Quiet

/-! ## The publisher -/

section
variable {P : Params} {e : OutboxEvent} {site : Site}

theorem all_isActive {o : UUID} (hget : φ _ (.eff (.cacheGet site o)))
    (hread : φ _ (.fresh (some (.stopRead site o)) fun d => d.stops.find o))
    (hset : ∀ v, φ _ (.eff (.cacheSet (some site) o v 60))) :
    (isActive site o).All φ := by
  refine .bind (.call hget) fun v => ?_
  split
  · trivial
  · trivial
  · refine .bind (.call hread) fun stop => ?_
    split
    · split
      · exact .bind (.call (hset _)) fun _ => trivial
      · trivial
    · trivial

theorem all_publishReady (h : Plain φ) (hp : φ _ (.eff (.publishJs e.msg (some e)))) :
    (publishReady e).All φ :=
  .bind (.call hp) fun _ => .bind (.bind (.call h.now) fun _ => .bind h.execute fun _ => trivial) fun _ => trivial

theorem all_enforceStop (h : Plain φ) {c : Command} : (enforceStop P e c).All φ := by
  refine .bind (.attempt h.transition) fun r => ?_
  split
  · exact .bind h.execute fun _ => trivial
  · exact .bind all_logKeywords fun _ => .bind h.execute fun _ => trivial

theorem all_retryEvent (h : Plain φ) : (retryEvent P e).All φ := by
  refine .bind all_logKeywords fun _ => ?_
  split
  · exact .bind (.bind h.execute fun _ => trivial) fun _ => trivial
  · exact .bind (.bind h.execute fun _ => trivial) fun _ => trivial

theorem all_publishChecked (h : Plain φ) (hp : φ _ (.eff (.publishJs e.msg (some e))))
    {c : Command} {stopped : Bool} : (publishChecked P e c stopped).All φ := by
  unfold publishChecked
  split
  · exact .bind (all_enforceStop h) fun _ => trivial
  · exact all_publishReady h hp

theorem all_processEvent (h : Plain φ) (hp : φ _ (.eff (.publishJs e.msg (some e))))
    (ha : e.isQueued = true → ∀ owner, (isActive (.publish e) owner).All φ) : (processEvent P e).All φ := by
  refine .bind (.attempt ?_) fun r => ?_
  · unfold publishEvent
    split
    · rename_i hq
      refine .bind h.select fun c => ?_
      split
      · exact all_publishReady h hp
      refine .bind h.select fun dev => ?_
      split
      · exact all_publishReady h hp
      exact .bind (ha hq _) fun b => all_publishChecked h hp
    · exact all_publishReady h hp
  · split
    · trivial
    · exact all_retryEvent h

theorem all_processEvents (h : Plain φ)
    (ha : ∀ e : OutboxEvent, e.isQueued = true → ∀ owner, (isActive (.publish e) owner).All φ) :
    ∀ {es : List OutboxEvent}, (∀ e ∈ es, φ _ (.eff (.publishJs e.msg (some e)))) → (processEvents P es).All φ
  | [], _ => trivial
  | e :: _, hp => .bind (all_processEvent h (hp e (List.mem_cons_self ..)) (ha e)) fun _ =>
      .bind (all_processEvents h ha fun e he => hp e (List.mem_cons_of_mem _ he)) fun _ => trivial

end

/-! ## Every call -/

/-- Who calls `is_active`, where and for which owner. -/
def Call.Asks : Call → Site → UUID → Prop
  | .create _ ownerId, site, o => site = .create ∧ o = ownerId
  | .decide _ ownerId approve _ _, site, o => site = .decide ∧ o = ownerId ∧ approve = true
  | .batch, site, _ => ∃ e : OutboxEvent, site = .publish e ∧ e.isQueued = true
  | .listen conn _, site, o => site = .deliver ∧ o = conn.ownerId
  | _, _, _ => False

theorem all_deliverChecked (h : Quiet φ) {conn : DeviceConnection} {p : ReadyPayload}
    {stopped : Bool}
    (hq : ∀ q : DB → Option Command, φ _ (.fresh (some (.preDelivery p.commandId conn.deviceId)) q)) :
    (deliverChecked conn p stopped).All φ := by
  have hcheck : (preDeliveryCheck p.commandId conn.deviceId).All φ := by
    refine .bind (.attempt (.bind (.call (hq _)) fun row => ?_)) fun r => by split <;> trivial
    split
    · trivial
    split
    · trivial
    split
    · trivial
    split
    · trivial
    · exact .bind (.call h.now) fun _ => trivial
  unfold deliverChecked
  split
  · exact .call (h.eff _ (by rfl))
  refine .bind hcheck fun ok => ?_
  split
  · refine .bind (.call h.uuid4) fun _ => ?_
    split
    · trivial
    refine .bind (.call (h.eff _ (by rfl))) fun sent => ?_
    split
    · exact .bind (.call (h.eff _ (by rfl))) fun _ => .call (h.eff _ (by rfl))
    · exact .call (h.eff _ (by rfl))
  · exact .call (h.eff _ (by rfl))

theorem Quiet.code {P : Params} {call : Call} (h : Quiet φ) (hc : ∀ t, Label.Ordinary t → φ _ (.commit t))
    (hask : ∀ site o, call.Asks site o → φ _ (.fresh (some (.stopRead site o)) fun d => d.stops.find o))
    (hpre : ∀ id dev (q : DB → Option Command), φ _ (.fresh (some (.preDelivery id dev)) q))
    (hpub : call = .batch → ∀ e : OutboxEvent, φ _ (.eff (.publishJs e.msg (some e))))
    (hrel : ∀ o actor, call = .release o actor → φ _ (.commit (some (.commit (.release o)))) ∧
      φ _ (.eff (.cacheDelete o)))
    (hcmp : ∀ id o code, call = .confirmPairing id o code → ∀ s a, φ _ (.eff (.compareDigest s a))) :
    (call.code P).All φ := by
  have hactive : ∀ site o, call.Asks site o → (isActive site o).All φ := fun site o ha =>
    all_isActive (h.eff _ (by rfl)) (hask site o ha) fun _ => h.eff _ (by rfl)
  cases call with
  | create r o =>
    refine .bind (h.withSession (.bind h.select fun dev => ?_) (hc none (by simp [Label.Ordinary])))
      fun _ => trivial
    split
    · trivial
    split
    · trivial
    refine .bind all_columnValue fun _ => ?_
    split
    · trivial
    exact .bind (hactive _ _ ⟨rfl, rfl⟩) fun _ => h.createChecked hc
  | cancel c o => exact .bind (h.cancelCommand hc) fun _ => trivial
  | decide a o approve nonce note =>
    refine .bind (h.withSession (.bind h.select fun row => ?_) (hc none (by simp [Label.Ordinary])))
      fun _ => trivial
    split
    · trivial
    split
    · trivial
    split
    · exact .bind all_columnValue fun _ => trivial
    refine .bind (.call h.now) fun _ => ?_
    split
    · exact .bind h.execute fun _ => .bind (.call (hc _ (by simp [Label.Ordinary]))) fun _ => trivial
    split
    · trivial
    refine .bind (.call h.now) fun _ => .bind h.execute fun _ => ?_
    cases approve with
    | false => exact .bind (h.rejectDecision hc) fun _ => trivial
    | true => exact .bind (hactive _ _ ⟨rfl, rfl, rfl⟩) fun _ => .bind (h.approveChecked hc) fun _ => trivial
  | activate o reason actor => exact h.activate hc
  | release o actor => exact h.release hc (hrel o actor rfl).1 (hrel o actor rfl).2
  | startPairing info => exact .bind (h.startPairing hc) fun _ => trivial
  | confirmPairing p o code => exact .bind (h.confirmPairing hc (hcmp p o code rfl)) fun _ => trivial
  | revoke dev o => exact .bind (h.revokeDevice hc) fun _ => trivial
  | batch =>
    refine .bind (h.withSession (.bind (.bind (.call h.now) fun _ => .call (h.skipLocked _ _ _)) fun es => ?_)
      (hc none (by simp [Label.Ordinary])))
      fun _ => trivial
    split
    · trivial
    · exact .bind (all_processEvents h.toPlain (fun e hq o => hactive _ _ ⟨e, rfl, hq⟩)
        fun e _ => hpub rfl e) fun _ =>
        .bind (.call (hc _ (by simp [Label.Ordinary]))) fun _ => trivial
  | tasks => exact h.runTasks hc
  | consume kind c p => exact h.consume (hc none (by simp [Label.Ordinary])) (hc _ (by simp [Label.Ordinary]))
  | listen conn p =>
    refine .bind (.call (h.eff _ (by rfl))) fun _ =>
      .bind (.attempt (.bind (hactive _ _ ⟨rfl, rfl⟩) fun b => ?_)) fun r => ?_
    · exact all_deliverChecked h fun _ => hpre _ _ _
    · split
      · trivial
      · exact .call (h.eff _ (by rfl))
  | frame conn f => exact h.frame

end

/-! ## Commits -/

def Commits (ls : List (Option Label)) (β : Type) (c : Stmt β) : Prop := ∀ t, c.commits = some t → t ∈ ls

theorem quiet_commits {ls : List (Option Label)} : Quiet (Commits ls) := by
  refine ⟨⟨?_, ?_, ?_, ?_, ?_, ?_, ?_⟩, ?_, ?_, ?_⟩ <;> (intros; intro t ht; cases ht)

theorem commits_frame {conn : DeviceConnection} {f : Frame} : (handleDeviceMessage conn f).All (Commits []) :=
  quiet_commits.frame

theorem commits_consume {kind : Lifecycle} {id : UUID} {p : LifecyclePayload} :
    (consume kind id p).All (Commits [none, some (.commit (.handle kind p))]) :=
  quiet_commits.consume (by intro t ht; cases ht; simp) (by intro t ht; cases ht; simp)

/-! ## Columns -/

theorem quiet_puts : Quiet (Puts (D := DB) (K := Key) (W := Write) (T := Label) (ε := Err)
    (E := Eff) DB.Fits (·.fits)) where
  stmt _ _ hf _ _ _ _ h := hf.fits _ _ h
  read _ _ := trivial
  forUpdate _ _ _ := trivial
  skipLocked _ _ _ := trivial
  now := trivial
  uuid4 := trivial
  token := trivial
  rollback := trivial
  fresh _ := trivial
  eff _ _ := trivial

theorem reachable_fits {P : Params} {c : Conf} (h : Reachable P c) : c.world.sh.db.Fits := by
  refine Sys.Reachable.rows (φ := (·.fits)) (fun d w hd hw => hd.apply hw) (fun d x hi => ⟨?_, ?_⟩)
    (fun call => quiet_puts.code (fun _ _ => trivial) (fun _ _ _ => trivial) (fun _ _ _ => trivial)
      (fun _ _ => trivial) (fun _ _ _ => ⟨trivial, trivial⟩) fun _ _ _ _ _ _ => trivial) h
  · rw [hi.commands]; simp
  · rw [hi.tasks]; simp

end Veyaan
