import Veyaan.InStep
import Veyaan.Isolation

/-!
# The program of the runs

The runs of the system take `transition_command` as a program on the columns that some
other code reads. On an instance that shows its row, it does on these what the function
does on whole rows.
-/

namespace Veyaan

def Source.text : Source → String
  | .api => "api"
  | .approval => "approval"
  | .gateway => "gateway"
  | .device => "device"
  | .scheduler => "scheduler"
  | .emergencyStopActivation => "emergency_stop_activation"
  | .outboxEnforcement => "outbox_enforcement"

namespace Orm

open UnitOfWork (Mapper)
open Sys

/-! ## Rows of commands -/

def text (s : Option String) : Json := s.elim .null .str

def rowOf (requestFingerprint : Option String) (createdAt : Time) (c : Command) : Row
  | .id => c.id
  | .deviceId => c.deviceId
  | .commandType => c.commandType
  | .parameters => c.parameters
  | .riskLevel => c.riskLevel
  | .idempotencyKey => c.idempotencyKey
  | .requestFingerprint => requestFingerprint
  | .state => c.state
  | .requiresApproval => c.requiresApproval
  | .delayedExecutionAllowed => c.delayedExecutionAllowed
  | .expiresAt => c.expiresAt
  | .deliveredAt => c.deliveredAt
  | .acknowledgedAt => c.acknowledgedAt
  | .startedAt => c.startedAt
  | .finishedAt => c.finishedAt
  | .resultData => c.resultData.getD .null
  | .resultSummary => text c.resultSummary
  | .errorCode => text c.errorCode
  | .errorMessage => text c.errorMessage
  | .createdAt => createdAt
  | .updatedAt => c.updatedAt

def OfCommand (c : Command) (r : Row) : Prop :=
  ∃ requestFingerprint createdAt, ∀ k, k ≠ .updatedAt → r k = rowOf requestFingerprint createdAt c k

structure Reads (m : Option Metadata) (metadata : Option Fields) : Prop where
  truthy : m.isNone = metadata.all List.isEmpty
  resultData : field metadata "result_data" = (m.bind Metadata.resultData).map (·.getD .null)
  resultSummary : field metadata "result_summary" = (m.bind Metadata.resultSummary).map .str
  errorCode : (field metadata "error_code").getD .null = text (m.bind Metadata.errorCode)
  errorMessage : (field metadata "error_message").getD .null = text (m.bind Metadata.errorMessage)
  storable : (eventMetadata metadata).storable = m.all Metadata.storable

example : Reads (some { errorMessage := some "busy", dedupKey := some ⟨.acknowledged, 1⟩ })
    (some [("error_message", .str "busy"), ("dedup_key",
      .str "acknowledged:00000000-0000-0000-0000-000000000001")]) := by
  constructor <;> rfl

section
variable {eq : Json → Json → Bool} {clock : Clock} {new : CommandState}
    {m : Option Metadata} {metadata : Option Fields}
  {c : Command} {r : Row} {u n : Time} {k : Column}

theorem apply_outcome {fingerprint : Option String} {created : Time} (hm : Reads m metadata)
    (h : ∀ k, k ≠ .updatedAt → r k = rowOf fingerprint created c k) (hu : k ≠ .updatedAt) (hs : k ≠ .state) :
    UnitOfWork.apply r (outcome new n metadata) k = rowOf fingerprint created (c.transition new u n m) k := by
  cases new with
  | succeeded =>
    unfold outcome Command.transition
    rw [hm.resultData, hm.resultSummary]
    cases m.bind Metadata.resultData <;> cases m.bind Metadata.resultSummary <;> cases k <;>
      first | exact absurd rfl hs | exact absurd rfl hu | exact h _ hu | rfl
  | failed =>
    have htruthy := hm.truthy
    have hcode := hm.errorCode
    have hmessage := hm.errorMessage
    cases m with
    | none =>
      have hf : outcome .failed n metadata = UnitOfWork.set UnitOfWork.blank .finishedAt (some n) := by
        rcases metadata with _ | _ | _
        · rfl
        · rfl
        · cases htruthy
      rw [hf]
      cases k <;> first | exact absurd rfl hs | exact absurd rfl hu | exact h _ hu | rfl
    | some m =>
      rcases metadata with _ | _ | ⟨a, l⟩
      · cases htruthy
      · cases htruthy
      · unfold outcome
        simp only
        rw [hcode, hmessage]
        cases k <;> first | exact absurd rfl hs | exact absurd rfl hu | exact h _ hu | rfl
  | _ => cases k <;> first | exact absurd rfl hs | exact absurd rfl hu | exact h _ hu | rfl

theorem apply_ofCommand (hm : Reads m metadata) (h : OfCommand c r) :
    OfCommand (c.transition new u clock.now m) (UnitOfWork.apply r (assigned new clock metadata)) := by
  obtain ⟨fingerprint, created, hr⟩ := h
  refine ⟨fingerprint, created, fun k hu => ?_⟩
  by_cases hs : k = .state
  · subst hs
    rw [UnitOfWork.apply_some assigned_state]
    exact (Command.transition_state new u clock.now m c).symm
  · rw [← apply_outcome hm hr hu hs]
    unfold UnitOfWork.apply
    rw [assigned_other hs hu]

theorem flushedRow_ofCommand (hm : Reads m metadata) (h : OfCommand c r)
    (heq : ∀ k v, (mapper eq).same k (r k) v = true → r k = v) :
    OfCommand (c.transition new u clock.now m) (flushedRow eq clock r r new metadata) := by
  have happly : OfCommand (c.transition new u clock.now m) (UnitOfWork.apply r (assigned new clock metadata)) :=
    apply_ofCommand hm h
  obtain ⟨fingerprint, created, hr⟩ := happly
  refine ⟨fingerprint, created, fun k hu => ?_⟩
  rw [← hr k hu]
  exact Mapper.update_fresh (heq k) (UnitOfWork.set_ne _ _ hu)

theorem text_storable (s : Option String) (ok : String → Bool) : textColumn ok (text s) = s.all ok := by
  cases s <;> rfl

theorem json_storable (j : Option Json) : (j.getD .null).storable = j.all Json.storable := by
  cases j with
  | none => rfl
  | some j => rfl

def outcomeColumns : List Column := [.errorCode, .errorMessage, .resultData, .resultSummary]

theorem storable_iff (fingerprint : Option String) (created : Time) : c.storable = true ↔
    ∀ k ∈ outcomeColumns, (mapper eq).takes k (rowOf fingerprint created c k) = true := by
  simp only [outcomeColumns, List.mem_cons, List.not_mem_nil, or_false, forall_eq_or_imp, forall_eq]
  simp only [mapper, rowOf, text_storable, json_storable, Command.storable, Bool.and_eq_true, and_assoc]

theorem timestamp_takes {f : Σ k : Column, k.Value} (h : f ∈ targetFields new n metadata)
    (hk : f.1 ∉ outcomeColumns) (v : f.1.Value) : (mapper eq).takes f.1 v = true := by
  have hcol := targetFields_column h
  generalize f.1 = k at hcol hk v
  simp only [outcomeColumns, List.mem_cons, List.not_mem_nil, or_false, not_or] at hcol hk
  rcases hcol with rfl | rfl | rfl | rfl | rfl | rfl | rfl | rfl <;> first | rfl | simp at hk

theorem takes_transition (hm : Reads m metadata) (h : OfCommand c r) (hc : c.storable = true) :
    (c.transition new u n m).storable = true ↔
      ∀ f ∈ targetFields new n metadata, (mapper eq).takes f.1 f.2 = true := by
  obtain ⟨fingerprint, created, hr⟩ := h
  have happly : ∀ k ∈ outcomeColumns, UnitOfWork.apply r (outcome new n metadata) k =
      rowOf fingerprint created (c.transition new u n m) k := by
    intro k hk
    have hne : k ≠ .updatedAt ∧ k ≠ .state := by
      revert k
      decide
    exact apply_outcome hm hr hne.1 hne.2
  rw [storable_iff fingerprint created]
  constructor
  · intro hall f hf
    by_cases hk : f.1 ∈ outcomeColumns
    · have ht := hall f.1 hk
      rw [← happly f.1 hk, UnitOfWork.apply_some (outcome_eq_some.mpr hf)] at ht
      exact ht
    · exact timestamp_takes hf hk f.2
  · intro hall k hk
    rw [← happly k hk]
    cases hv : outcome new n metadata k with
    | none =>
      have hne : k ≠ .updatedAt := by
        rintro rfl
        exact absurd hk (by decide)
      rw [UnitOfWork.apply_none hv, hr k hne]
      exact (storable_iff fingerprint created).mp hc k hk
    | some v =>
      rw [UnitOfWork.apply_some hv]
      exact hall ⟨k, v⟩ (outcome_eq_some.mp hv)

theorem takes_row (h : OfCommand c r) (hc : c.storable = true) {f : Σ k : Column, k.Value}
    (hf : f ∈ targetFields new n metadata) :
    (mapper eq).takes f.1 (r f.1) = true := by
  obtain ⟨fingerprint, created, hr⟩ := h
  by_cases hk : f.1 ∈ outcomeColumns
  · rw [hr f.1 (targetFields_ne hf).2.1]
    exact (storable_iff fingerprint created).mp hc f.1 hk
  · exact timestamp_takes hf hk (r f.1)

end

/-! ## The program and the function -/

def Shows {ρ : Type} (v : DB) (o : Session ρ) : Prop :=
  ∀ id, Option.Rel OfCommand (v.commands.find id) (o.commands.find id)

inductive Answers : Except Err (Option Command) → Except Failure (Option Row) → Prop
  | missing : Answers (.ok none) (.ok none)
  | moved {c : Command} {r : Row} : OfCommand c r → Answers (.ok (some c)) (.ok (some r))
  | raises (id : UUID) (current new : CommandState) :
    Answers (.error (.stateTransition id current new)) (.error (.stateTransition id current new))
  | refused {e : Err} : (∀ id current new, e ≠ .stateTransition id current new) →
      Answers (.error e) (.error .refused)

structure Records (e : CommandStateEvent) (e' : StateEvent) : Prop where
  commandId : e'.commandId = e.commandId
  states : e.previousState = some e'.previousState ∧ e.newState = e'.newState
  source : e'.eventSource = e.eventSource.text
  metadata : ∃ metadata, Reads e.eventMetadata metadata ∧ e'.eventMetadata = eventMetadata metadata

/-- What both come to, from `s` and `o`. A session that has failed can only be rolled back. -/
structure Agree {ρ : Type} (s : Solo DB Ext) (o : Session ρ) (x : Except Err (Option Command) × Solo DB Ext)
    (y : Except Failure (Option Row) × Session ρ) : Prop where
  answers : Answers x.1 y.1
  failed : y.2.failed = x.2.failed
  shows : x.2.failed = false → Shows x.2.view y.2
  events : x.2.failed = false → ∃ l l', x.2.view.events = s.view.events ++ l ∧ y.2.events = o.events ++ l' ∧
    List.Forall₂ Records l l'

section
variable {ρ : Type} {P : Params} {b : Bool} {F : UUID → Bool} {s : Solo DB Ext} {o : Session ρ}
    {id : UUID} {new : CommandState}
  {source : Source} {m : Option Metadata} {metadata : Option Fields} {eq : Json → Json → Bool} {clock : Clock}
  {loaded : Option Command} {c : Command} {r : Row}

theorem source_ok (source : Source) : varcharOk 50 source.text = true := by
  cases source <;> decide

theorem Shows.row (h : Shows s.view o) (hr : o.commands.find id = some r) :
    ∃ c, s.view.commands.find id = some c ∧ OfCommand c r := by
  have hid := h id
  rw [hr] at hid
  generalize hc : s.view.commands.find id = found at hid
  cases hid with
  | some hcr => exact ⟨_, rfl, hcr⟩

theorem Shows.missing (h : Shows s.view o) (hr : o.commands.find id = none) : s.view.commands.find id = none := by
  have hid := h id
  rw [hr] at hid
  generalize hc : s.view.commands.find id = found at hid
  cases hid with
  | none => rfl

theorem OfCommand.state (h : OfCommand c r) : r .state = c.state := by
  obtain ⟨fingerprint, created, hr⟩ := h
  exact hr .state (by decide)

theorem OfCommand.key (h : OfCommand c r) : r .id = c.id := by
  obtain ⟨fingerprint, created, hr⟩ := h
  exact hr .id (by decide)

theorem Shows.move (h : Shows s.view o) (hcr : OfCommand c r) {e : CommandStateEvent} {o' : Session ρ}
    (ho : o'.commands = o.commands.put r) : Shows (s.view.write [.command c, .event e]) o' := by
  intro id'
  have hid := hcr.key
  rw [ho]
  simp only [DB.write_cons, DB.write_nil, Write.apply, Table.find_put, key_command, key_row, hid]
  split
  · exact .some hcr
  · exact h id'

/-- The database takes the flush and the event of the one just when it takes those of the other. -/
theorem goes_iff (hm : Reads m metadata) (h : OfCommand c r) (hc : c.storable = true)
    (heq : ∀ k v, (mapper eq).same k (r k) v = true → r k = v) : c.goes new m = true ↔
      Flushes eq r r new metadata clock.now ∧ varcharOk 50 source.text = true ∧
      (eventMetadata metadata).storable = true := by
  have htakes : (c.transition new 0 clock.now m).storable = true ↔
      ∀ f ∈ targetFields new clock.now metadata, (mapper eq).takes f.1 f.2 = true := takes_transition hm h hc
  rw [storable_transition] at htakes
  have hstate : (c.state == new || validateCommandStateTransition c.state new) = true ↔
      r .state = new ∨ validateCommandStateTransition (r .state) new = true := by
    rw [h.state]
    simp
  have hcolumns : (∀ f ∈ targetFields new clock.now metadata, (mapper eq).takes f.1 f.2 = true) ↔
      ∀ f ∈ targetFields new clock.now metadata, (mapper eq).same f.1 (r f.1) f.2 = false →
          (mapper eq).takes f.1 f.2 = true := by
    refine ⟨fun hall f hf _ => hall f hf, fun hall f hf => ?_⟩
    cases hsame : (mapper eq).same f.1 (r f.1) f.2 with
    | false => exact hall f hf hsame
    | true =>
      rw [← heq f.1 f.2 hsame]
      exact takes_row h hc hf
  unfold Command.goes
  rw [Bool.and_eq_true, Bool.and_eq_true, hstate, htakes, hcolumns, ← hm.storable]
  constructor
  · rintro ⟨⟨ht, hall⟩, hmeta⟩
    exact ⟨⟨ht, hall⟩, source_ok source, hmeta⟩
  · rintro ⟨⟨ht, hall⟩, -, hmeta⟩
    exact ⟨⟨ht, hall⟩, hmeta⟩

/-- The program does on a session that shows the same commands what the function does. -/
theorem transitionCommand_agrees (hs : s.failed = false) (ho : o.failed = false) (hv : Shows s.view o)
    (hclock : clock.now = s.ext.clock) (hm : Reads m metadata)
    (hstored : ∀ c, s.view.commands.find id = some c → c.storable = true)
    (hloaded : ∀ c, s.view.commands.find id = some c → loaded.getD c = c)
    (hinst : ∀ r, o.commands.find id = some r → o.instanceOf id r = r)
    (heq : ∀ r, o.commands.find id = some r → ∀ k v, (mapper eq).same k (r k) v = true → r k = v) :
    Agree s o (evaluate P b F (Veyaan.transitionCommand loaded id new source m) s)
      (transitionCommand eq clock id new source.text metadata o) := by
  have he := transitionCommand_ends eq clock o id new source.text metadata
  generalize transitionCommand eq clock id new source.text metadata o = y at he ⊢
  cases he with
  | pending hf => cases ho.symm.trans hf
  | missing _ hn =>
    rw [evaluate_transition_missing hs (hv.missing hn)]
    exact ⟨.missing, ho.trans hs.symm, fun _ => hv,
      fun _ => ⟨[], [], (List.append_nil _).symm, (List.append_nil _).symm, .nil⟩⟩
  | @forbidden r _ hr ha =>
    obtain ⟨c, hc, hcr⟩ := hv.row hr
    rw [hinst r hr, hcr.state] at ha ⊢
    rw [evaluate_transition_forbidden hs hc (hloaded c hc) ha]
    exact ⟨.raises .., ho.trans hs.symm, fun _ => hv,
      fun _ => ⟨[], [], (List.append_nil _).symm, (List.append_nil _).symm, .nil⟩⟩
  | @refused r s' _ hr ha hno _ =>
    obtain ⟨c, hc, hcr⟩ := hv.row hr
    rw [hinst r hr] at ha hno
    rw [hcr.state] at ha
    have hg : c.goes new m = false := by
      rw [← Bool.not_eq_true]
      exact fun hg => hno ((goes_iff hm hcr (hstored c hc) (heq r hr)).mp hg)
    obtain ⟨e, z, he, hz, hne⟩ : ∃ e z, evaluate P b F
      (Veyaan.transitionCommand loaded id new source m) s = (.error e, z) ∧
        z.failed = true ∧ ∀ i x y, e ≠ .stateTransition i x y :=
      evaluate_transition_refused hs hc (hloaded c hc) ha hg
    rw [he]
    refine ⟨.refused hne, hz.symm, fun hf => ?_, fun hf => ?_⟩ <;> cases hz.symm.trans hf
  | @moved r _ hr ha hfl hsrc hmeta =>
    obtain ⟨c, hc, hcr⟩ := hv.row hr
    rw [hinst r hr] at ha hfl ⊢
    rw [hcr.state] at ha
    have hg : c.goes new m = true := (goes_iff hm hcr (hstored c hc) (heq r hr)).mpr ⟨hfl, hsrc, hmeta⟩
    rw [evaluate_transition_moved hs hc (hloaded c hc) ha hg, ← hclock]
    refine ⟨.moved (apply_ofCommand hm hcr), ho,
      fun _ => hv.move (flushedRow_ofCommand hm hcr (heq r hr)) rfl, fun _ => ?_⟩
    refine ⟨[⟨c.id, some c.state, new, source, m⟩], _, rfl, rfl,
      .cons ⟨hcr.key, ⟨?_, rfl⟩, rfl, metadata, hm, rfl⟩ .nil⟩
    rw [hcr.state]

end

end Orm

end Veyaan
