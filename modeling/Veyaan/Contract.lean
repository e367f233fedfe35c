import Veyaan.Instances

/-!
# The contract of `transition_command`

What a call is to do in a session, and when it does: the trigger may refuse what
`ALLOWED_TRANSITIONS` lets pass, a column may refuse a value, and an instance
from before may show another row than the one that is locked.
-/

namespace Veyaan

namespace Orm

open UnitOfWork (Patch Mapper)

/-! ## The contract -/

/-- The target differs from the current state and is not in `ALLOWED_TRANSITIONS` of it. -/
def Forbidden (current new : CommandState) : Prop := new ≠ current ∧ new ∉ allowedTransitions current

instance (current new : CommandState) : Decidable (Forbidden current new) := inferInstanceAs (Decidable (_ ∧ _))

def targetFields (new : CommandState) (now : Time) (metadata : Option Fields) : List (Σ k : Column, k.Value) :=
  match new with
  | .delivered => [⟨.deliveredAt, some now⟩]
  | .acknowledged => [⟨.acknowledgedAt, some now⟩]
  | .running => [⟨.startedAt, some now⟩]
  | .succeeded =>
    ⟨.finishedAt, some now⟩ :: (((field metadata "result_data").map (Sigma.mk Column.resultData)).toList ++
      ((field metadata "result_summary").map (Sigma.mk Column.resultSummary)).toList)
  | .failed =>
    ⟨.finishedAt, some now⟩ :: if metadata.all List.isEmpty then [] else
      [⟨.errorCode, (field metadata "error_code").getD .null⟩,
        ⟨.errorMessage, (field metadata "error_message").getD .null⟩]
  | .timedOut | .cancelled | .expired => [⟨.finishedAt, some now⟩]
  | _ => []

variable {ρ : Type}

def Session.data (s : Session ρ) : Table Row × List StateEvent × ρ := (s.commands, s.events, s.others)

structure Moved (s : Session ρ) (commandId : UUID) (r : Row) (new : CommandState) (source : String)
    (metadata : Option Fields) (now : Time) (s' : Session ρ) : Prop where
  row : ∃ row', s'.commands.find commandId = some row' ∧ row' .state = new ∧
    (∀ f ∈ targetFields new now metadata, row' f.1 = f.2) ∧
    ∀ k, k ≠ .state → k ≠ .updatedAt → k ∉ (targetFields new now metadata).map Sigma.fst → row' k = r k
  event : s'.events = s.events ++ [⟨commandId, r .state, new, source, eventMetadata metadata, none⟩]
  frame : ∀ id, id ≠ commandId → s'.commands.find id = s.commands.find id
  others : s'.others = s.others

/-- What a call of `transition_command` in the session `s` is to come to. -/
structure Contract (s : Session ρ) (commandId : UUID) (new : CommandState)
    (source : String) (metadata : Option Fields)
    (now : Time) (r : Except Failure (Option Row) × Session ρ) : Prop where
  missing : s.commands.find commandId = none → r.1 = .ok none ∧ r.2.data = s.data
  raises : ∀ row, s.commands.find commandId = some row →
    ((∃ current target, r.1 = .error (.stateTransition commandId current target)) ↔ Forbidden (row .state) new)
  unchanged : ∀ row, s.commands.find commandId = some row → Forbidden (row .state) new → r.2.data = s.data
  moves : ∀ row, s.commands.find commandId = some row → ¬ Forbidden (row .state) new →
    (∃ command, r.1 = .ok (some command)) ∧ Moved s commandId row new source metadata now r.2

structure Taken (eq : Json → Json → Bool) (row command : Row) (new : CommandState) (source : String)
    (metadata : Option Fields) (now : Time) : Prop where
  current : command .state = row .state
  trigger : validateCommandStateTransition (row .state) new = true
  /-- A value that counts as the one of the instance is not written: the row has it. Any other is taken. -/
  columns : ∀ f ∈ targetFields new now metadata,
    if (mapper eq).same f.1 (command f.1) f.2 then row f.1 = f.2 else (mapper eq).takes f.1 f.2 = true
  source : varcharOk 50 source = true
  metadata : (eventMetadata metadata).storable = true

/-- The session is in order; an instance that it has of a command that may not move may not
move either, and the move of one that may is taken. -/
def Honoured (eq : Json → Json → Bool) (s : Session ρ) (commandId : UUID) (new : CommandState) (source : String)
    (metadata : Option Fields) (now : Time) : Prop :=
  s.failed = false ∧ ∀ row, s.commands.find commandId = some row →
    if Forbidden (row .state) new then accepts ((s.instanceOf commandId row) .state) new = false
    else Taken eq row (s.instanceOf commandId row) new source metadata now

/-! ## The columns of a target -/

section
variable {new : CommandState} {now : Time} {metadata : Option Fields} {k : Column}

theorem outcome_eq_setAll : outcome new now metadata =
    UnitOfWork.setAll UnitOfWork.blank (targetFields new now metadata) := by
  cases new with
  | succeeded =>
    unfold outcome targetFields
    cases field metadata "result_data" <;> cases field metadata "result_summary" <;> rfl
  | failed =>
    unfold outcome targetFields
    rcases metadata with _ | _ | _ <;> rfl
  | _ => rfl

theorem targetFields_nodup : ((targetFields new now metadata).map Sigma.fst).Nodup := by
  cases new with
  | succeeded =>
    unfold targetFields
    cases field metadata "result_data" <;> cases field metadata "result_summary" <;> simp
  | failed =>
    simp only [targetFields]
    split <;> simp
  | _ => simp [targetFields]

theorem outcome_eq_some {v : k.Value} : outcome new now metadata k = some v ↔
    ⟨k, v⟩ ∈ targetFields new now metadata := by
  rw [outcome_eq_setAll, UnitOfWork.setAll_eq_some targetFields_nodup]
  simp

theorem targetFields_column {f : Σ k : Column, k.Value} (h : f ∈ targetFields new now metadata) :
    f.1 ∈ [.deliveredAt, .acknowledgedAt, .startedAt, .finishedAt, .resultData, .resultSummary,
      .errorCode, .errorMessage] := by
  cases new with
  | succeeded =>
    simp only [targetFields, List.mem_cons, List.mem_append, Option.mem_toList, Option.map_eq_some_iff] at h
    rcases h with rfl | ⟨_, _, rfl⟩ | ⟨_, _, rfl⟩ <;> simp
  | failed =>
    simp only [targetFields] at h
    split at h
    · cases List.mem_singleton.mp h
      simp
    · simp only [List.mem_cons, List.not_mem_nil, or_false] at h
      rcases h with rfl | rfl | rfl <;> simp
  | delivered | acknowledged | running | timedOut | cancelled | expired =>
    cases List.mem_singleton.mp h
    simp
  | received | validated | awaitingApproval | approved | queued | rejected | blockedByEmergencyStop => cases h

theorem targetFields_ne {f : Σ k : Column, k.Value} (h : f ∈ targetFields new now metadata) :
    f.1 ≠ .state ∧ f.1 ≠ .updatedAt ∧ f.1 ≠ .id := by
  have hf := targetFields_column h
  generalize f.1 = k at hf
  revert k
  decide

end

section
variable {eq : Json → Json → Bool} {clock : Clock} {s : Session ρ} {commandId : UUID}
    {new : CommandState} {source : String}
  {metadata : Option Fields} {row command : Row} {k : Column}

theorem assigned_state : assigned new clock metadata .state = some new := by
  unfold assigned
  rw [UnitOfWork.set_ne _ _ (by decide), UnitOfWork.set_self]

theorem assigned_other (hs : k ≠ .state) (hu : k ≠ .updatedAt) :
    assigned new clock metadata k = outcome new clock.now metadata k := by
  unfold assigned
  rw [UnitOfWork.set_ne _ _ hu, UnitOfWork.set_ne _ _ hs]

theorem assigned_field {f : Σ k : Column, k.Value} (h : f ∈ targetFields new clock.now metadata) :
    assigned new clock metadata f.1 = some f.2 := by
  obtain ⟨hs, hu, -⟩ := targetFields_ne h
  rw [assigned_other hs hu]
  exact outcome_eq_some.mpr h

theorem assigned_none (hs : k ≠ .state) (hu : k ≠ .updatedAt)
    (hk : k ∉ (targetFields new clock.now metadata).map Sigma.fst) :
    assigned new clock metadata k = none := by
  rw [assigned_other hs hu]
  cases h : outcome new clock.now metadata k with
  | none => rfl
  | some v => exact absurd (List.mem_map_of_mem (outcome_eq_some.mp h)) hk

theorem assigned_id : assigned new clock metadata .id = none := by
  refine assigned_none (by decide) (by decide) fun h => ?_
  obtain ⟨f, hf, hid⟩ := List.mem_map.mp h
  exact (targetFields_ne hf).2.2 hid

/-! ## The flush -/

structure Flushes (eq : Json → Json → Bool) (row command : Row) (new : CommandState) (metadata : Option Fields)
    (now : Time) : Prop where
  trigger : command .state = new ∨ validateCommandStateTransition (row .state) new = true
  columns : ∀ f ∈ targetFields new now metadata, (mapper eq).same f.1 (command f.1) f.2 = false →
    (mapper eq).takes f.1 f.2 = true

def flushedRow (eq : Json → Json → Bool) (clock : Clock) (row command : Row) (new : CommandState)
    (metadata : Option Fields) : Row :=
  (mapper eq).update (onUpdate clock.txNow) command (assigned new clock metadata) row

theorem takesAll_assigned : (mapper eq).takesAll
    ((mapper eq).changes command (assigned new clock metadata)) = true ↔
    ∀ f ∈ targetFields new clock.now metadata, (mapper eq).same f.1 (command f.1) f.2 = false →
      (mapper eq).takes f.1 f.2 = true := by
  rw [Mapper.takesAll_changes]
  constructor
  · intro h f hf
    exact h f.1 f.2 (assigned_field hf)
  · intro h k v hv hd
    by_cases hs : k = .state
    · subst hs
      rfl
    · by_cases hu : k = .updatedAt
      · subst hu
        rfl
      · rw [assigned_other hs hu] at hv
        exact h ⟨k, v⟩ (outcome_eq_some.mp hv) hd

theorem state_change : (((mapper eq).changes command (assigned new clock metadata) .state).any fun new =>
    !validateCommandStateTransition (row .state) new) = true ↔
      ¬ (command .state = new ∨ validateCommandStateTransition (row .state) new = true) := by
  by_cases h : command .state = new
  · rw [Mapper.changes_of_same assigned_state (by simp [mapper, h])]
    simp [h]
  · rw [Mapper.changes_of_not_same assigned_state (by simp [mapper, h])]
    simp [h]

theorem flush_of_flushes (h : Flushes eq row command new metadata clock.now) :
    s.flush eq clock row command (assigned new clock metadata) = some { s with
      commands := s.commands.put (flushedRow eq clock row command new metadata)
      instances := s.instances.put (UnitOfWork.apply command (assigned new clock metadata)) } := by
  unfold Session.flush
  simp only
  rw [if_neg (by rw [takesAll_assigned.mpr h.columns]; decide), if_neg (fun hc => state_change.mp hc h.trigger)]
  rfl

theorem flush_none (h : ¬ Flushes eq row command new metadata clock.now) :
    s.flush eq clock row command (assigned new clock metadata) = none := by
  unfold Session.flush
  simp only
  by_cases hc : (mapper eq).takesAll ((mapper eq).changes command (assigned new clock metadata)) = false
  · rw [if_pos hc]
  · rw [if_neg hc, if_pos]
    refine state_change.mpr fun ht => h ⟨ht, takesAll_assigned.mp ?_⟩
    simpa using hc

theorem flushedRow_id : flushedRow eq clock row command new metadata .id = row .id :=
  Mapper.update_of_none (UnitOfWork.set_ne _ _ (by decide)) assigned_id

theorem flushedRow_frame (hs : k ≠ .state) (hu : k ≠ .updatedAt)
    (hk : k ∉ (targetFields new clock.now metadata).map Sigma.fst) :
    flushedRow eq clock row command new metadata k = row k :=
  Mapper.update_of_none (UnitOfWork.set_ne _ _ hu) (assigned_none hs hu hk)

/-- A field of the target has its value, unless another one counts as it. -/
theorem flushedRow_field {f : Σ k : Column, k.Value} (h : f ∈ targetFields new clock.now metadata) :
    flushedRow eq clock row command new metadata f.1 = f.2 ↔
    ((mapper eq).same f.1 (command f.1) f.2 = true → row f.1 = f.2) :=
  Mapper.update_eq_iff (UnitOfWork.set_ne _ _ (targetFields_ne h).2.1) (assigned_field h)

/-! ## What a call comes to -/

def Session.loaded (s : Session ρ) (command : Row) : Session ρ := { s with instances := s.instances.put command }

def Session.flushed (eq : Json → Json → Bool) (clock : Clock) (s : Session ρ)
    (row command : Row) (new : CommandState) (metadata : Option Fields) : Session ρ :=
  { s with
    commands := s.commands.put (flushedRow eq clock row command new metadata)
    instances := (s.instances.put command).put (UnitOfWork.apply command (assigned new clock metadata)) }

def Session.moved (eq : Json → Json → Bool) (clock : Clock) (s : Session ρ) (row command : Row) (new : CommandState)
    (source : String) (metadata : Option Fields) : Session ρ :=
  { s.flushed eq clock row command new metadata with
    events := s.events ++ [⟨command .id, command .state, new, source, eventMetadata metadata, none⟩] }

inductive Ends (eq : Json → Json → Bool) (clock : Clock) (s : Session ρ) (commandId : UUID) (new : CommandState)
    (source : String) (metadata : Option Fields) : Except Failure (Option Row) × Session ρ → Prop
  | pending : s.failed = true → Ends eq clock s commandId new source metadata (.error .pendingRollback, s)
  | missing : s.failed = false → s.commands.find commandId = none →
      Ends eq clock s commandId new source metadata (.ok none, s)
  | forbidden {r : Row} : s.failed = false → s.commands.find commandId = some r →
      accepts ((s.instanceOf commandId r) .state) new = false →
      Ends eq clock s commandId new source metadata
        (.error (.stateTransition commandId ((s.instanceOf commandId r) .state) new),
          s.loaded (s.instanceOf commandId r))
  | refused {r : Row} {s' : Session ρ} : s.failed = false → s.commands.find commandId = some r →
      accepts ((s.instanceOf commandId r) .state) new = true →
      ¬ (Flushes eq r (s.instanceOf commandId r) new metadata clock.now ∧ varcharOk 50 source = true ∧
        (eventMetadata metadata).storable = true) →
      s' = s.loaded (s.instanceOf commandId r) ∨ s' = s.flushed eq clock r (s.instanceOf commandId r) new metadata →
      Ends eq clock s commandId new source metadata (.error .refused, s'.fail)
  | moved {r : Row} : s.failed = false → s.commands.find commandId = some r →
      accepts ((s.instanceOf commandId r) .state) new = true →
      Flushes eq r (s.instanceOf commandId r) new metadata clock.now → varcharOk 50 source = true →
      (eventMetadata metadata).storable = true →
      Ends eq clock s commandId new source metadata
        (.ok (some (UnitOfWork.apply (s.instanceOf commandId r) (assigned new clock metadata))),
          s.moved eq clock r (s.instanceOf commandId r) new source metadata)

theorem accepts_eq_false {current new : CommandState} : accepts current new = false ↔
    current ∈ terminalStates ∧ current ≠ new ∨ new ∉ allowedTransitions current ∧ current ≠ new := by
  cases current <;> cases new <;> decide

theorem transitionCommand_ends (eq : Json → Json → Bool) (clock : Clock) (s : Session ρ) (commandId : UUID)
    (new : CommandState) (source : String) (metadata : Option Fields) :
    Ends eq clock s commandId new source metadata (transitionCommand eq clock commandId new source metadata s) := by
  unfold transitionCommand
  by_cases hf : s.failed = true
  · rw [if_pos hf]
    exact .pending hf
  · rw [if_neg hf]
    have hf : s.failed = false := by simpa using hf
    cases h : s.commands.find commandId with
    | none => exact .missing hf h
    | some row =>
      simp only
      by_cases ha : accepts ((s.instanceOf commandId row) .state) new = true
      · have hg := (not_congr accepts_eq_false).mp (by rw [ha]; decide)
        rw [not_or] at hg
        rw [if_neg hg.1, if_neg hg.2]
        by_cases hfl : Flushes eq row (s.instanceOf commandId row) new metadata clock.now
        · rw [flush_of_flushes hfl]
          by_cases he : varcharOk 50 source = true ∧ (eventMetadata metadata).storable = true
          · simp only [Session.add, StateEvent.storable, he.1, he.2, Option.all_none, Bool.and_self, if_true]
            exact .moved hf h ha hfl he.1 he.2
          · have hn : (varcharOk 50 source && (eventMetadata metadata).storable &&
                Option.all (varcharOk 64) none) = false := by
              simpa using he
            simp only [Session.add, StateEvent.storable, hn]
            exact .refused hf h ha (fun hc => he hc.2) (.inr rfl)
        · rw [flush_none hfl]
          exact .refused hf h ha (fun hc => hfl hc.1) (.inl rfl)
      · have ha : accepts ((s.instanceOf commandId row) .state) new = false := by simpa using ha
        rcases accepts_eq_false.mp ha with hg | hg
        · rw [if_pos hg]
          exact .forbidden hf h ha
        · by_cases hg' : (s.instanceOf commandId row) .state ∈ terminalStates ∧
              (s.instanceOf commandId row) .state ≠ new
          · rw [if_pos hg']
            exact .forbidden hf h ha
          · rw [if_neg hg', if_pos hg]
            exact .forbidden hf h ha

/-! ## When a call does what it is to do -/

theorem accepts_eq_false_iff_forbidden {current : CommandState} : accepts current new = false ↔
    Forbidden current new := by
  unfold Forbidden
  by_cases h : current = new
  · subst h
    simp [accepts_self]
  · rw [← Bool.not_eq_true, accepts_iff h]
    simp [Ne.symm h]

theorem instanceOf_id (h : s.commands.find commandId = some row) :
    (s.instanceOf commandId row) .id = commandId := by
  unfold Session.instanceOf
  cases hi : s.instances.find commandId with
  | none => exact Table.key_of_find h
  | some command => exact Table.key_of_find hi

theorem Taken.flushes (h : Taken eq row command new source metadata clock.now) :
    Flushes eq row command new metadata clock.now := by
  refine ⟨.inr h.trigger, fun f hf hd => ?_⟩
  have hk := h.columns f hf
  rwa [if_neg (by rw [hd]; decide)] at hk

theorem flushedRow_state : flushedRow eq clock row command new metadata .state = new ↔
    (command .state = new → row .state = new) := by
  refine (Mapper.update_eq_iff (UnitOfWork.set_ne _ _ (by decide)) assigned_state).trans ?_
  simp [mapper]

theorem find_moved (h : s.commands.find commandId = some row) :
    (s.moved eq clock row command new source metadata).commands.find commandId =
    some (flushedRow eq clock row command new metadata) := by
  have hid : row .id = commandId := Table.key_of_find h
  unfold Session.moved Session.flushed
  rw [Table.find_put, key_row, flushedRow_id, if_pos hid]

theorem moved_iff (h : s.commands.find commandId = some row) (hid : command .id = commandId)
    (hf : Flushes eq row command new metadata clock.now) (hs : varcharOk 50 source = true)
    (hm : (eventMetadata metadata).storable = true) :
    Moved s commandId row new source metadata clock.now (s.moved eq clock row command new source metadata) ↔
      Taken eq row command new source metadata clock.now := by
  constructor
  · rintro ⟨⟨row', hrow', -, hown, -⟩, hevent, -, -⟩
    rw [find_moved h] at hrow'
    cases hrow'
    have hcurrent : command .state = row .state := by
      have he := List.append_cancel_left hevent
      simp only [List.cons.injEq, StateEvent.mk.injEq] at he
      exact he.1.2.1
    refine ⟨hcurrent, ?_, fun f hfield => ?_, hs, hm⟩
    · rcases hf.trigger with hnew | ht
      · simp [validateCommandStateTransition, ← hcurrent, hnew]
      · exact ht
    · split
      · rename_i hsame
        exact (flushedRow_field hfield).mp (hown f hfield) hsame
      · rename_i hdiff
        exact hf.columns f hfield (by simpa using hdiff)
  · intro ht
    refine ⟨⟨_, find_moved h, ?_, fun f hfield => ?_, fun k hks hku hk => flushedRow_frame hks hku hk⟩, ?_,
      fun id hne => ?_, rfl⟩
    · exact flushedRow_state.mpr fun hnew => ht.current.symm.trans hnew
    · refine (flushedRow_field hfield).mpr fun hsame => ?_
      have hk := ht.columns f hfield
      rwa [if_pos hsame] at hk
    · unfold Session.moved
      rw [hid, ht.current]
    · refine Table.find_put_ne _ ?_
      rw [key_row, flushedRow_id]
      exact fun heq => hne (heq.symm.trans (Table.key_of_find h))

theorem contract_of_none {r : Except Failure (Option Row) × Session ρ} (h : s.commands.find commandId = none) :
    Contract s commandId new source metadata clock.now r ↔ r.1 = .ok none ∧ r.2.data = s.data := by
  constructor
  · intro hc
    exact hc.missing h
  · intro hr
    refine ⟨fun _ => hr, fun row hrow => ?_, fun row hrow => ?_, fun row hrow => ?_⟩ <;> cases h.symm.trans hrow

theorem contract_of_some {r : Except Failure (Option Row) × Session ρ} (h : s.commands.find commandId = some row) :
    Contract s commandId new source metadata clock.now r ↔
      if Forbidden (row .state) new then
        (∃ current target, r.1 = .error (.stateTransition commandId current target)) ∧ r.2.data = s.data
      else (∃ command, r.1 = .ok (some command)) ∧ Moved s commandId row new source metadata clock.now r.2 := by
  constructor
  · intro hc
    split
    · rename_i hforb
      exact ⟨(hc.raises row h).mpr hforb, hc.unchanged row h hforb⟩
    · rename_i hforb
      exact hc.moves row h hforb
  · intro hr
    by_cases hforb : Forbidden (row .state) new
    · rw [if_pos hforb] at hr
      refine ⟨fun hn => (by cases h.symm.trans hn), fun row' h' => ?_,
        fun row' h' _ => hr.2, fun row' h' hnot => ?_⟩
      · cases h.symm.trans h'
        exact ⟨fun _ => hforb, fun _ => hr.1⟩
      · cases h.symm.trans h'
        exact absurd hforb hnot
    · rw [if_neg hforb] at hr
      refine ⟨fun hn => (by cases h.symm.trans hn), fun row' h' => ?_, fun row' h' hyes => ?_, fun row' h' _ => ?_⟩
      · cases h.symm.trans h'
        obtain ⟨⟨command, hok⟩, -⟩ := hr
        refine ⟨fun ⟨_, _, he⟩ => ?_, fun hyes => absurd hyes hforb⟩
        rw [hok] at he
        cases he
      · cases h.symm.trans h'
        exact absurd hyes hforb
      · cases h.symm.trans h'
        exact hr

theorem honoured_of_none (hs : s.failed = false) (h : s.commands.find commandId = none) :
    Honoured eq s commandId new source metadata clock.now := by
  refine ⟨hs, fun row hrow => ?_⟩
  cases h.symm.trans hrow

theorem honoured_of_some (hs : s.failed = false) (h : s.commands.find commandId = some row) :
    Honoured eq s commandId new source metadata clock.now ↔
      if Forbidden (row .state) new then accepts ((s.instanceOf commandId row) .state) new = false
      else Taken eq row (s.instanceOf commandId row) new source metadata clock.now := by
  constructor
  · intro hh
    exact hh.2 row h
  · intro hh
    refine ⟨hs, fun row' h' => ?_⟩
    cases h.symm.trans h'
    exact hh

/-- A session that waits for its rollback does nothing of the contract. -/
theorem not_contract_pending : ¬ Contract s commandId new source metadata clock.now
    (.error .pendingRollback, s) := by
  intro hc
  cases h : s.commands.find commandId with
  | none => cases ((contract_of_none h).mp hc).1
  | some row =>
    have hrow := (contract_of_some h).mp hc
    split at hrow
    · obtain ⟨⟨_, _, he⟩, -⟩ := hrow
      cases he
    · obtain ⟨⟨_, he⟩, -⟩ := hrow
      cases he

theorem ends_contract_iff {r : Except Failure (Option Row) × Session ρ}
    (h : Ends eq clock s commandId new source metadata r) :
    Contract s commandId new source metadata clock.now r ↔
    Honoured eq s commandId new source metadata clock.now := by
  cases h with
  | pending hf =>
    refine ⟨fun hc => absurd hc not_contract_pending, fun hh => ?_⟩
    cases hf.symm.trans hh.1
  | missing hf hn => exact ⟨fun _ => honoured_of_none hf hn, fun _ => (contract_of_none hn).mpr ⟨rfl, rfl⟩⟩
  | forbidden hf hr ha =>
    rw [contract_of_some hr, honoured_of_some hf hr]
    split
    · exact ⟨fun _ => ha, fun _ => ⟨⟨_, _, rfl⟩, rfl⟩⟩
    · rename_i hforb
      refine ⟨fun ⟨⟨_, he⟩, _⟩ => (by cases he), fun ht => absurd ?_ hforb⟩
      rw [← ht.current]
      exact accepts_eq_false_iff_forbidden.mp ha
  | refused hf hr ha hnot _ =>
    rw [contract_of_some hr, honoured_of_some hf hr]
    split
    · refine ⟨fun ⟨⟨_, _, he⟩, _⟩ => (by cases he), fun hno => ?_⟩
      rw [ha] at hno
      cases hno
    · refine ⟨fun ⟨⟨_, he⟩, _⟩ => (by cases he), fun ht => absurd ⟨ht.flushes, ht.source, ht.metadata⟩ hnot⟩
  | moved hf hr ha hfl hs hm =>
    rw [contract_of_some hr, honoured_of_some hf hr]
    split
    · refine ⟨fun ⟨⟨_, _, he⟩, _⟩ => (by cases he), fun hno => ?_⟩
      rw [ha] at hno
      cases hno
    · refine (and_iff_right ⟨_, rfl⟩).trans (moved_iff hr (instanceOf_id hr) hfl hs hm)

/-- A call does what it is to do just when its session is in order, and the database takes the move. -/
theorem contract_iff (eq : Json → Json → Bool) (clock : Clock) (s : Session ρ)
    (commandId : UUID) (new : CommandState) (source : String) (metadata : Option Fields) :
    Contract s commandId new source metadata clock.now
    (transitionCommand eq clock commandId new source metadata s) ↔
      Honoured eq s commandId new source metadata clock.now :=
  ends_contract_iff (transitionCommand_ends eq clock s commandId new source metadata)

end

/-! A device refuses a command that has been delivered to it, and the consumer asks for `FAILED`. -/

def deliveredRow : Row
  | .id => 1
  | .deviceId => 2
  | .commandType => "system.ping"
  | .parameters => .obj []
  | .riskLevel => .low
  | .idempotencyKey => "ping-1"
  | .requestFingerprint => none
  | .state => .delivered
  | .requiresApproval | .delayedExecutionAllowed => false
  | .expiresAt => none
  | .deliveredAt => some 12
  | .acknowledgedAt | .startedAt | .finishedAt => none
  | .resultData | .resultSummary | .errorCode | .errorMessage => .null
  | .createdAt => 10
  | .updatedAt => 12

def deliveredSession : Session Unit := ⟨Table.empty.put deliveredRow, [], (), Table.empty.put deliveredRow, false⟩

/-- `==` where no number, list or dictionary is compared. -/
def textEq : Json → Json → Bool
  | .null, .null => true
  | .str a, .str b => a == b
  | _, _ => false

def refusalFields : Fields :=
  [("error_message", .str "busy"), ("dedup_key", .str "acknowledged:00000000-0000-0000-0000-000000000001")]

theorem refusal_breaks_contract : ¬ Contract deliveredSession 1 .failed "device" (some refusalFields) 15
    (transitionCommand textEq ⟨14, 15, 13⟩ 1 .failed "device" (some refusalFields) deliveredSession) := by
  intro hc
  have hh := (ends_contract_iff (transitionCommand_ends textEq ⟨14, 15, 13⟩ deliveredSession 1 .failed "device"
    (some refusalFields))).mp hc
  have ht := hh.2 deliveredRow rfl
  rw [if_neg (by decide)] at ht
  -- there is no edge from DELIVERED to FAILED in the trigger
  exact absurd ht.trigger (by decide)

end Orm

end Veyaan
