import Veyaan.Contract

/-!
# Calls in a row

What a session keeps over any calls of `transition_command`, whatever each of them
comes to. Calls alone do not make an instance differ from its row: it takes a
session that has read the row before someone else has changed it.
-/

namespace Veyaan

namespace Orm

variable {ρ : Type}

/-! ## What calls keep -/

def fixedColumns : List Column :=
  [.id, .deviceId, .commandType, .parameters, .riskLevel, .idempotencyKey, .requestFingerprint, .requiresApproval,
    .delayedExecutionAllowed, .expiresAt, .createdAt]

structure Kept (ids : List UUID) (s s' : Session ρ) : Prop where
  others : s'.others = s.others
  events : ∃ l, s'.events = s.events ++ l ∧ ∀ e ∈ l, e.commandId ∈ ids
  frame : ∀ id ∉ ids, s'.commands.find id = s.commands.find id
  rows : ∀ id, (s'.commands.find id).isSome = (s.commands.find id).isSome
  fixed : ∀ id row row', s.commands.find id = some row → s'.commands.find id = some row' →
    ∀ k ∈ fixedColumns, row' k = row k

def InStep (s : Session ρ) : Prop :=
  ∀ id row command, s.commands.find id = some row → s.instances.find id = some command → command .state = row .state

structure Call where
  commandId : UUID
  newState : CommandState
  eventSource : String
  metadata : Option Fields
  clock : Clock

def Call.run (eq : Json → Json → Bool) (c : Call) (s : Session ρ) : Except Failure (Option Row) × Session ρ :=
  transitionCommand eq c.clock c.commandId c.newState c.eventSource c.metadata s

def calls (eq : Json → Json → Bool) : List Call → Session ρ → Session ρ
  | [], s => s
  | c :: l, s => calls eq l (c.run eq s).2

section
variable {eq : Json → Json → Bool} {clock : Clock} {s s' s'' : Session ρ} {commandId : UUID} {new : CommandState}
  {source : String} {metadata : Option Fields} {row command : Row} {k : Column} {ids : List UUID}

theorem fixedColumns_free (h : k ∈ fixedColumns) (now : Time) :
    k ≠ .state ∧ k ≠ .updatedAt ∧ k ∉ (targetFields new now metadata).map Sigma.fst := by
  have hk : k ≠ .state ∧ k ≠ .updatedAt ∧
      k ∉ [Column.deliveredAt, .acknowledgedAt, .startedAt, .finishedAt, .resultData, .resultSummary,
          .errorCode, .errorMessage] := by
    revert k
    decide
  refine ⟨hk.1, hk.2.1, fun hm => ?_⟩
  obtain ⟨f, hf, rfl⟩ := List.mem_map.mp hm
  exact hk.2.2 (targetFields_column hf)

theorem Kept.refl (ids : List UUID) (s : Session ρ) : Kept ids s s := by
  refine ⟨rfl, ⟨[], (List.append_nil _).symm, fun _ h => nomatch h⟩, fun _ _ => rfl, fun _ => rfl,
    fun id row row' h h' => ?_⟩
  cases h.symm.trans h'
  exact fun _ _ => rfl

theorem Kept.trans (h : Kept ids s s') (h' : Kept ids s' s'') : Kept ids s s'' := by
  obtain ⟨l, hl, hids⟩ := h.events
  obtain ⟨l', hl', hids'⟩ := h'.events
  refine ⟨h'.others.trans h.others, ⟨l ++ l', ?_, ?_⟩, fun id hid => (h'.frame id hid).trans (h.frame id hid),
    fun id => (h'.rows id).trans (h.rows id), fun id row row' hr hr' k hk => ?_⟩
  · rw [hl', hl, List.append_assoc]
  · intro e he
    rcases List.mem_append.mp he with he | he
    · exact hids e he
    · exact hids' e he
  · obtain ⟨mid, hmid⟩ := Option.isSome_iff_exists.mp ((h.rows id).trans (Option.isSome_iff_exists.mpr ⟨row, hr⟩))
    exact (h'.fixed id mid row' hmid hr' k hk).trans (h.fixed id row mid hr hmid k hk)

theorem Kept.mono {ids' : List UUID} (h : Kept ids s s') (hsub : ∀ id ∈ ids, id ∈ ids') : Kept ids' s s' := by
  obtain ⟨l, hl, hids⟩ := h.events
  exact ⟨h.others, ⟨l, hl, fun e he => hsub _ (hids e he)⟩,
    fun id hid => h.frame id fun hin => hid (hsub id hin), h.rows, h.fixed⟩

theorem Kept.flush (hr : s.commands.find commandId = some row) {l : List StateEvent}
    (hl : ∀ e ∈ l, e.commandId ∈ [commandId]) (ho : s'.others = s.others) (he : s'.events = s.events ++ l)
    (hc : s'.commands = s.commands.put (flushedRow eq clock row command new metadata)) : Kept [commandId] s s' := by
  have hid : flushedRow eq clock row command new metadata .id = commandId :=
    flushedRow_id.trans (Table.key_of_find hr)
  have hself : s'.commands.find commandId = some (flushedRow eq clock row command new metadata) := by
    rw [hc, Table.find_put, key_row, if_pos hid]
  have hframe : ∀ id ∉ [commandId], s'.commands.find id = s.commands.find id := by
    intro id hne
    rw [hc, Table.find_put_ne _ fun h => hne (List.mem_singleton.mpr (h.symm.trans hid))]
  refine ⟨ho, ⟨l, he, hl⟩, hframe, fun id => ?_, fun id r r' h h' k hk => ?_⟩
  · by_cases h : id = commandId
    · rw [h, hself, hr]
      rfl
    · rw [hframe id (by simpa using h)]
  · by_cases hidc : id = commandId
    · subst hidc
      cases hr.symm.trans h
      cases hself.symm.trans h'
      obtain ⟨hs, hu, hf⟩ := fixedColumns_free hk clock.now
      exact flushedRow_frame hs hu hf
    · rw [hframe id (by simpa using hidc)] at h'
      cases h.symm.trans h'
      rfl

theorem Kept.same (ids : List UUID) (hd : s'.data = s.data) : Kept ids s s' := by
  simp only [Session.data, Prod.mk.injEq] at hd
  obtain ⟨hc, he, ho⟩ := hd
  have h := Kept.refl ids s
  exact ⟨ho, by rw [he]; exact h.events, by rw [hc]; exact h.frame,
    by rw [hc]; exact h.rows, by rw [hc]; exact h.fixed⟩

theorem ends_kept {r : Except Failure (Option Row) × Session ρ}
    (h : Ends eq clock s commandId new source metadata r) :
    Kept [commandId] s r.2 := by
  cases h with
  | pending _ => exact .refl _ s
  | missing _ _ => exact .refl _ s
  | forbidden _ _ _ => exact .same _ rfl
  | refused _ hr _ _ hs =>
    rcases hs with rfl | rfl
    · exact .same _ rfl
    · exact .flush hr (l := []) (fun _ h => nomatch h) rfl (List.append_nil _).symm rfl
  | moved _ hr _ _ _ _ =>
    refine .flush hr (fun e he => ?_) rfl rfl rfl
    cases List.mem_singleton.mp he
    exact List.mem_singleton.mpr (instanceOf_id hr)

/-- Calls touch the rows they are for, in the columns that belong to states, and add
events about them. -/
theorem calls_kept (eq : Json → Json → Bool) (l : List Call) (s : Session ρ) :
    Kept (l.map Call.commandId) s (calls eq l s) := by
  induction l generalizing s with
  | nil => exact .refl _ s
  | cons c l ih =>
    have hc : Kept [c.commandId] s (c.run eq s).2 := ends_kept (transitionCommand_ends ..)
    exact (hc.mono fun id h => List.mem_cons.mpr (.inl (List.mem_singleton.mp h))).trans
      ((ih _).mono fun id h => List.mem_cons_of_mem _ h)

/-! ## Instances in step -/

theorem InStep.instanceOf (h : InStep s) (hr : s.commands.find commandId = some row) :
    (s.instanceOf commandId row) .state = row .state := by
  unfold Session.instanceOf
  cases hi : s.instances.find commandId with
  | none => rfl
  | some command => exact h commandId row command hr hi

theorem InStep.load (h : InStep s) (hr : s.commands.find commandId = some row) :
    InStep (s.loaded (s.instanceOf commandId row)) := by
  intro id row' command' hr' hi
  simp only [Session.loaded, Table.find_put, key_row, instanceOf_id hr] at hi
  split at hi
  · rename_i hid
    subst hid
    cases hi
    cases hr.symm.trans hr'
    exact h.instanceOf hr
  · exact h id row' command' hr' hi

theorem InStep.flush (h : InStep s) (hr : s.commands.find commandId = some row) :
    InStep (s.flushed eq clock row (s.instanceOf commandId row) new metadata) := by
  have hrow : flushedRow eq clock row (s.instanceOf commandId row) new metadata .id = commandId :=
    flushedRow_id.trans (Table.key_of_find hr)
  have hinst : UnitOfWork.apply (s.instanceOf commandId row) (assigned new clock metadata) .id = commandId :=
    (UnitOfWork.apply_none assigned_id).trans (instanceOf_id hr)
  intro id row' command' hr' hi
  simp only [Session.flushed, Table.find_put, key_row, hrow, hinst, instanceOf_id hr] at hr' hi
  by_cases hid : commandId = id
  · rw [if_pos hid] at hr' hi
    cases hr'
    cases hi
    rw [UnitOfWork.apply_some assigned_state, flushedRow_state.mpr fun hs => (h.instanceOf hr).symm.trans hs]
  · rw [if_neg hid] at hr' hi
    rw [if_neg hid] at hi
    exact h id row' command' hr' hi

theorem ends_inStep {r : Except Failure (Option Row) × Session ρ} (h : InStep s)
    (he : Ends eq clock s commandId new source metadata r) : InStep r.2 := by
  cases he with
  | pending _ => exact h
  | missing _ _ => exact h
  | forbidden _ hr _ => exact h.load hr
  | refused _ hr _ _ hs =>
    rcases hs with rfl | rfl
    · exact h.load hr
    · exact h.flush hr
  | moved _ hr _ _ _ _ => exact h.flush hr

theorem calls_inStep (l : List Call) (h : InStep s) : InStep (calls eq l s) := by
  induction l generalizing s with
  | nil => exact h
  | cons c l ih => exact ih (ends_inStep h (transitionCommand_ends ..))

/-- In a session whose instances are in step, after any calls, `StateTransitionError` is raised
just for what `ALLOWED_TRANSITIONS` forbids the row. -/
theorem calls_raise_iff (l : List Call) (h : InStep s) (c : Call) (hf : (calls eq l s).failed = false)
    (hr : (calls eq l s).commands.find c.commandId = some row) :
    (∃ current target, (c.run eq (calls eq l s)).1 = .error (.stateTransition c.commandId current target)) ↔
      Forbidden (row .state) c.newState := by
  have hin : InStep (calls eq l s) := calls_inStep l h
  have hstate := hin.instanceOf hr
  have he := transitionCommand_ends eq c.clock (calls eq l s) c.commandId c.newState c.eventSource c.metadata
  rw [← accepts_eq_false_iff_forbidden, ← hstate]
  unfold Call.run
  generalize transitionCommand eq c.clock c.commandId c.newState c.eventSource c.metadata (calls eq l s) = r at he
  cases he with
  | pending hf' => cases hf.symm.trans hf'
  | missing _ hn => cases hn.symm.trans hr
  | forbidden _ hr' ha =>
    cases hr.symm.trans hr'
    exact ⟨fun _ => ha, fun _ => ⟨_, _, rfl⟩⟩
  | refused _ hr' ha _ _ =>
    cases hr.symm.trans hr'
    exact ⟨fun ⟨_, _, h⟩ => (by cases h), fun h => by cases ha.symm.trans h⟩
  | moved _ hr' ha _ _ _ =>
    cases hr.symm.trans hr'
    exact ⟨fun ⟨_, _, h⟩ => (by cases h), fun h => by cases ha.symm.trans h⟩

end

end Orm

end Veyaan
