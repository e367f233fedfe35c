import Veyaan.Invariants
import Veyaan.Serial.Rows

/-!
# Every call writes all of its rows, or none

The programs of the calls, run alone from a store of the system, whatever
statement of theirs fails.
-/

namespace Veyaan

open Sys

section
variable {P : Params} {J : Ext → Prop} {α : Type} {call : Call} {d : DB}

def Finished (W : DB → Prop) (r : Except Err α) (d' : DB) (o : Open DB) : Prop :=
  W d' ∧ ∀ a, r = .ok a → o.failed = false → o.view = d'

section
variable {W : DB → Prop} (hW : W d)
include hW

theorem finished_error {e : Err} {o : Open DB} : Finished (α := α) W (.error e) d o := ⟨hW, by simp⟩

theorem finished_idle {r : Except Err α} : Finished W r d (.idle d) := ⟨hW, fun _ _ _ => rfl⟩

theorem finished_lock {r : Except Err α} : Finished W r d (Open.idle d).lock := ⟨hW, fun _ _ _ => rfl⟩

theorem finished_failed {r : Except Err α} {o : Open DB} (h : o.failed = true) : Finished W r d o :=
  ⟨hW, fun _ _ hf => by rw [h] at hf; cases hf⟩

end

theorem within_session {W : DB → Prop} {body : Op α} (h : within P true J W body (Finished W) d (.idle d)) :
    within P true J W (withSession body) (fun _ d' o' => W d' ∧ o'.locks = false) d (.idle d) := by
  refine solo_withSession (alone_mono (fun r d' o' hr => ?_) h)
  cases r with
  | ok a =>
    refine ⟨fun _ => ⟨hr.1, rfl⟩, fun hf => ?_⟩
    rw [hr.2 a rfl hf]
    exact ⟨hr.1, hr.1, rfl⟩
  | error e => exact ⟨hr.1, rfl⟩

def Ends (P : Params) (call : Call) (d : DB) (r : Except Err α) (d' : DB) (o : Open DB) : Prop :=
  Wrote P call d d' ∧ ∀ a, r = .ok a → o.failed = false → o.view = d'

theorem ends_error {e : Err} {o : Open DB} : Ends (α := α) P call d (.error e) d o := finished_error (.inl rfl)

theorem ends_idle {r : Except Err α} : Ends P call d r d (.idle d) := finished_idle (.inl rfl)

theorem ends_lock {r : Except Err α} : Ends P call d r d (Open.idle d).lock := finished_lock (.inl rfl)

theorem ends_failed {r : Except Err α} {o : Open DB} (h : o.failed = true) : Ends P call d r d o :=
  finished_failed (.inl rfl) h

theorem ends_wrote {r : Except Err α} {ws : List Write} (h : Rows P d call ws) :
    Ends P call d r (d.write ws) (.idle (d.write ws)) :=
  finished_idle (.inr ⟨ws, .inl h, rfl⟩)

theorem solo_session {body : Op α} (h : solo P true (Wrote P call d) body (Ends P call d) d (.idle d)) :
    solo P true (Wrote P call d) (withSession body)
    (fun _ d' o' => Wrote P call d d' ∧ o'.locks = false) d (.idle d) :=
  within_session h

theorem within_commitRows {t : Tag} {f : Unit → Op α} {v : DB} {ws : List Write}
    (hr : Rows P d call ws) (ht : Timed J ws)
    (hv : v = d.write ws) (hk : WroteIn J P call d (d.write ws) → within P true J (WroteIn J P call d) (f ())
      (Finished (WroteIn J P call d)) (d.write ws) (.idle (d.write ws))) :
    within P true J (WroteIn J P call d) ((commit t).bind f) (Finished (WroteIn J P call d)) d (.seeing v) := by
  subst hv
  have h : WroteIn J P call d (d.write ws) := .inr ⟨ws, .inl hr, ht, rfl⟩
  exact solo_commit rfl (fun _ => finished_error (.inl rfl)) h (hk h)

theorem solo_commitRows {t : Tag} {f : Unit → Op α} {v : DB} {ws : List Write} (hr : Rows P d call ws)
    (hv : v = d.write ws)
    (hk : solo P true (Wrote P call d) (f ()) (Ends P call d) (d.write ws) (.idle (d.write ws))) :
    solo P true (Wrote P call d) ((commit t).bind f) (Ends P call d) d (.seeing v) := by
  subst hv
  exact solo_commit rfl (fun _ => ends_error) (.inr ⟨ws, .inl hr, rfl⟩) hk

/-! ## `CommandService` -/

theorem within_cancelCommand {id owner : UUID} :
    within P true J (WroteIn J P (.cancel id owner) d) (cancelCommand id owner)
    (fun _ d' o' => WroteIn J P (.cancel id owner) d d' ∧ o'.locks = false) d (.idle d) := by
  have hsame : WroteIn J P (.cancel id owner) d d := .inl rfl
  refine within_session (solo_select rfl (fun _ => finished_error hsame) ?_)
  cases hc : d.commands.find id with
  | none => simp only [Open.idle, hc]; exact finished_idle hsame
  | some c =>
    have hid : c.id = id := by simpa using Table.key_of_find hc
    simp only [Open.idle, hc, Option.map_some]
    split
    · exact finished_idle hsame
    rename_i ho
    refine alone_bind (alone_attempt ?_)
    rw [← Prog.bind_ret (transitionCommand _ _ _ _ _)]
    refine within_transition rfl (by rw [hid]; simp [hc]) (fun _ o' hf => ?_) (fun hn => ?_) (fun _ _ _ => ?_)
      (fun _ e o' _ _ _ hne hf => ?_) fun c' u x hx hc' hacc hgo => ?_
    · exact finished_failed hsame hf
    · rw [hid, hc] at hn; cases hn
    · exact finished_lock hsame
    · cases e <;> exact finished_failed hsame hf
    · rw [hid, hc] at hc'
      cases hc'
      have hrows : Rows P d (.cancel id owner) (moveRows c .cancelled .api none u x.clock) :=
        .cancel hc (by simpa using ho) hacc
      exact within_commitRows hrows (timed_moveRows hx) rfl fun h => finished_idle h

theorem solo_cancelCommand {id owner : UUID} : solo P true (Wrote P (.cancel id owner) d) (cancelCommand id owner)
    (fun _ d' o' => Wrote P (.cancel id owner) d d' ∧ o'.locks = false) d (.idle d) :=
  alone_imp (fun _ h => h.wrote) (alone_mono (fun _ _ _ h => ⟨h.1.wrote, h.2⟩) within_cancelCommand)

theorem solo_ownTransition {β : Type} {Q : Except Err β → DB → Open DB → Prop}
    {I : DB → Prop} {c : Command} {v : DB}
    {new : CommandState} {f : Option Command → Op β} (hc : v.commands.find c.id = some c)
    (hacc : accepts c.state new = true) (hE : ∀ e o', Q (.error e) d o')
    (hk : ∀ u n, solo P true I (f (some (c.transition new u n none))) Q d
      (.seeing (v.write (moveRows c new .api none u n)))) :
    solo P true I ((transitionCommand (some c) c.id new .api none).bind f) Q d (.seeing v) := by
  refine solo_transition rfl (by rintro _ ⟨rfl⟩; exact hc) (fun _ _ _ => hE _ _)
    (fun hn => ?_) (fun c' hc' hbad => ?_)
    (fun _ _ _ _ _ _ _ _ => hE _ _) fun c' u n hc' _ _ => ?_
  · rw [show v.commands.find c.id = none from hn] at hc; cases hc
  · cases hc.symm.trans hc'
    rw [hacc] at hbad; cases hbad
  · cases hc.symm.trans hc'
    exact hk u n

theorem write_insertRows (c : Command) (tid : UUID) :
    (d.write (insertRows c tid)).commands = d.commands.put c := rfl

theorem write_moveRows (c : Command) (new : CommandState) (source : Source) (m : Option Metadata) (u n : Time) :
    (d.write (moveRows c new source m u n)).commands = d.commands.put (c.transition new u n m) := rfl

theorem find_moveRows (c : Command) (new : CommandState) (source : Source) (m : Option Metadata) (u n : Time) :
    (d.write (moveRows c new source m u n)).commands.find c.id = some (c.transition new u n m) := by
  have := (c.transition_same new u n m).id
  rw [write_moveRows, ← this]
  exact Table.find_put_self ..

theorem write_createRows_outbox (c : Command) (tid : UUID) (new : CommandState) (u₁ n₁ u₂ n₂ : Time) :
    (d.write (createRows c tid new u₁ n₁ u₂ n₂)).outbox = d.outbox := by
  simp only [createRows, insertRows, moveRows, List.cons_append, List.nil_append,
    DB.write_cons, DB.write_nil, Write.apply]

theorem write_createRows_approvals (c : Command) (tid : UUID) (new : CommandState) (u₁ n₁ u₂ n₂ : Time) :
    (d.write (createRows c tid new u₁ n₁ u₂ n₂)).approvals = d.approvals := by
  simp only [createRows, insertRows, moveRows, List.cons_append, List.nil_append,
    DB.write_cons, DB.write_nil, Write.apply]

section
variable {Q : Except Err CreateCommandResponse → DB → Open DB → Prop} {I : DB → Prop}
    {r : CreateCommandRequest} {owner : UUID}

theorem solo_insertNewCommand {dev : Device} {df : CommandDefinition}
    (hdf : commandRegistry r.commandType = some df)
    (hdev : d.devices.find r.deviceId = some dev) (howner : dev.ownerId = owner) (hE : ∀ e o, Q (.error e) d o)
    (hI : ∀ a ws, CreatedRows P d r owner a ws → I (d.write ws))
    (hk : ∀ a ws, CreatedRows P d r owner a ws → Q (.ok a) (d.write ws) (.idle (d.write ws))) :
    solo P true I (insertNewCommand P r owner dev df) Q d (.idle d) := by
  unfold insertNewCommand
  refine solo_uuid4 fun cid => solo_now fun now => ?_
  generalize hcmd : r.command df cid now = c
  have hid : c.id = cid := by rw [← hcmd]; rfl
  have hst : c.state = .received := by rw [← hcmd]; rfl
  have hnow : c = r.command df c.id c.updatedAt := by rw [← hcmd]; rfl
  subst hid
  refine solo_execute rfl (fun _ => hE _ _) (fun _ _ => hE _ _) fun ws hws => ?_
  simp only [insertCommand] at hws
  split at hws
  · cases hws
  rename_i hnew
  simp only [Bool.or_eq_true, not_or, Bool.not_eq_true, Option.isSome_eq_false_iff,
    Option.isNone_iff_eq_none] at hnew
  obtain ⟨hnew, hfree⟩ : d.commands.find c.id = none ∧ _ := hnew
  have hfree : d.byIdempotencyKey r.deviceId r.idempotencyKey = none := by
    rw [DB.byIdempotencyKey, List.find?_eq_none]
    rw [List.any_eq_false] at hfree
    rw [hnow] at hfree
    exact hfree
  split at hws <;> cases hws
  refine solo_uuid4 fun tid => solo_execute rfl (fun _ => hE _ _) (fun _ _ => hE _ _) fun ws hws => ?_
  simp only [insertTask] at hws
  split at hws <;> cases hws
  rename_i htask
  have htask : d.tasks.find c.id = none := Option.not_isSome_iff_eq_none.mp htask
  refine solo_execute rfl (fun _ => hE _ _) (fun _ _ => hE _ _) fun ws hws => ?_
  simp only [insertEvent] at hws
  split at hws <;> cases hws
  -- the command, its task and its first event are written
  have htwo : ∀ {new : CommandState} {f : Option Command → Op CreateCommandResponse},
    new = .awaitingApproval ∨ new = .queued →
      (∀ c₂ u₁ n₁ u₂ n₂, c₂.map Command.state = some new → solo P true I (f c₂) Q d
        (.seeing (d.write (createRows c tid new u₁ n₁ u₂ n₂)))) →
      solo P true I ((transitionCommand (some c) c.id .validated .api none).bind fun c₁ =>
        (transitionCommand c₁ c.id new .api none).bind f) Q d (.seeing (d.write (insertRows c tid))) := by
    intro new f hn hk
    refine solo_ownTransition (by rw [write_insertRows]; exact Table.find_put_self ..) (by rw [hst]; decide)
      hE fun u₁ n₁ => ?_
    have hid₁ := (c.transition_same .validated u₁ n₁ none).id
    conv in transitionCommand _ c.id _ _ _ => rw [← hid₁]
    refine solo_ownTransition (by rw [hid₁]; exact find_moveRows ..) ?_ hE fun u₂ n₂ => ?_
    · rw [Command.transition_state]
      rcases hn with rfl | rfl <;> decide
    · have := hk (some ((c.transition .validated u₁ n₁ none).transition new u₂ n₂ none)) u₁ n₁ u₂ n₂
        (by rw [Option.map_some, Command.transition_state])
      simpa only [createRows, DB.write_append] using this
  split
  · rename_i hra
    refine htwo (.inl rfl) fun c₂ u₁ n₁ u₂ n₂ hc₂ => alone_bind ?_
    unfold createApproval
    refine solo_token fun nonce => solo_now fun at' => solo_uuid4 fun aid => ?_
    refine solo_execute rfl (fun _ => hE _ _) (fun _ _ => hE _ _) fun ws hws => ?_
    obtain ⟨hn, -, -, rfl⟩ := insertApproval_ok.mp hws
    obtain ⟨c₂, rfl, hst₂⟩ := Option.map_eq_some_iff.mp hc₂
    have happ : d.approvals.find aid = none := (congrArg (·.find aid) (write_createRows_approvals ..)).symm.trans hn
    have hrows : CreatedRows P d r owner ⟨c.id, tid, c₂.state, true, some aid, some nonce⟩
        (createRows c tid .awaitingApproval u₁ n₁ u₂ n₂ ++
          [.approval (newApproval P r c.riskLevel c.id owner aid at' nonce)]) := by
      rw [hst₂]
      exact .awaiting hdf hnow hra hnew hfree htask hdev howner happ
    refine solo_select rfl (fun _ => hE _ _) (solo_commit rfl (fun _ => hE _ _) ?_ ?_)
    · have := hI _ _ hrows
      rw [DB.write_append] at this
      exact this
    · have := hk _ _ hrows
      rw [DB.write_append] at this
      exact this
  · rename_i hra
    refine htwo (.inr rfl) fun c₂ u₁ n₁ u₂ n₂ hc₂ => ?_
    refine solo_addEvent rfl (fun _ _ _ => hE _ _) fun eid at' hn => ?_
    obtain ⟨c₂, rfl, hst₂⟩ := Option.map_eq_some_iff.mp hc₂
    have hout : d.outbox.find eid = none := (congrArg (·.find eid) (write_createRows_outbox ..)).symm.trans hn
    have hrows : CreatedRows P d r owner ⟨c.id, tid, c₂.state, false, none, none⟩
        (createRows c tid .queued u₁ n₁ u₂ n₂ ++
          [.outbox (newEvent .commandQueued .command c.id (readyMsg c dev.id) eid at')]) := by
      rw [hst₂]
      exact .queued hdf hnow (by simpa using hra) hnew hfree htask hdev howner hout
    refine solo_commit rfl (fun _ => hE _ _) ?_ ?_
    · have := hI _ _ hrows
      rw [DB.write_append] at this
      exact this
    · have := hk _ _ hrows
      rw [DB.write_append] at this
      exact this

theorem solo_creates (hE : ∀ e, Q (.error e) d (.idle d))
    (hW : ∀ a ws, CreatedRows P d r owner a ws → I (d.write ws) ∧ Q (.ok a) (d.write ws) (.idle (d.write ws)) ∧
      Q (.error .db) (d.write ws) (.idle (d.write ws))) :
      solo P true I (createCommand P r owner) Q d (.idle d) := by
  refine solo_withSession (solo_select rfl (fun _ => hE _) ?_)
  cases hdev : d.devices.find r.deviceId with
  | none => simp only [Open.idle, hdev]; exact hE _
  | some dev =>
    simp only [Open.idle, hdev]
    split
    · exact hE _
    rename_i howner
    refine solo_columnValue (fun _ => hE _) fun _ => ?_
    split
    · exact hE _
    refine solo_isActive (fun _ => hE _) (fun _ => hE _) fun stopped => ?_
    unfold createChecked
    split
    · exact hE _
    refine solo_select rfl (fun _ => hE _) ?_
    split
    · split
      · exact hE _
      · exact hE _
    · split
      · exact hE _
      · rename_i df hdf
        split
        · refine solo_insertNewCommand hdf hdev (by simpa using howner) (fun e _ => hE e)
            (fun a ws h => (hW a ws h).1)
            fun a ws h => ?_
          obtain ⟨hI, hok, herr⟩ := hW a ws h
          exact ⟨fun _ => herr, fun _ => ⟨hI, hok⟩⟩
        · exact hE _

end

theorem solo_createCommand {r : CreateCommandRequest} {owner : UUID} : solo P true (Wrote P (.create r owner) d)
    (createCommand P r owner) (fun _ d' o' => Wrote P (.create r owner) d d' ∧ o'.locks = false) d (.idle d) := by
  refine solo_creates (fun _ => ⟨.inl rfl, rfl⟩) fun a ws h => ?_
  have hw : Wrote P (.create r owner) d (d.write ws) := .inr ⟨ws, .inl h.rows, rfl⟩
  exact ⟨hw, ⟨hw, rfl⟩, hw, rfl⟩

/-! ## `ApprovalService` -/

theorem updateApproval_ok {id : UUID} {f : Approval → Approval} {v : DB} {ws : List Write}
    (h : updateApproval id f v = .ok ws) : ∃ a, v.approvals.find id = some a ∧
    ws = [.approval { f a with id := a.id }] := by
  simp only [updateApproval] at h
  split at h
  · cases h
  · rename_i a ha
    split at h <;> cases h
    exact ⟨a, ha, rfl⟩

/-- How a decision ends in which no statement fails and the columns hold values that they
take, and what it leaves. -/
inductive DecideEnds (P : Params) (J : Ext → Prop) (d : DB) (id owner : UUID) (approve : Bool) (nonce : String)
    (note : Option String) : Except Err (Option Unit) → DB → Prop
  | missing : d.approvals.find id = none → DecideEnds P J d id owner approve nonce note (.ok none) d
  | foreign {a} : d.approvals.find id = some a → a.ownerId ≠ owner →
      DecideEnds P J d id owner approve nonce note (.ok none) d
  | plain {a} : d.approvals.find id = some a → a.ownerId = owner → a.status ≠ .pending → P.plainStr = true →
      DecideEnds P J d id owner approve nonce note (.error .attributeError) d
  | decided {a} : d.approvals.find id = some a → a.ownerId = owner → a.status ≠ .pending → P.plainStr = false →
      DecideEnds P J d id owner approve nonce note
        (.error (.api .approvalAlreadyDecided ("Approval already " ++ a.status.value) 400)) d
  | expired {a x} : d.approvals.find id = some a → a.ownerId = owner → a.status = .pending →
      J x → a.expiresAt < x.clock →
      DecideEnds P J d id owner approve nonce note (.error (.api .approvalExpired "Approval has expired" 400))
        (d.write [.approval { a with status := .expired }])
  | wrongNonce {a x} : d.approvals.find id = some a → a.ownerId = owner → a.status = .pending → J x →
      ¬ a.expiresAt < x.clock → P.sha256 nonce ≠ a.decisionNonceHash →
      DecideEnds P J d id owner approve nonce note
      (.error (.api .invalidDecisionNonce "Invalid decision nonce" 400)) d
  | badNote {a x} : d.approvals.find id = some a → a.ownerId = owner → a.status = .pending → J x →
      ¬ a.expiresAt < x.clock → P.sha256 nonce = a.decisionNonceHash → note.all textOk = false →
      DecideEnds P J d id owner approve nonce note (.error .data) d
  | stopped {a x} : d.approvals.find id = some a → a.ownerId = owner → a.status = .pending → J x →
      ¬ a.expiresAt < x.clock → P.sha256 nonce = a.decisionNonceHash → note.all textOk = true → approve = true →
      DecideEnds P J d id owner approve nonce note
        (.error (.api .emergencyStopActive "Emergency stop is active. Cannot queue commands." 423)) d
  | invalidState {a x c text} : d.approvals.find id = some a → a.ownerId = owner → a.status = .pending → J x →
      ¬ a.expiresAt < x.clock → P.sha256 nonce = a.decisionNonceHash → note.all textOk = true →
      d.commands.find a.commandId = some c → accepts c.state (if approve then .approved else .rejected) = false →
      DecideEnds P J d id owner approve nonce note (.error (.api .invalidState text 409)) d
  | vetoed {a x c e} : d.approvals.find id = some a → a.ownerId = owner → a.status = .pending → J x →
      ¬ a.expiresAt < x.clock → P.sha256 nonce = a.decisionNonceHash → note.all textOk = true → approve = false →
      d.commands.find a.commandId = some c → c.state = .validated →
      e.classified = false → DecideEnds P J d id owner approve nonce note (.error e) d
  | approved {a c dev now eid at' u₁ n₁ u₂ n₂} : d.approvals.find id = some a →
      a.ownerId = owner → a.status = .pending →
      P.sha256 nonce = a.decisionNonceHash → note.all textOk = true → approve = true →
      d.commands.find a.commandId = some c → accepts c.state .approved = true →
      d.devices.find c.deviceId = some dev →
      d.outbox.find eid = none →
      DecideEnds P J d id owner approve nonce note (.ok (some ()))
        (d.write (approveRows (a.decide true now note) c u₁ n₁ u₂ n₂ ++
          [.outbox (newEvent .commandQueued .command c.id (readyMsg c dev.id) eid at'),
            .audit (decisionAudit true owner a note)]))
  | rejected {a c now u n} : d.approvals.find id = some a → a.ownerId = owner → a.status = .pending →
      P.sha256 nonce = a.decisionNonceHash → note.all textOk = true → approve = false →
      d.commands.find a.commandId = some c → accepts c.state .rejected = true → c.state ≠ .validated →
      DecideEnds P J d id owner approve nonce note (.ok (some ()))
        (d.write (.approval (a.decide false now note) :: moveRows c .rejected .approval none u n ++
          [.audit (decisionAudit false owner a note)]))

section
variable {fails : Bool} {J : Ext → Prop} {β : Type}
    {Q : Except Err β → DB → Open DB → Prop} {I : DB → Prop} {v : DB}

/-- The trigger lets the transitions of an approval pass, and the one of a rejection
unless the command is `VALIDATED`. -/
theorem decision_goes {c : Command} {new : CommandState} (hs : c.storable = true)
    (hnew : new = .approved ∨ new = .queued ∧ c.state = .approved ∨ new = .rejected ∧ c.state ≠ .validated)
    (hacc : accepts c.state new = true) : c.goes new none = true := by
  have hval : validateCommandStateTransition c.state new = true := by
    revert hacc
    rcases hnew with rfl | ⟨rfl, hst⟩ | ⟨rfl, hst⟩
    · cases c.state <;> decide
    · rw [hst]
      decide
    · revert hst
      cases c.state <;> decide
  have hstor : (c.transition new 0 0 none).storable = true := by
    rcases hnew with rfl | ⟨rfl, -⟩ | ⟨rfl, -⟩ <;> exact hs
  rw [Command.goes, hval, hstor, Bool.or_true]
  rfl

theorem within_approveTransitions {id : UUID} {c : Command} {f : Unit → Op β} (hc : v.commands.find id = some c)
    (hE : fails = true ∨ c.storable = false → ∀ e o, Q (.error e) d o)
    (hrej : accepts c.state .approved = false → ∀ o, Q (.error (.stateTransition id c.state .approved)) d o)
    (hk : ∀ u₁ n₁ u₂ n₂, accepts c.state .approved = true → within P fails J I (f ()) Q d
      (.seeing (v.write (moveRows c .approved .approval none u₁ n₁ ++
        moveRows (c.transition .approved u₁ n₁ none) .queued .approval none u₂ n₂)))) :
    within P fails J I ((approveTransitions id).bind f) Q d (.seeing v) := by
  have hid : c.id = id := by simpa using Table.key_of_find hc
  have hbad : ∀ {x : Command} {new}, x.storable = c.storable → (c.storable = true → x.goes new none = true) →
      x.goes new none = false → ∀ e o, Q (.error e) d o := fun _ hg hno => hE (.inr (by
    by_contra hs
    rw [hg (by simpa using hs)] at hno
    cases hno))
  refine alone_bind ?_
  unfold approveTransitions
  refine solo_transition rfl (by simp) (fun h o _ => hE (.inl h) _ o) (fun hn => ?_) (fun c' hc' hno => ?_)
    (fun c' e o hc' hacc hno _ _ => ?_) fun c' u₁ n₁ hc' hacc _ => ?_
  · cases hc.symm.trans hn
  · cases hc.symm.trans hc'
    exact hrej hno _
  · cases hc.symm.trans hc'
    exact hbad rfl (fun hs => decision_goes hs (.inl rfl) hacc) hno e o
  cases hc.symm.trans hc'
  have hc₁ : (v.write (moveRows c .approved .approval none u₁ n₁)).commands.find id =
      some (c.transition .approved u₁ n₁ none) := by
    rw [← hid]; exact find_moveRows ..
  refine solo_transition rfl (by rintro _ ⟨rfl⟩; exact hc₁) (fun h o _ => hE (.inl h) _ o)
    (fun hn => ?_) (fun c' hc' hno => ?_)
    (fun c' e o hc' hacc' hno _ _ => ?_) fun c' u₂ n₂ hc' _ _ => ?_
  · cases hc₁.symm.trans hn
  · cases hc₁.symm.trans hc'
    rw [Command.transition_state] at hno
    cases hno
  · cases hc₁.symm.trans hc'
    exact hbad (x := c.transition .approved u₁ n₁ none)
      rfl (fun hs => decision_goes hs (.inr (.inl ⟨rfl, rfl⟩)) hacc') hno e o
  cases hc₁.symm.trans hc'
  have := hk u₁ n₁ u₂ n₂ hacc
  rw [DB.write_append] at this
  exact this

theorem within_queueApproved {id : UUID} {c : Command} {dev : Device} {f : Unit → Op β}
    (hc : v.commands.find id = some c) (hdev : v.devices.find c.deviceId = some dev)
    (hE : (fails = true ∨ (∃ x, J x ∧ v.outbox.find x.nextId ≠ none) ∨ (readyMsg c dev.id).storable = false) →
      ∀ e o, Q (.error e) d o)
    (hk : ∀ eid now, v.outbox.find eid = none → within P fails J I (f ()) Q d
      (.seeing (v.write [.outbox (newEvent .commandQueued .command c.id (readyMsg c dev.id) eid now)]))) :
    within P fails J I ((queueApproved id).bind f) Q d (.seeing v) := by
  refine alone_bind ?_
  unfold queueApproved
  refine solo_select rfl (fun h => hE (.inl h) _ _) ?_
  simp only [Open.seeing, hc]
  refine solo_select rfl (fun h => hE (.inl h) _ _) ?_
  simp only [hdev]
  rw [← Prog.bind_ret (addEvent _ _ _ _)]
  refine within_addEvent rfl (fun h o _ => hE (.inl h) _ o) (fun x e o hx hbad _ => hE ?_ e o)
    fun eid now hn _ => hk eid now hn
  rcases hbad with ⟨hused, -⟩ | ⟨hno, -⟩
  · exact .inr (.inl ⟨x, hx, Option.isSome_iff_ne_none.mp hused⟩)
  · exact .inr (.inr hno)

theorem within_finishDecision {x : Decision} {note : Option String} {ws : List Write}
    {f : Unit → Op β} (hv : v = d.write ws)
    (hE : fails = true ∨ (d.isUser x.ownerId && note.all textOk) = false → ∀ e o, Q (.error e) d o)
    (hk : ∀ v, v = d.write (ws ++ [.audit (decisionAudit x.approve x.ownerId x.read note)]) →
      I v ∧ within P fails J I (f ()) Q v (.idle v)) :
    within P fails J I ((finishDecision x note).bind f) Q d (.seeing v) := by
  subst hv
  refine alone_bind ?_
  unfold finishDecision
  refine within_insertAudit rfl (fun h o _ => hE (.inl h) _ o) (fun e o hno _ _ => hE (.inr ?_) e o) fun _ _ => ?_
  · simpa only [Open.seeing, DB.write_isUser] using hno
  rw [← Prog.bind_ret (commit _)]
  obtain ⟨hI, hk⟩ := hk _ (DB.write_append d ws [.audit (decisionAudit x.approve x.ownerId x.read note)]).symm
  exact solo_commit rfl (fun h => hE (.inl h) _ _) hI hk

end

theorem within_decideApproval {fails : Bool} {J : Ext → Prop} {I : DB → Prop} {id owner : UUID}
    {approve : Bool} {nonce : String}
    {note : Option String} {Q : Except Err (Option Unit) → DB → Open DB → Prop}
    (hrefs : ∀ a, d.approvals.find id = some a → ∃ c dev, d.commands.find a.commandId = some c ∧
      d.devices.find c.deviceId = some dev)
    (hE : (fails = true ∨ ¬ d.Typed ∨ ∃ x, J x ∧ (d.outbox.find x.nextId ≠ none ∨ x.valkey ≠ .up)) →
      ∀ e, Q (.error e) d (.idle d))
    (hk : ∀ x d', DecideEnds P J d id owner approve nonce note x d' →
      I d' ∧ (fails = true → Q (.error .db) d' (.idle d')) ∧ Q x d' (.idle d')) :
    within P fails J I (decideApproval P id owner approve nonce note) Q d (.idle d) := by
  have hfail : fails = true → ∀ e, Q (.error e) d (.idle d) := fun h => hE (.inl h)
  have hends : ∀ {e d'}, DecideEnds P J d id owner approve nonce note (.error e) d' → Q (.error e) d' (.idle d') :=
    fun h => (hk _ _ h).2.2
  have hclose : ∀ {y d'}, DecideEnds P J d id owner approve nonce note (.ok y) d' →
      Closing fails I Q (.ok y) d' (.idle d') := by
    intro y d' h
    obtain ⟨hI, herr, hok⟩ := hk _ _ h
    exact ⟨fun hf => herr (hf.resolve_right (by simp [Open.idle])), fun _ => ⟨hI, hok⟩⟩
  refine solo_withSession (solo_select rfl (fun h => hfail h _) ?_)
  cases ha : d.approvals.find id with
  | none =>
    simp only [Open.idle, ha]
    exact hclose (.missing ha)
  | some a =>
    have haid : a.id = id := by simpa using Table.key_of_find ha
    simp only [Open.idle, ha]
    by_cases howner : a.ownerId = owner
    swap
    · rw [if_pos howner]
      exact hclose (.foreign ha howner)
    rw [if_neg (by simp [howner])]
    by_cases hpend : a.status = .pending
    swap
    · rw [if_pos hpend]
      exact solo_columnValue (fun hP => hends (.plain ha howner hpend hP)) fun hP =>
        hends (.decided ha howner hpend hP)
    rw [if_neg (by simp [hpend])]
    refine within_now fun x hx => ?_
    by_cases hexp : a.expiresAt < x.clock
    · rw [if_pos hexp]
      have h : DecideEnds P J d id owner approve nonce note _ _ := .expired ha howner hpend hx hexp
      refine solo_execute rfl (fun h => hfail h _) (fun e he => ?_) fun ws hws => ?_
      · simp only [updateApproval, ha] at he
        split at he
        · cases he
        · rename_i hnote
          exact hE (.inr (.inl fun ht => hnote (ht.approval id a ha).1)) e
      · obtain ⟨a', ha', rfl⟩ := updateApproval_ok hws
        cases ha.symm.trans ha'
        exact solo_commit rfl (fun h => hfail h _) (hk _ _ h).1 (hends h)
    rw [if_neg hexp]
    by_cases hnonce : P.sha256 nonce = a.decisionNonceHash
    swap
    · rw [if_pos hnonce]
      exact hends (.wrongNonce ha howner hpend hx hexp hnonce)
    rw [if_neg (by simp [hnonce])]
    refine within_now fun y _ => solo_execute rfl (fun h => hfail h _) (fun e he => ?_) fun ws hws => ?_
    · simp only [updateApproval, ha] at he
      split at he
      · cases he
      · rename_i hnote
        cases he
        exact hends (.badNote ha howner hpend hx hexp hnonce (by simpa using hnote))
    have hnote : note.all textOk = true := by
      simp only [updateApproval, ha] at hws
      split at hws
      · assumption
      · cases hws
    obtain ⟨a', ha', rfl⟩ := updateApproval_ok hws
    cases ha.symm.trans ha'
    obtain ⟨c, dev, hc, hdev⟩ := hrefs a ha
    have hcid : c.id = a.commandId := by simpa using Table.key_of_find hc
    have hstored : c.storable = false → ∀ e, Q (.error e) d (.idle d) := fun hs =>
      hE (.inr (.inl fun ht => by rw [(ht.command _ c hc).1] at hs; cases hs))
    have hmsg : ∀ {e}, (readyMsg c dev.id).storable = false → Q (.error e) d (.idle d) := fun hs =>
      hE (.inr (.inl fun ht => by
        have := (ht.command _ c hc).2
        simp [readyMsg, Msg.storable, this.1, this.2] at hs)) _
    have haudit : (d.isUser owner && note.all textOk) = false → ∀ e, Q (.error e) d (.idle d) := fun hno =>
      hE (.inr (.inl fun ht => by
        have := (ht.approval id a ha).2
        rw [howner] at this
        rw [this, hnote] at hno
        cases hno))
    cases approve with
    | true =>
      simp only [if_true]
      refine within_isActive (fun h => hfail h _) ?_ fun stopped _ => alone_bind ?_
      · rintro ⟨x, hx, hv⟩
        exact hE (.inr (.inr ⟨x, hx, .inr hv⟩)) _
      unfold approveChecked
      cases stopped with
      | true => exact hends (.stopped ha howner hpend hx hexp hnonce hnote rfl)
      | false =>
        rw [if_neg (by simp)]
        refine alone_bind (alone_attempt ?_)
        rw [← Prog.bind_ret (approveTransitions _)]
        refine within_approveTransitions hc (fun h e o => ?_) (fun hno o => ?_) fun u₁ n₁ u₂ n₂ hacc => ?_
        · have herr : ∀ e, Q (.error e) d (.idle d) := h.elim hfail hstored
          cases e <;> exact herr _
        · exact hends (.invalidState ha howner hpend hx hexp hnonce hnote hc hno)
        have hsame := (c.transition_same .approved u₁ n₁ none).trans
          ((c.transition .approved u₁ n₁ none).transition_same .queued u₂ n₂ none)
        refine within_queueApproved (v := d.write (approveRows (a.decide true y.clock note) c u₁ n₁ u₂ n₂))
          (c := (c.transition .approved u₁ n₁ none).transition .queued u₂ n₂ none) ?_
          (show d.devices.find _ = some dev by rw [hsame.deviceId]; exact hdev) (fun h e o => ?_)
          fun eid at' hn => ?_
        · rw [← hcid, ← hsame.id]; exact Table.find_put_self ..
        · rw [hsame.readyMsg] at h
          rcases h with h | h | h
          · exact hfail h e
          · obtain ⟨x, hx, hn⟩ := h
            exact hE (.inr (.inr ⟨x, hx, .inl hn⟩)) e
          · exact hmsg h
        rw [hsame.readyMsg, hsame.id, ← DB.write_append]
        have h : DecideEnds P J d id owner true nonce note _
          (d.write (approveRows (a.decide true y.clock note) c u₁ n₁ u₂ n₂ ++
            [.outbox (newEvent .commandQueued .command c.id (readyMsg c dev.id) eid at'),
              .audit (decisionAudit true owner a note)])) :=
          .approved ha howner hpend hnonce hnote rfl hc hacc hdev hn
        rw [show ∀ ws (x y : Write), ws ++ [x, y] = (ws ++ [x]) ++ [y] by simp] at h
        rw [← Prog.bind_ret (finishDecision _ _)]
        refine within_finishDecision rfl (fun hbad e o => hbad.elim (fun h => hfail h e)
          (fun hno => haudit hno e)) fun v hv => ?_
        subst hv
        exact ⟨(hk _ _ h).1, hclose h⟩
    | false =>
      simp only [Bool.false_eq_true, if_false]
      refine alone_bind (alone_bind (alone_attempt ?_))
      rw [← Prog.bind_ret (transitionCommand _ _ _ _ _)]
      refine solo_transition rfl (by simp) (fun h o' hf => hfail h _) (fun hn => ?_) (fun c' hc' hno => ?_)
        (fun c' e o' hc' hacc hno hne hf => ?_) fun c' u m hc' hacc hgo => ?_
      · cases hc.symm.trans hn
      · cases hc.symm.trans hc'
        exact hends (.invalidState ha howner hpend hx hexp hnonce hnote hc hno)
      · cases hc.symm.trans hc'
        by_cases hval : c.state = .validated
        · have herr := hends (.vetoed ha howner hpend hx hexp hnonce hnote rfl hc hval hne.1)
          cases e with
          | stateTransition x a b => exact absurd rfl (hne.2 x a b)
          | _ => exact herr
        · have hs : c.storable = false := by
            by_contra hs
            rw [decision_goes (by simpa using hs) (.inr (.inr ⟨rfl, hval⟩)) hacc] at hno
            cases hno
          cases e <;> exact hstored hs _
      · cases hc.symm.trans hc'
        have hval : c.state ≠ .validated := fun hval => by
          rw [Command.goes, hval] at hgo
          exact absurd hgo (by simp [validateCommandStateTransition])
        have h : DecideEnds P J d id owner false nonce note _ (d.write (.approval (a.decide false y.clock note) ::
            moveRows c .rejected .approval none u m ++ [.audit (decisionAudit false owner a note)])) :=
          .rejected ha howner hpend hnonce hnote rfl hc hacc hval
        rw [← Prog.bind_ret (finishDecision _ _)]
        refine within_finishDecision (show _ = d.write (.approval (a.decide false y.clock note) ::
          moveRows c .rejected .approval none u m) from rfl) (fun hbad e o =>
          hbad.elim (fun h => hfail h e) (fun hno => haudit hno e)) fun v hv => ?_
        subst hv
        exact ⟨(hk _ _ h).1, hclose h⟩

theorem DecideEnds.wrote {J : Ext → Prop} {n : UUID → Nat} (hi : DBInv d n) {id owner : UUID}
    {approve : Bool} {nonce : String}
    {note : Option String} {x : Except Err (Option Unit)} {d' : DB}
    (h : DecideEnds P J d id owner approve nonce note x d') :
    Wrote P (.decide id owner approve nonce note) d d' := by
  cases h with
  | missing | foreign | plain | decided | wrongNonce | badNote | stopped | invalidState | vetoed => exact .inl rfl
  | expired ha howner hpend => exact .inr ⟨_, .inr (.approvalExpired ha howner hpend), rfl⟩
  | @approved a c _ _ _ _ _ _ _ _ ha howner hpend hnonce _ happ hc hacc hdev hn =>
    subst happ
    have hawait : c.state = .awaitingApproval := by
      have := (accepts_iff (hi.live _ c hc).2.2).mp hacc
      cases hst : c.state <;> rw [hst] at this <;> simp [allowedTransitions] at this
    exact .inr ⟨_, .inl (.approve ha howner hpend hnonce hc hawait hdev hn), rfl⟩
  | rejected ha howner hpend hnonce _ happ hc hacc =>
    subst happ
    exact .inr ⟨_, .inl (.reject ha howner hpend hnonce hc hacc), rfl⟩

theorem solo_decideApproval {n : UUID → Nat} (hi : DBInv d n) {id owner : UUID} {approve : Bool} {nonce : String}
    {note : Option String} : solo P true (Wrote P (.decide id owner approve nonce note) d)
    (decideApproval P id owner approve nonce note)
    (fun _ d' o' => Wrote P (.decide id owner approve nonce note) d d' ∧ o'.locks = false) d (.idle d) := by
  refine within_decideApproval (fun a ha => ?_) (fun _ _ => ⟨.inl rfl, rfl⟩) fun _ _ h =>
    ⟨h.wrote hi, fun _ => ⟨h.wrote hi, rfl⟩, h.wrote hi, rfl⟩
  obtain ⟨c, hc, -⟩ := hi.approval id a ha
  obtain ⟨o, ho⟩ := hi.device _ c hc
  obtain ⟨dev, hdev, -⟩ := Option.map_eq_some_iff.mp ho
  exact ⟨c, dev, hc, hdev⟩

/-! ## `EmergencyStopService` -/

theorem keeps_plain : Plain (Keeps (D := DB) (K := Key) (W := Write) (T := Label) (ε := Err) (E := Eff)) := by
  refine ⟨?_, ?_, ?_, ?_, ?_, ?_, ?_⟩ <;> (intros; trivial)

/-- The database lets the commands be blocked that the state machine lets be. -/
def DB.Yields (v : DB) : Prop :=
  ∀ id c, v.commands.find id = some c → c.storable = true ∧ c.state ≠ .validated ∧ c.state ≠ .approved

theorem DB.Yields.goes {v : DB} {id : UUID} {c : Command} (h : v.Yields) (hc : v.commands.find id = some c)
    (hacc : accepts c.state .blockedByEmergencyStop = true) : c.goes .blockedByEmergencyStop none = true := by
  obtain ⟨hs, hlive⟩ := h id c hc
  have hstor : (c.transition .blockedByEmergencyStop 0 0 none).storable = true := hs
  rw [Command.goes, validated_of_accepts hacc hlive (by decide), hstor, Bool.or_true]
  rfl

theorem DB.Yields.move {v : DB} {id : UUID} {c : Command} {u n : Time} (h : v.Yields)
    (hc : v.commands.find id = some c) :
    (v.write (moveRows c .blockedByEmergencyStop .emergencyStopActivation none u n)).Yields := by
  intro id' x hx
  rw [write_moveRows, Table.find_put] at hx
  split at hx
  · cases hx
    exact ⟨(h id c hc).1, by simp [Command.transition_state], by simp [Command.transition_state]⟩
  · exact h id' x hx

section
variable {fails : Bool} {J : Ext → Prop} {β : Type} {Q : Except Err β → DB → Open DB → Prop} {I : DB → Prop}

theorem within_blockAll {f : Unit → Op β} (hf : ∀ a, (f a).All Keeps) : ∀ {ids : List UUID} {v : DB},
    (fails = true ∨ ¬ v.Yields → ∀ r o, o.failed = true → Q r d o) →
      (∀ ws, BlockRows v ids ws → within P fails J I (f ()) Q d (.seeing (v.write ws))) →
      within P fails J I ((blockAll ids).bind f) Q d (.seeing v)
  | [], _, _, hk => hk [] .nil
  | id :: ids, v, hE, hk => by
    -- a statement has failed: the loop goes on in a transaction that cannot be committed
    have hfailed : fails = true ∨ ¬ v.Yields → ∀ o : Open DB, o.failed = true →
        within P fails J I ((blockAll ids).bind f) Q d o := fun hbad o ho =>
      alone_mono (fun r d' o' h => h.1 ▸ hE hbad r o' h.2) (alone_failed (.bind keeps_plain.blockAll hf) ho)
    have hskip : (∀ c, v.commands.find id = some c → accepts c.state .blockedByEmergencyStop = false) →
        within P fails J I ((blockAll ids).bind f) Q d (.seeing v) := fun hs =>
      within_blockAll hf hE fun ws hws => hk ws (.skip hs hws)
    unfold blockAll
    refine alone_bind (alone_bind (alone_attempt ?_))
    rw [← Prog.bind_ret (transitionCommand _ _ _ _ _)]
    refine solo_transition rfl (by simp) (fun hfl o' ho => ?_) (fun hn => ?_) (fun c hc hacc => ?_)
      (fun c _ o' hc hacc hgo _ ho => ?_) fun c u n hc hacc hgo => ?_
    · exact alone_of_bind (hfailed (.inl hfl) o' ho)
    · exact alone_of_bind (hskip fun c hc => by cases hc.symm.trans hn)
    · exact alone_of_bind (hskip fun c' hc' => by cases hc.symm.trans hc'; exact hacc)
    · refine alone_of_bind (hfailed (.inr fun hy => ?_) o' ho)
      rw [hy.goes hc hacc] at hgo
      cases hgo
    · refine alone_of_bind (within_blockAll hf
        (fun hbad => hE (hbad.imp_right fun hno hy => hno (hy.move hc))) fun ws hws => ?_)
      have := hk _ (.block hc hacc hws)
      rw [DB.write_append] at this
      exact this

theorem BlockRows.outbox {v : DB} {ids : List UUID} {ws : List Write} (h : BlockRows v ids ws) :
    (v.write ws).outbox = v.outbox := by
  induction h with
  | nil => rfl
  | skip _ _ ih => exact ih
  | block _ _ _ ih => rw [DB.write_append]; exact ih

theorem within_blockCommands {owner : UUID} {v : DB} {f : Unit → Op β} (hf : ∀ a, (f a).All Keeps)
    (hE : fails = true ∨ ¬ v.Yields → ∀ r o, o.failed = true → Q r d o)
    (hk : ∀ ws, BlockRows v (v.blockable owner) ws → within P fails J I (f ()) Q d (.seeing (v.write ws))) :
    within P fails J I ((blockCommands owner).bind f) Q d (.seeing v) := by
  refine alone_bind ?_
  unfold blockCommands
  refine ⟨fun hfl => hE (.inl (hfl.resolve_right (by simp [Open.seeing]))) _ _ rfl, fun _ => ?_⟩
  dsimp only [Prog.ofExcept_ok, Prog.ret_bind]
  split
  · rename_i hno
    have := hk [] (by rw [blockable_of_no_device (d := v) hno]; exact .nil)
    exact this
  · refine ⟨fun hfl => hE (.inl (hfl.resolve_right (by simp [Open.seeing]))) _ _ rfl, fun _ => ?_⟩
    exact alone_of_bind (within_blockAll hf hE hk)

theorem within_writeStop {existing : Option EmergencyStop} {owner : UUID} {reason : String}
    {actor : UUID} {f : Unit → Op β} (hex : d.stops.find owner = existing)
    (hE : fails = true ∨ d.takesStop owner reason actor = false → ∀ r o, o.failed = true → Q r d o)
    (hk : ∀ now, ((d.stops.find owner).isSome || d.isUser owner) = true →
      within P fails J I (f ()) Q d (.seeing (d.write [.stop (activeStop existing owner reason actor now)]))) :
    within P fails J I ((writeStop existing owner reason actor).bind f) Q d (Open.idle d).lock := by
  refine alone_bind ?_
  unfold writeStop
  refine solo_now fun now => ?_
  cases existing with
  | none =>
    refine solo_execute rfl (fun hfl => hE (.inl hfl) _ _ rfl) (fun e he => hE (.inr ?_) _ _ rfl) fun ws hws => ?_
    · by_contra htakes
      simp only [DB.takesStop, hex, Option.isSome_none, Bool.false_or, Bool.not_eq_false,
        Bool.and_eq_true] at htakes
      obtain ⟨⟨hreason, hactor⟩, howner⟩ := htakes
      simp [insertStop, Open.lock, Open.idle, hex, EmergencyStop.usersOk, hactor, howner, hreason] at he
    · obtain ⟨-, husers, -, rfl⟩ := insertStop_ok.mp hws
      simp only [EmergencyStop.usersOk, Bool.and_eq_true] at husers
      exact hk now (by rw [hex]; exact husers.1.1)
  | some stop =>
    refine solo_execute rfl (fun hfl => hE (.inl hfl) _ _ rfl) (fun e he => hE (.inr ?_) _ _ rfl) fun ws hws => ?_
    · by_contra htakes
      simp only [DB.takesStop, Bool.not_eq_false, Bool.and_eq_true] at htakes
      obtain ⟨⟨hreason, hactor⟩, -⟩ := htakes
      simp [updateStop, Open.lock, Open.idle, hex, DB.refers, hactor, hreason] at he
    · rw [((updateStop_ok hex).mp hws).2.2.2]
      exact hk now (by rw [hex]; rfl)

/-- What an activation does when the stop is not active. It goes wrong when a statement
fails, and when the database does not take its rows. -/
theorem within_activateFrom {Q : Except Err (Option (Option EmergencyStop)) → DB → Open DB → Prop}
    {existing : Option EmergencyStop} {owner : UUID} {reason : String} {actor : UUID}
    (hex : d.stops.find owner = existing) (hin : existing.all (!·.active) = true)
    (hE : (fails = true ∨ d.takesStop owner reason actor = false ∨ ¬ d.Yields ∨
        ∃ x, J x ∧ (d.outbox.find x.nextId).isSome = true) →
      ∀ r o, (∀ a, r = .ok a → o.failed = true) → Q r d o)
    (hk : ∀ ws, d.takesStop owner reason actor = true → Rows P d (.activate owner reason actor) ws →
      I (d.write ws) ∧ (fails = true → Q (.error .db) (d.write ws) (Open.idle (d.write ws)).fail) ∧
        ∀ stop, Q (.ok (some stop)) (d.write ws) (.idle (d.write ws))) :
    within P fails J I (activateRow.activateFrom owner reason actor existing) Q d (Open.idle d).lock := by
  have hfail : fails = true → ∀ r o, (∀ a, r = .ok a → o.failed = true) → Q r d o := fun h => hE (.inl h)
  unfold activateRow.activateFrom
  refine within_writeStop hex (fun h r o ho => hE (h.imp_right .inl) r o fun _ _ => ho) fun now howner => ?_
  refine within_blockCommands (fun _ => .bind keeps_plain.execute fun _ => .bind (.call trivial) fun _ =>
    .bind keeps_plain.addEvent fun _ => .bind (.call trivial) fun _ => .bind keeps_plain.select fun _ => trivial)
    (fun h r o ho => hE (h.imp_right fun hno => .inr (.inl fun hy => hno hy)) r o fun _ _ => ho) fun ws hws => ?_
  refine within_insertAudit rfl (fun h o _ => hfail h _ o (by simp))
    (fun e o hno _ _ => hE (.inr (.inl ?_)) _ o (by simp))
    fun hactor hreason => ?_
  · by_contra htakes
    simp only [DB.takesStop, Bool.not_eq_false, Bool.and_eq_true] at htakes
    simp only [Open.seeing, DB.write_isUser, htakes.1.2, Option.all_some, htakes.1.1, Bool.and_self] at hno
    cases hno
  have hactor : d.isUser actor = true := by simpa only [Open.seeing, DB.write_isUser] using hactor
  have htakes : d.takesStop owner reason actor = true := by
    simp only [DB.takesStop, hactor, howner, Bool.and_true]
    exact hreason
  refine solo_now fun now' => ?_
  have hout : ((d.write [.stop (activeStop existing owner reason actor now)]).write ws).outbox = d.outbox :=
    hws.outbox
  refine within_addEvent rfl (fun h o _ => hfail h _ o (by simp))
    (fun x e o hx hbad _ => hE (.inr (.inr ?_)) _ o (by simp))
    fun eid at' hn _ => ?_
  · rcases hbad with ⟨hused, -⟩ | ⟨hmsg, -⟩
    · refine .inr ⟨x, hx, ?_⟩
      rw [← hout]
      exact hused
    · have hmsg : textOk reason = false := hmsg
      rw [show textOk reason = true from hreason] at hmsg
      cases hmsg
  have hrows : Rows P d (.activate owner reason actor) (.stop (activeStop existing owner reason actor now) :: ws ++
      [.audit (activateAudit owner actor reason), .outbox (newEvent .emergencyStopActivated .owner owner
        (.emergencyStop owner ⟨owner, true, some reason, now'⟩) eid at')]) := by
    refine .activate hex hin hws ?_
    rw [← hout]
    exact hn
  obtain ⟨hI, herr, hok⟩ := hk _ htakes hrows
  rw [DB.write_append] at hI herr hok
  exact solo_commit rfl (fun h => hfail h _ _ (by simp)) hI (solo_select rfl herr (hok _))

end

theorem solo_activate {owner : UUID} {reason : String} {actor : UUID} :
    solo P true (Wrote P (.activate owner reason actor) d) (activate owner reason actor)
      (fun _ d' o' => Wrote P (.activate owner reason actor) d d' ∧ o'.locks = false) d (.idle d) := by
  refine alone_bind (alone_mono (fun r d' o' h => ?_) (solo_session ?_))
  · cases r with
    | error e => exact h
    | ok r =>
      cases r with
      | none => exact h
      | some stop => exact solo_last fun _ => h
  · have hfrom : ∀ {existing}, d.stops.find owner = existing → existing.all (!·.active) = true →
        solo P true (Wrote P (.activate owner reason actor) d)
        (activateRow.activateFrom owner reason actor existing)
          (Ends P (.activate owner reason actor) d) d (Open.idle d).lock := fun hex hin => by
      refine within_activateFrom hex hin (fun _ r o hr => ⟨.inl rfl, fun a ha hf => ?_⟩) fun ws _ hrows => ?_
      · rw [hr a ha] at hf; cases hf
      · exact ⟨.inr ⟨_, .inl hrows, rfl⟩, fun _ => ⟨.inr ⟨_, .inl hrows, rfl⟩, by simp⟩, fun _ => ends_wrote hrows⟩
    refine solo_selectForUpdate rfl (fun _ => ends_error) ?_
    cases hs : d.stops.find owner with
    | none =>
      simp only [Open.idle, hs]
      exact hfrom hs rfl
    | some stop =>
      simp only [Open.idle, hs]
      split
      · rename_i hact
        refine solo_now fun now => solo_addEvent rfl (fun _ _ _ => ends_error) fun eid at' hn => ?_
        have hrows : Rows P d (.activate owner reason actor) [.outbox (newEvent .emergencyStopActivated .owner owner
            (.emergencyStop owner ⟨owner, true, stop.reason, now⟩) eid at')] := .reactivate hs hact hn
        exact solo_commitRows hrows rfl (ends_wrote hrows)
      · rename_i hact
        exact hfrom hs (by simpa using hact)

theorem solo_release {owner actor : UUID} : solo P true (Wrote P (.release owner actor) d) (release owner actor)
    (fun _ d' o' => Wrote P (.release owner actor) d d' ∧ o'.locks = false) d (.idle d) := by
  refine alone_bind (alone_mono (fun r d' o' h => ?_) (solo_session ?_))
  · cases r with
    | error e => exact h
    | ok b =>
      cases b with
      | true => exact solo_last fun _ => h
      | false => exact h
  · refine solo_selectForUpdate rfl (fun _ => ends_error) ?_
    cases hs : d.stops.find owner with
    | none => simp only [Open.idle, hs]; exact ends_lock
    | some stop =>
      simp only [Open.idle, hs]
      split
      · rename_i hact
        refine solo_now fun now => solo_execute rfl (fun _ => ends_error) (fun _ _ => ends_error) fun ws hws => ?_
        obtain ⟨-, -, -, rfl⟩ := (updateStop_ok hs).mp hws
        refine solo_insertAudit rfl (fun _ _ _ => ends_error) (solo_now fun now' => ?_)
        refine solo_addEvent rfl (fun _ _ _ => ends_error) fun eid at' hn => ?_
        have hrows : Rows P d (.release owner actor)
            [.stop { stop with active := false, releasedAt := some now, releasedBy := some actor },
              .audit { action := .emergencyStopReleased, userId := actor, ownerId := some owner },
              .outbox (newEvent .emergencyStopReleased .owner owner
                  (.emergencyResume owner ⟨owner, false, none, now'⟩) eid at')] :=
          .release hs hact hn
        refine solo_commitRows hrows rfl ?_
        exact solo_select rfl (fun _ => ⟨.inr ⟨_, .inl hrows, rfl⟩, by simp⟩) (ends_wrote hrows)
      · exact ends_lock

end

end Veyaan
