import Veyaan.Serial.Rows

/-!
# What the lifecycle handlers do alone

A handler writes the rows of its message, or none. Without a failing statement
it depends on the store and the message alone which of the two it is.
-/

namespace Veyaan

open Sys

theorem metadata_dedupKey (k : Lifecycle) (p : LifecyclePayload) (id : UUID) :
    (k.metadata p id).dedupKey = some ⟨k, id⟩ := by
  unfold Lifecycle.metadata
  cases k with
  | acknowledged => dsimp only; split <;> rfl
  | result => dsimp only; split <;> rfl
  | _ => rfl

section
variable {P : Params} {fails : Bool} {J : Ext → Prop} {I : DB → Prop} {d : DB}
    {k : Lifecycle} {p : LifecyclePayload}

/-- The outcomes of a handler: the rows of the message are written, or a statement
has failed. -/
def Processed (fails : Bool) (d : DB) (k : Lifecycle) (p : LifecyclePayload) (d' : DB) : Prop :=
  fails = true ∧ d' = d ∨ ∃ u n, d' = d.write (handleRows d k p u n)

def ProcessedIn (J : Ext → Prop) (fails : Bool) (d : DB) (k : Lifecycle) (p : LifecyclePayload) (d' : DB) : Prop :=
  d' = d ∧ (fails = true ∨ ∀ u n, handleRows d k p u n = []) ∨ ∃ u x, J x ∧
    d' = d.write (handleRows d k p u x.clock)

theorem ProcessedIn.processed {d' : DB} (h : ProcessedIn J fails d k p d') : Processed fails d k p d' := by
  rcases h with ⟨rfl, hf | hn⟩ | ⟨u, x, -, rfl⟩
  · exact .inl ⟨hf, rfl⟩
  · exact .inr ⟨0, 0, by rw [hn]; rfl⟩
  · exact .inr ⟨u, x.clock, rfl⟩

def ProcessedBody (J : Ext → Prop) (fails : Bool) (d : DB) (k : Lifecycle) (p : LifecyclePayload)
    (r : Except Err Unit) (d' : DB) (o : Open DB) : Prop :=
  ProcessedIn J fails d k p d' ∧ ∀ a, r = .ok a → o.failed = false ∧ o.view = d'

theorem ProcessedIn.ignored (h : ∀ u n, handleRows d k p u n = []) : ProcessedIn J fails d k p d :=
  .inl ⟨rfl, .inr h⟩

theorem within_handler {body : Op Unit} (hI : ∀ d', ProcessedIn J fails d k p d' → I d')
    (h : within P fails J I body (ProcessedBody J fails d k p) d (.idle d)) :
    within P fails J I (withSession body) (fun _ d' o' => ProcessedIn J fails d k p d' ∧
      o'.locks = false) d (.idle d) := by
  refine solo_withSession (alone_mono (fun r d' o' hr => ?_) h)
  cases r with
  | ok a =>
    obtain ⟨hf, hv⟩ := hr.2 a rfl
    refine ⟨fun _ => ⟨hr.1, rfl⟩, fun _ => ?_⟩
    rw [hv]
    exact ⟨hI _ hr.1, hr.1, rfl⟩
  | error e => exact ⟨hr.1, rfl⟩

/-! ## Which messages are ignored -/

section
variable {id : UUID} {c : Command}

theorem handleRows_of_find (hid : p.commandId = some id) (hc : d.commands.find id = some c) (u n : Time) :
    handleRows d k p u n = if (k.heeds d p c && accepts c.state (k.target p) &&
        c.goes (k.target p) (some (k.metadata p c.id)) && d.takesTask c.id (k.task p)) = true then
      moveRows c (k.target p) k.source (some (k.metadata p c.id)) u n ++ (k.task p).elim [] (taskRows d c.id)
    else [] := by
  simp only [handleRows, hid, Option.bind_some, hc]

theorem ignored_nobody (hid : p.commandId = none) : ProcessedIn J fails d k p d :=
  .ignored fun u n => by simp [handleRows, hid]

theorem ignored_missing (hid : p.commandId = some id) (hc : d.commands.find id = none) :
    ProcessedIn J fails d k p d :=
  .ignored fun u n => by simp [handleRows, hid, hc]

theorem ignored (hid : p.commandId = some id) (hc : d.commands.find id = some c)
    (h : k.heeds d p c = false ∨ accepts c.state (k.target p) = false ∨
      c.goes (k.target p) (some (k.metadata p c.id)) = false ∨ d.takesTask c.id (k.task p) = false) :
    ProcessedIn J fails d k p d := by
  refine .ignored fun u n => ?_
  rw [handleRows_of_find hid hc, if_neg]
  rcases h with h | h | h | h <;> simp [h]

theorem heeds_of_duplicate (hk : k ≠ .progress) (h : d.handledBefore k c.id ≠ []) : k.heeds d p c = false := by
  cases k with
  | progress => exact absurd rfl hk
  | _ => simp [Lifecycle.heeds, h]

theorem heeds_of_device (hk : k ≠ .progress) (h : p.deviceId.any (c.deviceId ≠ ·) = true) :
    k.heeds d p c = false := by
  obtain ⟨dev, hdev, hne⟩ := (Option.any_eq_true _ _).mp h
  have hne : (c.deviceId == dev) = false := by simpa using hne
  cases k with
  | progress => exact absurd rfl hk
  | _ => simp [Lifecycle.heeds, hdev, hne]

theorem heeds_of_new (hk : k ≠ .progress) (h : d.handledBefore k c.id = [])
    (hd : p.deviceId.any (c.deviceId ≠ ·) ≠ true) : k.heeds d p c = true := by
  have : p.deviceId.all (c.deviceId == ·) = true := by
    cases hp : p.deviceId with
    | none => rfl
    | some dev => simpa [hp] using hd
  cases k with
  | progress => exact absurd rfl hk
  | _ => simp [Lifecycle.heeds, h, this]

end

/-! ## The handlers -/

theorem within_isDuplicate {id : UUID} {f : Bool → Op Unit} {Q : Except Err Unit → DB → Open DB → Prop}
    (hE : fails = true → Q (.error .db) d (Open.idle d).fail)
    (hnew : d.handledBefore k id = [] → within P fails J I (f false) Q d (.idle d))
    (hdup : d.handledBefore k id ≠ [] → within P fails J I (f true) Q d (.idle d) ∧
      Q (.error .multipleResults) d (.idle d)) :
    within P fails J I ((isDuplicate id ⟨k, id⟩).bind f) Q d (.idle d) := by
  refine alone_bind ?_
  unfold isDuplicate
  refine solo_select rfl hE ?_
  split
  · rename_i h
    exact hnew h
  · rename_i e h
    exact (hdup (by unfold DB.handledBefore; rw [show d.events.filter _ = [e] from h]; simp)).1
  · rename_i h₀ _
    exact (hdup fun h => h₀ h).2

def Proceeds (P : Params) (fails : Bool) (J : Ext → Prop) (I : DB → Prop) (d : DB) (k : Lifecycle)
    (p : LifecyclePayload) (id : UUID) (body : Op Unit) (after : UUID → Op Unit) : Prop :=
  ∀ Q : Except Err Unit → DB → Open DB → Prop,
    (∀ x a b, ProcessedIn J fails d k p d → Q (.error (.stateTransition x a b)) d (.seeing d)) →
    (∀ e o, (∀ x a b, e ≠ .stateTransition x a b) → ProcessedIn J fails d k p d → Q (.error e) d o) →
    (∀ o, within P fails J I ((after id).bind fun _ => commit (.handle k p))
      (ProcessedBody J fails d k p) d o → Q (.ok ()) d o) →
    within P fails J I body Q d (.seeing d)

theorem within_handleOnce {body : Command → Op Unit} {after : UUID → Op Unit} (hk : k ≠ .progress)
    (hI : ∀ d', ProcessedIn J fails d k p d' → I d')
    (hbody : ∀ id c, p.commandId = some id → d.commands.find id = some c → k.heeds d p c = true →
      Proceeds P fails J I d k p id (body c) after) :
    within P fails J I (handleOnce k p body after)
    (fun _ d' o' => ProcessedIn J fails d k p d' ∧ o'.locks = false) d (.idle d) := by
  unfold handleOnce
  split
  · rename_i hid
    exact ⟨ignored_nobody hid, rfl⟩
  rename_i id hid
  have hfail : fails = true → ProcessedIn J fails d k p d := fun hf => .inl ⟨rfl, .inl hf⟩
  have hdone : ∀ {o : Open DB} {r}, o.failed = false → o.view = d → ProcessedIn J fails d k p d →
      ProcessedBody J fails d k p r d o :=
    fun ho hv h => ⟨h, fun _ _ => ⟨ho, hv⟩⟩
  refine within_handler hI (within_isDuplicate (fun hf => ⟨hfail hf, by simp⟩) (fun hnew => ?_) fun hdup => ?_)
  · refine solo_selectForUpdate rfl (fun hf => ⟨hfail hf, by simp⟩) ?_
    cases hc : d.commands.find id with
    | none => simp only [Open.idle, hc]; exact hdone rfl rfl (ignored_missing hid hc)
    | some c =>
      have hcid : c.id = id := by simpa using Table.key_of_find hc
      simp only [Open.idle, hc]
      split
      · rename_i hdev
        exact hdone rfl rfl (ignored hid hc (.inl (heeds_of_device hk hdev)))
      · rename_i hdev
        refine alone_bind (alone_attempt (hbody id c hid hc
          (heeds_of_new hk (hcid ▸ hnew) hdev) _ (fun _ _ _ h => ?_)
          (fun e o hne h => ?_) fun o h => ?_))
        · exact hdone rfl rfl h
        · cases e with
          | stateTransition x a b => exact absurd rfl (hne x a b)
          | _ => exact ⟨h, by simp⟩
        · exact h
  · have hign : ProcessedIn J fails d k p d := by
      cases hc : d.commands.find id with
      | none => exact ignored_missing hid hc
      | some c =>
        have hcid : c.id = id := by simpa using Table.key_of_find hc
        exact ignored hid hc (.inl (heeds_of_duplicate hk (hcid ▸ hdup)))
    exact ⟨hdone rfl rfl hign, ⟨hign, by simp⟩⟩

section
variable {id : UUID} {c : Command} {β : Type} {Q : Except Err β → DB → Open DB → Prop}

theorem within_move {f : Option Command → Op β} (hid : p.commandId = some id) (hc : d.commands.find id = some c)
    (hrej : ∀ x a b, ProcessedIn J fails d k p d → Q (.error (.stateTransition x a b)) d (.seeing d))
    (hE : ∀ e o, (∀ x a b, e ≠ .stateTransition x a b) → ProcessedIn J fails d k p d → Q (.error e) d o)
    (hk : ∀ c' u x, J x → accepts c.state (k.target p) = true →
      c.goes (k.target p) (some (k.metadata p c.id)) = true →
      within P fails J I (f c') Q d
        (.seeing (d.write (moveRows c (k.target p) k.source (some (k.metadata p c.id)) u x.clock)))) :
    within P fails J I ((transitionCommand (some c) c.id (k.target p) k.source
      (some (k.metadata p c.id))).bind f) Q d (.seeing d) := by
  have hcid : c.id = id := by simpa using Table.key_of_find hc
  have hfind : (Open.seeing d).view.commands.find c.id = some c := by rw [hcid]; exact hc
  refine within_transition rfl (by rintro _ ⟨rfl⟩; exact hfind)
    (fun hf _ _ => hE _ _ (by simp) (.inl ⟨rfl, .inl hf⟩)) (fun hn => ?_)
    (fun c' hc' hacc => ?_) (fun c' e o' hc' _ hgo hne _ => ?_) fun c' u x hx hc' hacc hgo => ?_
  · cases hfind.symm.trans hn
  · cases hfind.symm.trans hc'
    exact hrej _ _ _ (ignored hid hc (.inr (.inl hacc)))
  · cases hfind.symm.trans hc'
    exact hE e o' hne.2 (ignored hid hc (.inr (.inr (.inl hgo))))
  · cases hfind.symm.trans hc'
    exact hk _ u x hx hacc hgo

theorem within_moveTask {st : TaskState} {rs ec em : Option String} {f : Unit → Op β} {u n : Time}
    (hid : p.commandId = some id)
    (hc : d.commands.find id = some c) (hh : k.heeds d p c = true) (hacc : accepts c.state (k.target p) = true)
    (hgo : c.goes (k.target p) (some (k.metadata p c.id)) = true) (ht : k.task p = some (Task.update st rs ec em))
    (hE : ∀ e o, (∀ x a b, e ≠ .stateTransition x a b) → ProcessedIn J fails d k p d → Q (.error e) d o)
    (hk : within P fails J I (f ()) Q d (.seeing (d.write (handleRows d k p u n)))) :
    within P fails J I ((updateTaskState c.id st rs ec em).bind f) Q d
      (.seeing (d.write (moveRows c (k.target p) k.source (some (k.metadata p c.id)) u n))) := by
  refine solo_updateTaskState rfl (fun hf _ _ => hE _ _ (by simp) (.inl ⟨rfl, .inl hf⟩))
    (fun t o' htask hbad _ => ?_) fun hs => ?_
  · refine hE _ _ (by simp) (ignored hid hc (.inr (.inr (.inr ?_))))
    have htask : d.tasks.find c.id = some t := htask
    simp [DB.takesTask, ht, htask, hbad]
  · have htakes : d.takesTask c.id (k.task p) = true := by
      rw [DB.takesTask, ht, Option.all_some, Option.all_eq_true]
      exact hs
    rw [handleRows_of_find hid hc, if_pos (by simp [hh, hacc, hgo, htakes]), ht, DB.write_append] at hk
    exact hk

theorem handleRows_no_task (hid : p.commandId = some id) (hc : d.commands.find id = some c)
    (hh : k.heeds d p c = true)
    (hacc : accepts c.state (k.target p) = true) (hgo : c.goes (k.target p) (some (k.metadata p c.id)) = true)
    (ht : k.task p = none) (u n : Time) :
    handleRows d k p u n = moveRows c (k.target p) k.source (some (k.metadata p c.id)) u n := by
  rw [handleRows_of_find hid hc, if_pos (by simp [hh, hacc, hgo, ht, DB.takesTask]), ht,
    Option.elim_none, List.append_nil]

end

theorem within_commitProcessed (hI : ∀ d', ProcessedIn J fails d k p d' → I d') {u : Time} {x : Ext} (hx : J x)
    {f : Unit → Op Unit} (hk : ∀ d', ProcessedIn J fails d k p d' →
      within P fails J I (f ()) (ProcessedBody J fails d k p) d' (.idle d')) :
    within P fails J I ((commit (.handle k p)).bind f) (ProcessedBody J fails d k p) d
      (.seeing (d.write (handleRows d k p u x.clock))) :=
  have h : ProcessedIn J fails d k p (d.write (handleRows d k p u x.clock)) := .inr ⟨u, x, hx, rfl⟩
  solo_commit rfl (fun hf => ⟨.inl ⟨rfl, .inl hf⟩, by simp⟩) (hI _ h) (hk _ h)

theorem proceeds_moveTask (hI : ∀ d', ProcessedIn J fails d k p d' → I d') {id : UUID} {c : Command}
    (hid : p.commandId = some id)
    (hc : d.commands.find id = some c) (hh : k.heeds d p c = true) {st : TaskState} {rs ec em : Option String}
    (ht : k.task p = some (Task.update st rs ec em)) :
    Proceeds P fails J I d k p id ((transitionCommand (some c) c.id (k.target p) k.source
      (some (k.metadata p c.id))).bind fun _ => updateTaskState c.id st rs ec em) (fun _ => .ret ()) := by
  intro Q hrej hE hk
  refine within_move hid hc hrej hE fun c' u x hx hacc hgo => ?_
  rw [← Prog.bind_ret (updateTaskState _ _ _ _ _)]
  refine within_moveTask hid hc hh hacc hgo ht hE (hk _ ?_)
  rw [Prog.ret_bind, ← Prog.bind_ret (commit _)]
  exact within_commitProcessed hI hx fun d' h => ⟨h, fun _ _ => ⟨rfl, rfl⟩⟩

theorem within_handleDelivered (hI : ∀ d', ProcessedIn J fails d .delivered p d' → I d') :
    within P fails J I (handleDelivered p)
    (fun _ d' o' => ProcessedIn J fails d .delivered p d' ∧ o'.locks = false) d (.idle d) := by
  refine within_handleOnce (by simp) hI fun id c hid hc hh Q hrej hE hk => ?_
  refine within_move (k := .delivered) hid hc hrej hE fun c' u x hx hacc hgo => hk _ ?_
  have hcid : c.id = id := by simpa using Table.key_of_find hc
  rw [← hcid]
  refine within_moveTask (k := .delivered) hid hc hh hacc hgo rfl (fun e o _ h => ⟨h, by simp⟩) ?_
  rw [← Prog.bind_ret (commit _)]
  exact within_commitProcessed hI hx fun d' h => ⟨h, fun _ _ => ⟨rfl, rfl⟩⟩

theorem within_handleAcknowledged (hI : ∀ d', ProcessedIn J fails d .acknowledged p d' → I d') :
    within P fails J I (handleAcknowledged p)
    (fun _ d' o' => ProcessedIn J fails d .acknowledged p d' ∧ o'.locks = false) d (.idle d) := by
  refine within_handleOnce (by simp) hI fun id c hid hc hh => ?_
  cases hacp : p.accepted.getD true with
  | true =>
    intro Q hrej hE hk
    have := within_move (P := P) (I := I) (k := .acknowledged) (f := fun _ => (.ret () : Op Unit)) hid hc hrej hE
      fun c' u x hx hacc hgo => hk _ (by
        show within P fails J I (commit (.handle .acknowledged p)) _ d _
        rw [← Prog.bind_ret (commit _), ← handleRows_no_task hid hc hh hacc hgo (by simp [Lifecycle.task, hacp])]
        exact within_commitProcessed hI hx fun d' h => ⟨h, fun _ _ => ⟨rfl, rfl⟩⟩)
    simpa [Lifecycle.target, Lifecycle.metadata, Lifecycle.source, hacp] using this
  | false =>
    have := proceeds_moveTask (P := P) (I := I) (k := .acknowledged) hI hid hc hh
      (by simp [Lifecycle.task, hacp]; rfl)
    simpa [Lifecycle.target, Lifecycle.metadata, Lifecycle.source, hacp] using this

theorem within_handleResult (hI : ∀ d', ProcessedIn J fails d .result p d' → I d') :
    within P fails J I (handleResult p)
    (fun _ d' o' => ProcessedIn J fails d .result p d' ∧ o'.locks = false) d (.idle d) := by
  refine within_handleOnce (by simp) hI fun id c hid hc hh => ?_
  cases hsuc : p.success.getD false with
  | true =>
    have := proceeds_moveTask (P := P) (I := I) (k := .result) hI hid hc hh (by simp [Lifecycle.task, hsuc]; rfl)
    simpa [Lifecycle.target, Lifecycle.metadata, Lifecycle.source, hsuc] using this
  | false =>
    have := proceeds_moveTask (P := P) (I := I) (k := .result) hI hid hc hh (by simp [Lifecycle.task, hsuc]; rfl)
    simpa [Lifecycle.target, Lifecycle.metadata, Lifecycle.source, hsuc] using this

/-- A progress message in another state than `ACKNOWLEDGED` is committed without
any rows. -/
theorem within_handleProgress (hI : ∀ d', ProcessedIn J fails d .progress p d' → I d') :
    within P fails J I (handleProgress p)
    (fun _ d' o' => ProcessedIn J fails d .progress p d' ∧ o'.locks = false) d (.idle d) := by
  unfold handleProgress
  split
  · rename_i hid
    exact ⟨ignored_nobody hid, rfl⟩
  rename_i id hid
  have hcommit : ProcessedIn J fails d .progress p d → within P fails J I (commit (.handle .progress p))
      (ProcessedBody J fails d .progress p) d (.seeing d) := fun h => by
    rw [← Prog.bind_ret (commit _)]
    exact solo_commit rfl (fun hf => ⟨.inl ⟨rfl, .inl hf⟩, by simp⟩) (hI d h) ⟨h, fun _ _ => ⟨rfl, rfl⟩⟩
  refine within_handler hI (solo_selectForUpdate rfl (fun hf => ⟨.inl ⟨rfl, .inl hf⟩, by simp⟩) ?_)
  cases hc : d.commands.find id with
  | none => simp only [Open.idle, hc]; exact ⟨ignored_missing hid hc, fun _ _ => ⟨rfl, rfl⟩⟩
  | some c =>
    have hcid : c.id = id := by simpa using Table.key_of_find hc
    subst hcid
    simp only [Open.idle, hc]
    split
    · rename_i hst
      have hh : Lifecycle.heeds d p c .progress = true := by simp [Lifecycle.heeds, hst]
      refine alone_bind (alone_attempt ?_)
      refine within_move (k := .progress) hid hc (fun _ _ _ h => hcommit h) (fun e o hne h => ?_)
        fun c' u x hx hacc hgo => ?_
      · cases e with
        | stateTransition x a b => exact absurd rfl (hne x a b)
        | _ => exact ⟨h, by simp⟩
      rw [← Prog.bind_ret (updateTaskState _ _ _ _ _)]
      refine within_moveTask (k := .progress) hid hc hh hacc hgo rfl (fun e o hne h => ?_) ?_
      · cases e with
        | stateTransition x a b => exact absurd rfl (hne x a b)
        | _ => exact ⟨h, by simp⟩
      · show within P fails J I (commit (.handle .progress p)) _ d _
        rw [← Prog.bind_ret (commit _)]
        exact within_commitProcessed hI hx fun d' h => ⟨h, fun _ _ => ⟨rfl, rfl⟩⟩
    · rename_i hst
      exact hcommit (ignored hid hc (.inl (by simp [Lifecycle.heeds, hst])))

theorem within_handle (hI : ∀ d', ProcessedIn J fails d k p d' → I d') : within P fails J I (handler k p)
    (fun _ d' o' => ProcessedIn J fails d k p d' ∧ o'.locks = false) d (.idle d) := by
  cases k with
  | delivered => exact within_handleDelivered hI
  | acknowledged => exact within_handleAcknowledged hI
  | progress => exact within_handleProgress hI
  | result => exact within_handleResult hI

theorem within_consume {cid : UUID} (hI : ∀ d', ProcessedIn J fails d k p d' → I d') :
    within P fails J I (consume k cid p)
    (fun _ d' o' => ProcessedIn J fails d k p d' ∧ o'.locks = false) d (.idle d) := by
  refine alone_bind (alone_attempt (alone_mono (fun r d' o' h => ?_) (within_handle hI)))
  cases r with
  | ok => exact fun _ _ _ => h
  | error => exact fun _ _ _ => h

theorem solo_handle (hI : ∀ d', Processed fails d k p d' → I d') : solo P fails I (handler k p)
    (fun _ d' o' => Processed fails d k p d' ∧ o'.locks = false) d (.idle d) :=
  alone_mono (fun _ _ _ h => ⟨h.1.processed, h.2⟩) (within_handle fun d' h => hI d' h.processed)

theorem solo_consume {cid : UUID} (hI : ∀ d', Processed fails d k p d' → I d') : solo P fails I (consume k cid p)
    (fun _ d' o' => Processed fails d k p d' ∧ o'.locks = false) d (.idle d) :=
  alone_mono (fun _ _ _ h => ⟨h.1.processed, h.2⟩) (within_consume fun d' h => hI d' h.processed)

end

end Veyaan
