import Veyaan.Serial.Workers

/-!
# The rows of a call, command by command

The rows that a call writes, seen from one command at a time: a command is
inserted with its task, or it is moved and its task follows, and rows of other
tables stand in between. What every such step keeps, every serial run keeps.
-/

namespace Veyaan

def Write.isAside : Write → Bool
  | .command _ => false
  | .task _ => false
  | .event _ => false
  | _ => true

/-- What the callers of `transition_command` make of the task of a command that
they have moved to `new`. Nobody moves one to `TIMED_OUT`. -/
def CommandState.tasked (new : CommandState) (s : TaskState) : TaskState :=
  match new with
  | .delivered => .running
  | .running => .running
  | .succeeded => .succeeded
  | .failed => .failed
  | .timedOut => .timedOut
  | .expired => if s ∈ [.succeeded, .failed, .cancelled] then s else .failed
  | _ => s

structure TaskRows (v : DB) (id : UUID) (new : CommandState) (ts : List Write) : Prop where
  tasks : ∀ w ∈ ts, ∃ t, w = .task t ∧ t.commandId = id
  state : ∀ t, v.tasks.find id = some t → ∃ t', (v.write ts).tasks.find id = some t' ∧ t'.state = new.tasked t.state

inductive Steps : DB → List Write → Prop
  | nil {v} : Steps v []
  | insert {v c taskId ws} : v.commands.find c.id = none → c.state = .received → c.finishedAt = none →
      Steps (v.write (insertRows c taskId)) ws → Steps v (insertRows c taskId ++ ws)
  | move {v id c new source m u n ts ws} : v.commands.find id = some c → accepts c.state new = true →
      TaskRows (v.write (moveRows c new source m u n)) id new ts →
      Steps (v.write (moveRows c new source m u n ++ ts)) ws → Steps v (moveRows c new source m u n ++ ts ++ ws)
  | aside {v w ws} : w.isAside = true → Steps (w.apply v) ws → Steps v (w :: ws)

namespace Steps
variable {v : DB} {ws vs : List Write}

theorem append (h : Steps v ws) (h' : Steps (v.write ws) vs) : Steps v (ws ++ vs) := by
  induction h with
  | nil => exact h'
  | insert hn hs hf _ ih =>
    rw [List.append_assoc]
    exact .insert hn hs hf (ih (by rwa [← DB.write_append]))
  | move hc ha ht _ ih =>
    rw [List.append_assoc]
    exact .move hc ha ht (ih (by rwa [← DB.write_append]))
  | aside ha _ ih => exact .aside ha (ih h')

theorem asides (h : ∀ w ∈ ws, w.isAside = true) : Steps v ws := by
  induction ws generalizing v with
  | nil => exact .nil
  | cons w ws ih => exact .aside (h w (List.mem_cons_self ..)) (ih fun x hx => h x (List.mem_cons_of_mem _ hx))

theorem moves {k : UUID} {c : Command} {new : CommandState} {source : Source} {m : Option Metadata} {u n : Time}
    (hc : v.commands.find k = some c) (ha : accepts c.state new = true) (ht : ∀ s, new.tasked s = s) :
    Steps v (moveRows c new source m u n) := by
  have : Steps v (moveRows c new source m u n ++ [] ++ []) :=
    move hc ha ⟨by simp, fun t h => ⟨t, h, (ht _).symm⟩⟩ .nil
  simpa using this

end Steps

section
variable {P : Params} {d v : DB} {ws : List Write}

theorem taskRows_follow {id : UUID} {new : CommandState} {st : TaskState} {rs ec em : Option String}
    (h : ∀ s, new.tasked s = st) : TaskRows v id new (taskRows v id (Task.update st rs ec em)) := by
  cases ht : v.tasks.find id with
  | none => exact ⟨by simp [taskRows, ht], by simp [ht]⟩
  | some t =>
    have hid : t.commandId = id := by simpa using Table.key_of_find ht
    refine ⟨by simp [taskRows, ht, Task.update, hid], fun t' ht' => ?_⟩
    cases ht.symm.trans ht'
    refine ⟨t.update st rs ec em, ?_, (h _).symm⟩
    simp only [taskRows, ht, Option.toList_some, List.map_cons, List.map_nil,
      DB.write_cons, DB.write_nil, Write.apply, Table.find_put, key_task]
    rw [if_pos]
    exact hid

theorem expireTaskRows_follow {id : UUID} : TaskRows v id .expired (expireTaskRows v id) := by
  cases ht : v.tasks.find id with
  | none => exact ⟨by simp [expireTaskRows, ht], by simp [ht]⟩
  | some t =>
    have hid : t.commandId = id := by simpa using Table.key_of_find ht
    refine ⟨fun w hw => ?_, fun t' ht' => ?_⟩
    · simp only [expireTaskRows, ht, Option.toList_some, List.mem_map, List.mem_filter, List.mem_singleton] at hw
      obtain ⟨t', ⟨rfl, -⟩, rfl⟩ := hw
      exact ⟨_, rfl, hid⟩
    · cases ht.symm.trans ht'
      simp only [expireTaskRows, ht, Option.toList_some, CommandState.tasked]
      by_cases hs : t.state ∈ [.succeeded, .failed, .cancelled]
      · rw [List.filter_cons_of_neg (by simpa [imp_iff_not_or] using hs), if_pos hs]
        exact ⟨t, ht, rfl⟩
      · rw [List.filter_cons_of_pos (by simpa using hs), if_neg hs]
        refine ⟨{ t with state := .failed, resultSummary := some "expired" }, ?_, rfl⟩
        simp only [List.filter_nil, List.map_cons, List.map_nil, DB.write_cons, DB.write_nil,
          Write.apply, Table.find_put, key_task]
        rw [if_pos hid]

theorem createRows_steps {c : Command} {tid : UUID} {new : CommandState} {u₁ n₁ u₂ n₂ : Time}
    (hn : d.commands.find c.id = none)
    (hs : c.state = .received) (hf : c.finishedAt = none) (hnew : new = .awaitingApproval ∨ new = .queued) :
    Steps d (createRows c tid new u₁ n₁ u₂ n₂) := by
  have hc : (d.write (insertRows c tid)).commands.find c.id = some c := Table.find_put_self ..
  have hinsert : Steps d (insertRows c tid) := by
    rw [← List.append_nil (insertRows c tid)]
    exact .insert hn hs hf .nil
  have hid : (c.transition .validated u₁ n₁ none).id = c.id := (c.transition_same ..).id
  refine (hinsert.append (Steps.moves hc ?_ fun _ => rfl)).append (Steps.moves (k := c.id) ?_ ?_ ?_)
  · rw [hs]; decide
  · rw [DB.write_append]; exact find_moveRows ..
  · rw [Command.transition_state]
    rcases hnew with rfl | rfl <;> decide
  · rcases hnew with rfl | rfl <;> exact fun _ => rfl

theorem BlockRows.steps {ids : List UUID} (h : BlockRows v ids ws) : Steps v ws := by
  induction h with
  | nil => exact .nil
  | skip _ _ ih => exact ih
  | block hc ha _ ih => exact (Steps.moves hc ha fun _ => rfl).append ih

theorem Rounds.steps {M : DB → List Write → Prop} (hM : ∀ v ws, M v ws → Steps v ws)
    (h : Rounds M v ws) : Steps v ws := by
  induction h with
  | nil => exact .nil
  | cons hm _ ih => exact (hM _ _ hm).append ih

theorem PublishRows.steps (h : PublishRows v ws) : Steps v ws := by
  cases h with
  | mark => exact .asides (by simp [Write.isAside])
  | block hc ha => exact (Steps.moves hc ha fun _ => rfl).append (.asides (by simp [Write.isAside]))

theorem ExpireRows.steps (h : ExpireRows v ws) : Steps v ws := by
  cases h with
  | skip => exact .nil
  | @expire id c u n hc _ ha =>
    have : Steps v (moveRows c .expired .scheduler none u n ++ expireTaskRows v c.id ++ []) := .move hc ha ?_ .nil
    · simpa using this
    · have hid : c.id = id := by simpa using Table.key_of_find hc
      rw [hid]
      exact expireTaskRows_follow (v := v.write (moveRows c .expired .scheduler none u n))

theorem approveRows_steps {a : Approval} {id : UUID} {c : Command} {u₁ n₁ u₂ n₂ : Time}
    (hc : d.commands.find id = some c)
    (hs : c.state = .awaitingApproval) : Steps d (approveRows a c u₁ n₁ u₂ n₂) := by
  have hid : c.id = id := by simpa using Table.key_of_find hc
  refine .aside rfl ?_
  refine (Steps.moves (v := (Write.approval a).apply d) hc ?_ fun _ => rfl).append
    (Steps.moves (k := id) ?_ ?_ fun _ => rfl)
  · rw [hs]; decide
  · rw [← hid]; exact find_moveRows ..
  · rw [Command.transition_state]; decide

theorem task_follows {k : Lifecycle} {p : LifecyclePayload} {id : UUID} :
    TaskRows v id (k.target p) ((k.task p).elim [] (taskRows v id)) := by
  cases k with
  | delivered => exact taskRows_follow fun _ => rfl
  | acknowledged =>
    simp only [Lifecycle.target, Lifecycle.task]
    split
    · exact ⟨by simp, fun t ht => ⟨t, ht, rfl⟩⟩
    · exact taskRows_follow fun _ => rfl
  | progress => exact taskRows_follow fun _ => rfl
  | result =>
    simp only [Lifecycle.target, Lifecycle.task]
    split
    · exact taskRows_follow fun _ => rfl
    · exact taskRows_follow fun _ => rfl

theorem handleRows_steps {k : Lifecycle} {p : LifecyclePayload} {u n : Time} : Steps d (handleRows d k p u n) := by
  unfold handleRows
  split
  · exact .nil
  rename_i c hc
  split
  · rename_i hgo
    simp only [Bool.and_eq_true] at hgo
    obtain ⟨id, -, hc⟩ := Option.bind_eq_some_iff.mp hc
    have hid : c.id = id := by simpa using Table.key_of_find hc
    subst hid
    have : Steps d (moveRows c (k.target p) k.source (some (k.metadata p c.id)) u n ++
        (k.task p).elim [] (taskRows d c.id) ++ []) := .move hc hgo.1.1.2 ?_ .nil
    · simpa using this
    · exact task_follows
  · exact .nil

theorem Rows.steps {call : Call} (h : Rows P d call ws) : Steps d ws := by
  cases h with
  | createAwaiting _ hc _ hn _ =>
    refine (createRows_steps hn ?_ ?_ (.inl rfl)).append (.asides (by simp [Write.isAside]))
    · rw [hc]; rfl
    · rw [hc]; rfl
  | createQueued _ hc _ hn _ _ =>
    refine (createRows_steps hn ?_ ?_ (.inr rfl)).append (.asides (by simp [Write.isAside]))
    · rw [hc]; rfl
    · rw [hc]; rfl
  | cancel hc _ ha => exact .moves hc ha fun _ => rfl
  | approve _ _ _ _ hc hs _ _ => exact (approveRows_steps hc hs).append (.asides (by simp [Write.isAside]))
  | @reject id o nonce note a c now u n _ _ _ _ hc ha =>
    refine .aside rfl ?_
    exact (Steps.moves (v := (Write.approval (a.decide false now note)).apply d) hc ha fun _ => rfl).append
      (.asides (by simp [Write.isAside]))
  | activate _ _ hws _ => exact .aside rfl (hws.steps.append (.asides (by simp [Write.isAside])))
  | reactivate => exact .asides (by simp [Write.isAside])
  | release => exact .asides (by simp [Write.isAside])
  | startPairing => exact .asides (by simp [Write.isAside])
  | confirmPairing => exact .asides (by simp [Write.isAside])
  | revoke =>
    refine .asides fun w hw => ?_
    simp only [List.mem_append, List.mem_cons, List.mem_map, List.not_mem_nil, or_false] at hw
    rcases hw with (rfl | ⟨r, -, rfl⟩) | rfl | rfl <;> rfl
  | batch h => exact h.steps fun _ _ => PublishRows.steps
  | tasks h =>
    refine (Steps.asides fun w hw => ?_).append (h.steps fun _ _ => ExpireRows.steps)
    rcases List.mem_append.mp hw with hw | hw <;> obtain ⟨x, -, rfl⟩ := List.mem_map.mp hw <;> rfl
  | consume => exact handleRows_steps

theorem Refusal.steps {call : Call} (h : Refusal P d call ws) : Steps d ws := by
  cases h <;> exact .asides (by simp [Write.isAside])

end

theorem Steps.keep {J : DB → Prop} {v : DB} {ws : List Write}
    (hinsert : ∀ v c taskId, J v → v.commands.find c.id = none → c.state = .received → c.finishedAt = none →
      J (v.write (insertRows c taskId)))
    (hmove : ∀ v id c new source m u n ts, J v → v.commands.find id = some c → accepts c.state new = true →
      TaskRows (v.write (moveRows c new source m u n)) id new ts → J (v.write (moveRows c new source m u n ++ ts)))
    (haside : ∀ v (w : Write), J v → w.isAside = true → J (w.apply v)) (h : Steps v ws)
    (hJ : J v) : J (v.write ws) := by
  induction h with
  | nil => exact hJ
  | insert hn hs hf _ ih =>
    rw [DB.write_append]
    exact ih (hinsert _ _ _ hJ hn hs hf)
  | move hc ha ht _ ih =>
    rw [DB.write_append]
    exact ih (hmove _ _ _ _ _ _ _ _ _ hJ hc ha ht)
  | aside ha _ ih => exact ih (haside _ _ hJ ha)

/-- What every step keeps, every serial run keeps. -/
theorem serial_steps {P : Params} {J : DB → Prop} {c : Conf} (hinit : ∀ d x, Init d x → J d)
    (hinsert : ∀ v c taskId, J v → v.commands.find c.id = none → c.state = .received → c.finishedAt = none →
      J (v.write (insertRows c taskId)))
    (hmove : ∀ v id c new source m u n ts, J v → v.commands.find id = some c → accepts c.state new = true →
      TaskRows (v.write (moveRows c new source m u n)) id new ts → J (v.write (moveRows c new source m u n ++ ts)))
    (haside : ∀ v (w : Write), J v → w.isAside = true → J (w.apply v))
    (h : (sys P).Serial Init c) : J c.world.sh.db :=
  serial_store hinit (fun _ _ _ hJ hrows => (hrows.elim Rows.steps Refusal.steps).keep hinsert hmove haside hJ) h

end Veyaan
