import Veyaan.Code
import Veyaan.Lib.Serial

/-!
# What the programs do alone

The rules for a program that runs while no other call does: the view of its
transaction, statement by statement, and the rows that the parts shared by all
operations write.
-/

namespace Veyaan

open Sys

/-- The program runs alone, while what is outside the database is in `J`. -/
abbrev within (P : Params) (fails : Bool) (J : Ext → Prop) (I : DB → Prop) {α : Type} (p : Op α)
    (Q : Except Err α → DB → Open DB → Prop) (d : DB) (o : Open DB) : Prop := (sys P).alone fails J I p Q d o

abbrev solo (P : Params) (fails : Bool) (I : DB → Prop) {α : Type} (p : Op α)
    (Q : Except Err α → DB → Open DB → Prop)
    (d : DB) (o : Open DB) : Prop := within P fails (fun _ => True) I p Q d o

def DB.write (d : DB) (ws : List Write) : DB := ws.foldl (fun d w => w.apply d) d

@[simp] theorem DB.write_nil (d : DB) : d.write [] = d := rfl

@[simp] theorem DB.write_cons (d : DB) (w : Write) (ws : List Write) :
    d.write (w :: ws) = (w.apply d).write ws := rfl

theorem DB.write_append (d : DB) (ws vs : List Write) : d.write (ws ++ vs) = (d.write ws).write vs :=
  List.foldl_append

theorem DB.write_users : ∀ (ws : List Write) (d : DB), (d.write ws).users = d.users
  | [], _ => rfl
  | w :: ws, d => by
    rw [DB.write_cons, DB.write_users ws]
    cases w <;> rfl

theorem DB.write_isUser (ws : List Write) (d : DB) (id : UUID) : (d.write ws).isUser id = d.isUser id := by
  rw [DB.isUser, DB.write_users]
  rfl

theorem DB.write_commands : ∀ {ws : List Write} (d : DB), (∀ w ∈ ws, ∀ c, w ≠ .command c) →
    (d.write ws).commands = d.commands
  | [], _, _ => rfl
  | w :: ws, d, h => by
    rw [DB.write_cons, DB.write_commands _ fun x hx => h x (List.mem_cons_of_mem _ hx)]
    cases w with
    | command c => exact absurd rfl (h _ (List.mem_cons_self ..) c)
    | _ => rfl

section
variable {P : Params} {fails : Bool} {J : Ext → Prop} {I : DB → Prop} {α β : Type}
    {Q : Except Err α → DB → Open DB → Prop}
variable {d : DB} {o : Open DB}

/-! ## Statements -/

theorem within_now {f : Time → Op α} (hk : ∀ x, J x → within P fails J I (f x.clock) Q d o) :
    within P fails J I ((effect .now).bind f) Q d o :=
  fun _ x hx => hk x hx

theorem solo_now {f : Time → Op α} (hk : ∀ t, within P fails J I (f t) Q d o) :
    within P fails J I ((effect .now).bind f) Q d o :=
  within_now fun x _ => hk x.clock

theorem within_uuid4 {f : UUID → Op α} (hk : ∀ x, J x → within P fails J I (f x.nextId) Q d o) :
    within P fails J I ((effect .uuid4).bind f) Q d o :=
  fun _ x hx => hk x hx

theorem solo_uuid4 {f : UUID → Op α} (hk : ∀ id, within P fails J I (f id) Q d o) :
    within P fails J I ((effect .uuid4).bind f) Q d o :=
  within_uuid4 fun x _ => hk x.nextId

theorem solo_token {f : String → Op α} (hk : ∀ s, within P fails J I (f s) Q d o) :
    within P fails J I ((effect .tokenUrlsafe).bind f) Q d o :=
  fun _ x _ => hk x.token

theorem solo_compareDigest {h : String} {a : Attempt} {f : Bool → Op α}
    (hk : within P fails J I (f (h == a.read.pairingCodeHash)) Q d o) :
    within P fails J I ((effect (.compareDigest h a)).bind f) Q d o :=
  fun _ _ _ => hk

theorem within_ask {e : Eff β} {f : β → Op α} {vs : List Ev} {b : Ext → β} {b₀ : β} {g : Ext → Ext}
    (he : ∀ ch x, Eff.handle ch e x = if ch then x.ask vs (b x) g else (.ok b₀, x, []))
    (hV : (∃ x, J x ∧ x.valkey ≠ .up) → Q (.error .valkey) d o)
    (hk : ∀ y, (y = b₀ ∨ ∃ x, J x ∧ y = b x) → within P fails J I (f y) Q d o) :
    within P fails J I ((effect e).bind f) Q d o := by
  intro ch x hx
  have hh : (sys P).handle ch e x = if ch then x.ask vs (b x) g else (.ok b₀, x, []) := he ch x
  rw [hh]
  cases ch with
  | false => exact hk b₀ (.inl rfl)
  | true =>
    rw [if_pos rfl]
    unfold Ext.ask
    cases hv : x.valkey with
    | up => exact hk _ (.inr ⟨x, hx, rfl⟩)
    | _ => exact hV ⟨x, hx, by simp [hv]⟩

theorem solo_last {e : Eff α} (h : ∀ r, Q r d o) : within P fails J I (effect e) Q d o := by
  intro ch x _
  cases (Sys.handle (sys P) ch e x).1 <;> exact h _

theorem solo_columnValue {f : Unit → Op α} (hE : P.plainStr = true → Q (.error .attributeError) d o)
    (hk : P.plainStr = false → within P fails J I (f ()) Q d o) :
    within P fails J I ((columnValue P).bind f) Q d o := by
  unfold columnValue
  cases hP : P.plainStr with
  | true => exact hE hP
  | false => exact hk hP

theorem solo_select {q : DB → β} {f : β → Op α} (ho : o.failed = false)
    (hE : fails = true → Q (.error .db) d o.fail) (hk : within P fails J I (f (q o.view)) Q d o) :
    within P fails J I ((select q).bind f) Q d o :=
  ⟨fun hf => hE (hf.resolve_right (by rw [ho]; simp)), fun _ => hk⟩

theorem solo_selectForUpdate {ρ : Type} {sel : DB → Option ρ} {key : ρ → Key}
    {l : Option Label} {f : Option ρ → Op α}
    (ho : o.failed = false) (hE : fails = true → Q (.error .db) d o.fail)
    (hk : within P fails J I (f (sel o.view)) Q d o.lock) :
    within P fails J I ((selectForUpdate sel key l).bind f) Q d o := by
  refine ⟨fun hf => hE (hf.resolve_right (by rw [ho]; simp)), fun _ => ?_⟩
  have : (sel o.view).toList.head? = sel o.view := by cases sel o.view <;> rfl
  exact (congrArg (fun r => within P fails J I (f r) Q d o.lock) this).mpr hk

theorem solo_execute {ks : List Key} {fn : DB → Except Err (List Write)} {f : Nat → Op α} (ho : o.failed = false)
    (hE : fails = true → Q (.error .db) d o.fail) (hbad : ∀ e, fn o.view = .error e → Q (.error e) d o.fail)
    (hk : ∀ ws, fn o.view = .ok ws → within P fails J I (f ws.length) Q d (.seeing (o.view.write ws))) :
    within P fails J I ((execute ks fn).bind f) Q d o := by
  refine ⟨fun hf => hE (hf.resolve_right (by rw [ho]; simp)), fun _ => ?_⟩
  cases hfn : fn o.view with
  | error e => exact hbad e hfn
  | ok ws => exact hk ws hfn

theorem solo_commit {t : Option Label} {f : Unit → Op α} (ho : o.failed = false)
    (hE : fails = true → Q (.error .db) d o.fail) (hI : I o.view)
    (hk : within P fails J I (f ()) Q o.view (.idle o.view)) :
    within P fails J I ((Prog.call (.commit t)).bind f) Q d o :=
  ⟨fun hf => hE (hf.resolve_right (by rw [ho]; simp)), fun _ => ⟨hI, hk⟩⟩

/-- The end of a session: what the body has left open is committed, or taken back. -/
def Closing (fails : Bool) (I : DB → Prop) (Q : Except Err α → DB → Open DB → Prop) :
    Except Err α → DB → Open DB → Prop
  | .ok a, d', o' => (fails = true ∨ o'.failed = true → Q (.error .db) d' (.idle d')) ∧
    (o'.failed = false → I o'.view ∧ Q (.ok a) o'.view (.idle o'.view))
  | .error e, d', _ => Q (.error e) d' (.idle d')

theorem solo_withSession {body : Op α} (hb : within P fails J I body (Closing fails I Q) d o) :
    within P fails J I (withSession body) Q d o := by
  refine alone_bind (alone_attempt (alone_bind (alone_mono (fun r d' o' h => ?_) hb)))
  cases r with
  | ok a => exact h
  | error e => exact h

/-! ## Identifiers -/

theorem calm_nextId {p : Op α} {i : Nat} {w w' : Wd} {a : Except Err α} (h : (sys P).Calm J i p w a w') :
    (sys P).Calm (fun x => J x ∧ w.sh.ext.nextId ≤ x.nextId) i p w a w' :=
  h.keep (fun ch e x (hx : w.sh.ext.nextId ≤ x.nextId) => Nat.le_trans hx (handle_nextId ch e x))
    (fun _ _ _ he hx => Nat.le_trans hx (extStep_nextId he)) (Nat.le_refl _)

/-! ## `is_active` -/

def Ext.stopCached (x : Ext) (ownerId : UUID) : Bool :=
  match x.cache ownerId with
  | some (.dict active _) => active.getD false
  | some (.scalar truthy) => truthy
  | none => false

/-- `is_active` says yes only if the committed row does, or the cache. It raises when
a statement fails or Valkey does. -/
theorem within_isActive {site : Site} {owner : UUID} {f : Bool → Op α} (hE : fails = true → Q (.error .db) d o)
    (hV : (∃ x, J x ∧ x.valkey ≠ .up) → Q (.error .valkey) d o)
    (hk : ∀ b, (b = true → d.stopActive owner = true ∨ ∃ x, J x ∧ x.stopCached owner = true) →
      within P fails J I (f b) Q d o) : within P fails J I ((isActive site owner).bind f) Q d o := by
  refine alone_bind ?_
  unfold isActive
  refine within_ask (fun _ _ => rfl) hV fun v hv => ?_
  have hcached : ∀ w, v = some w → ∃ x, J x ∧ x.cache owner = some w := by
    rintro w rfl
    rcases hv with hv | ⟨x, hx, hv⟩
    · cases hv
    · exact ⟨x, hx, hv.symm⟩
  split
  · obtain ⟨x, hx, hc⟩ := hcached _ rfl
    exact hk _ fun hb => .inr ⟨x, hx, by rw [Ext.stopCached, hc]; exact hb⟩
  · obtain ⟨x, hx, hc⟩ := hcached _ rfl
    exact hk _ fun hb => .inr ⟨x, hx, by rw [Ext.stopCached, hc]; exact hb⟩
  · refine ⟨hE, ?_⟩
    dsimp only [Prog.ofExcept_ok, Prog.ret_bind]
    cases hs : d.stops.find owner with
    | none => exact hk false (by simp)
    | some stop =>
      dsimp only
      split
      · rename_i hact
        exact within_ask (fun _ _ => rfl) hV fun _ _ => hk true fun _ =>
          .inl (by rw [DB.stopActive, hs]; exact hact)
      · exact hk false (by simp)

theorem solo_isActive {site : Site} {owner : UUID} {f : Bool → Op α} (hE : fails = true → Q (.error .db) d o)
    (hV : (∃ x, J x ∧ x.valkey ≠ .up) → Q (.error .valkey) d o)
    (hk : ∀ b, within P fails J I (f b) Q d o) : within P fails J I ((isActive site owner).bind f) Q d o :=
  within_isActive hE hV fun b _ => hk b

/-! ## `transition_command` -/

def moveRows (c : Command) (new : CommandState) (source : Source) (m : Option Metadata) (u n : Time) : List Write :=
  [.command (c.transition new u n m), .event ⟨c.id, some c.state, new, source, m⟩]

/-- The time that `transition_command` has set for the state of the command, if it
sets one. -/
def Command.stamp (c : Command) : Option Time :=
  match c.state with
  | .delivered => c.deliveredAt
  | .acknowledged => c.acknowledgedAt
  | .running => c.startedAt
  | .succeeded | .failed | .timedOut | .cancelled | .expired => c.finishedAt
  | _ => none

theorem Command.stamp_transition (c : Command) (new : CommandState) (u n : Time) (m : Option Metadata) :
    (c.transition new u n m).stamp = none ∨ (c.transition new u n m).stamp = some n := by
  cases new <;> first | exact .inl rfl | exact .inr rfl

def Timed (J : Ext → Prop) (ws : List Write) : Prop :=
  ∀ c, Write.command c ∈ ws → ∀ n, c.stamp = some n → ∃ x, J x ∧ x.clock = n

theorem Timed.append {J : Ext → Prop} {ws vs : List Write} (h : Timed J ws)
    (h' : Timed J vs) : Timed J (ws ++ vs) :=
  fun c hc n hn => (List.mem_append.mp hc).elim (fun hc => h c hc n hn) fun hc => h' c hc n hn

theorem timed_of_tables {J : Ext → Prop} {ws : List Write} (h : ∀ c, Write.command c ∉ ws) : Timed J ws :=
  fun c hc => absurd hc (h c)

theorem timed_moveRows {J : Ext → Prop} {x : Ext} {c : Command} {new : CommandState} {source : Source}
    {m : Option Metadata} {u : Time} (hx : J x) : Timed J (moveRows c new source m u x.clock) := by
  intro c' hc' n hn
  simp only [moveRows, List.mem_cons, Write.command.injEq, reduceCtorEq, List.not_mem_nil, or_false] at hc'
  subst hc'
  rcases c.stamp_transition new u x.clock m with h | h <;> rw [h] at hn <;> cases hn
  exact ⟨x, hx, rfl⟩

/-- The database takes the transition: the trigger lets it pass, and the columns
take their values. -/
def Command.goes (c : Command) (new : CommandState) (m : Option Metadata) : Bool :=
  (c.state == new || validateCommandStateTransition c.state new) && (c.transition new 0 0 m).storable &&
    m.all Metadata.storable

theorem storable_transition (c : Command) (new : CommandState) (m : Option Metadata) (u n : Time) :
    (c.transition new u n m).storable = (c.transition new 0 0 m).storable := by
  cases new <;> rfl

theorem updateCommand_self {c : Command} {id : UUID} (new : CommandState) (u n : Time) (source : Source)
    (m : Option Metadata) (hf : d.commands.find id = some c) : updateCommand c new u n source m d =
      if (c.state == new || validateCommandStateTransition c.state new) = true then
        if (c.transition new 0 0 m).storable then .ok [.command (c.transition new u n m)] else .error .data
      else .error (.trigger ⟨c.id, c.state, c.state, new, source⟩) := by
  have hid : c.id = id := by simpa using Table.key_of_find hf
  unfold updateCommand
  simp only [hid, hf, Command.flushed_self, storable_transition]
  by_cases hn : c.state = new
  · simp [hn]
  · cases hv : validateCommandStateTransition c.state new with
    | true => simp [hn]
    | false => simp [hn]

theorem within_transition {loaded : Option Command} {id : UUID} {new : CommandState} {source : Source}
    {m : Option Metadata} {f : Option Command → Op α} (ho : o.failed = false)
    (hl : ∀ c, loaded = some c → o.view.commands.find id = some c)
    (hE : fails = true → ∀ o', o'.failed = true → Q (.error .db) d o')
    (hnone : o.view.commands.find id = none → within P fails J I (f none) Q d o.lock)
    (hrej : ∀ c, o.view.commands.find id = some c → accepts c.state new = false →
      Q (.error (.stateTransition id c.state new)) d o.lock)
    (hbad : ∀ c e o', o.view.commands.find id = some c → accepts c.state new = true → c.goes new m = false →
      e.classified = false ∧ (∀ x a b, e ≠ .stateTransition x a b) → o'.failed = true → Q (.error e) d o')
    (hk : ∀ c u x, J x → o.view.commands.find id = some c → accepts c.state new = true → c.goes new m = true →
      within P fails J I (f (some (c.transition new u x.clock m))) Q d
        (.seeing (o.view.write (moveRows c new source m u x.clock)))) :
    within P fails J I ((transitionCommand loaded id new source m).bind f) Q d o := by
  refine alone_bind ?_
  unfold transitionCommand
  refine solo_selectForUpdate ho (fun hf => hE hf _ rfl) ?_
  cases hc : o.view.commands.find id with
  | none => exact hnone hc
  | some row =>
    have hcmd : loaded.getD row = row := by
      cases hlo : loaded with
      | none => rfl
      | some l =>
        have := hl l hlo
        rw [hc] at this
        cases this
        rfl
    simp only [hcmd]
    have hid : row.id = id := by simpa using Table.key_of_find hc
    split
    · rename_i hacc
      refine solo_now fun u => within_now fun x hx =>
        solo_execute ho (fun hf => hE hf _ rfl) (fun e he => ?_) fun ws hws => ?_
      · have he' := he
        rw [updateCommand_self new u x.clock source m (show o.lock.view.commands.find id = some row from hc)] at he'
        refine hbad row e _ hc hacc ?_ ?_ rfl
        · split at he'
          · rename_i hv
            split at he'
            · cases he'
            · rename_i hs
              simp only [Command.goes, hv, Bool.true_and, Bool.and_eq_false_iff]
              exact .inl (by simpa using hs)
          · rename_i hv
            simp [Command.goes, hv]
        · split at he'
          · split at he' <;> cases he'
            exact ⟨rfl, by simp⟩
          · cases he'; exact ⟨rfl, by simp⟩
      · rw [updateCommand_self new u x.clock source m (show o.lock.view.commands.find id = some row from hc)] at hws
        split at hws
        · rename_i hv
          split at hws <;> cases hws
          rename_i hs
          refine solo_execute rfl (fun hf => hE hf _ rfl) (fun e he => ?_) fun ws hws => ?_
          · simp only [insertEvent] at he
            split at he <;> cases he
            rename_i hm
            refine hbad row _ _ hc hacc ?_ ⟨rfl, by simp⟩ rfl
            simp only [Command.goes, hv, hs, Bool.and_self, Bool.true_and]
            simpa using hm
          · simp only [insertEvent] at hws
            split at hws <;> cases hws
            rename_i hm
            refine hk row u x hx hc hacc ?_
            simp only [Command.goes, hv, hs, Bool.and_self, Bool.true_and]
            exact hm
        · cases hws
    · rename_i hacc
      exact hrej row hc (by simpa using hacc)

theorem solo_transition {loaded : Option Command} {id : UUID} {new : CommandState} {source : Source}
    {m : Option Metadata} {f : Option Command → Op α} (ho : o.failed = false)
    (hl : ∀ c, loaded = some c → o.view.commands.find id = some c)
    (hE : fails = true → ∀ o', o'.failed = true → Q (.error .db) d o')
    (hnone : o.view.commands.find id = none → within P fails J I (f none) Q d o.lock)
    (hrej : ∀ c, o.view.commands.find id = some c → accepts c.state new = false →
      Q (.error (.stateTransition id c.state new)) d o.lock)
    (hbad : ∀ c e o', o.view.commands.find id = some c → accepts c.state new = true → c.goes new m = false →
      e.classified = false ∧ (∀ x a b, e ≠ .stateTransition x a b) → o'.failed = true → Q (.error e) d o')
    (hk : ∀ c u n, o.view.commands.find id = some c → accepts c.state new = true → c.goes new m = true →
      within P fails J I (f (some (c.transition new u n m))) Q d
      (.seeing (o.view.write (moveRows c new source m u n)))) :
    within P fails J I ((transitionCommand loaded id new source m).bind f) Q d o :=
  within_transition ho hl hE hnone hrej hbad fun c u x _ => hk c u x.clock

/-! ## Tasks, events and audit rows -/

def markRows (v : DB) (id : UUID) (f : OutboxEvent → OutboxEvent) : List Write :=
  (v.outbox.find id).toList.map fun e => .outbox { f e with id := e.id }

theorem updateOutbox_rows (v : DB) (id : UUID) (f : OutboxEvent → OutboxEvent) :
    updateOutbox id f v = .ok (markRows v id f) := by
  unfold updateOutbox markRows
  cases v.outbox.find id <;> rfl

def taskRows (v : DB) (commandId : UUID) (f : Task → Task) : List Write :=
  (v.tasks.find commandId).toList.map fun t => .task (f t)

theorem solo_updateTaskState {id : UUID} {st : TaskState} {rs ec em : Option String} {f : Unit → Op α}
    (ho : o.failed = false) (hE : fails = true → ∀ o', o'.failed = true → Q (.error .db) d o')
    (hbad : ∀ t o', o.view.tasks.find id = some t → (t.update st rs ec em).storable = false → o'.failed = true →
      Q (.error .data) d o')
    (hk : (∀ t, o.view.tasks.find id = some t → (t.update st rs ec em).storable = true) →
      within P fails J I (f ()) Q d (.seeing (o.view.write (taskRows o.view id (Task.update st rs ec em))))) :
    within P fails J I ((updateTaskState id st rs ec em).bind f) Q d o := by
  refine alone_bind ?_
  unfold updateTaskState
  refine solo_selectForUpdate ho (fun hf => hE hf _ rfl) ?_
  cases ht : o.view.tasks.find id with
  | none =>
    have := hk fun t h => by rw [ht] at h; cases h
    simp only [taskRows, ht, Option.toList_none, List.map_nil, DB.write_nil] at this
    have hlock : o.lock = .seeing o.view := by obtain ⟨v, fl, l⟩ := o; cases ho; rfl
    rw [hlock]
    exact this
  | some t =>
    refine solo_execute ho (fun hf => hE hf _ rfl) (fun e he => ?_) fun ws hws => ?_
    · simp only [updateTask, Open.lock, ht] at he
      split at he <;> cases he
      rename_i hs
      exact hbad t _ ht (by simpa using hs) rfl
    · simp only [updateTask, Open.lock, ht] at hws
      split at hws <;> cases hws
      rename_i hs
      have := hk fun t' h => by rw [ht] at h; cases h; exact hs
      simp only [taskRows, ht, Option.toList_some, List.map_cons, List.map_nil] at this
      exact this

def newEvent (et : EventType) (at' : AggregateType) (aggregateId : UUID) (msg : Msg) (id : UUID)
    (now : Time) : OutboxEvent :=
  { id, aggregateType := at', aggregateId, eventType := et, msg, status := .pending, availableAt := now,
    attemptCount := 0, publishedAt := none }

/-- `add_event`: it is refused when the identifier is in use, or the payload has no
form in `JSONB`. -/
theorem within_addEvent {et : EventType} {at' : AggregateType} {agg : UUID} {msg : Msg} {f : Unit → Op α}
    (ho : o.failed = false) (hE : fails = true → ∀ o', o'.failed = true → Q (.error .db) d o')
    (hbad : ∀ x e o', J x → ((o.view.outbox.find x.nextId).isSome = true ∧ e = .integrity ∨
      msg.storable = false ∧ e = .data) →
      o'.failed = true → Q (.error e) d o')
    (hk : ∀ id now, o.view.outbox.find id = none → msg.storable = true →
      within P fails J I (f ()) Q d (.seeing (o.view.write [.outbox (newEvent et at' agg msg id now)]))) :
    within P fails J I ((addEvent et at' agg msg).bind f) Q d o := by
  refine alone_bind ?_
  unfold addEvent
  refine within_uuid4 fun x hx => solo_now fun now => ?_
  refine solo_execute ho (fun hf => hE hf _ rfl) (fun e he => ?_) fun ws hws => ?_
  · simp only [insertOutbox] at he
    split at he
    · rename_i hid
      cases he
      exact hbad x _ _ hx (.inl ⟨hid, rfl⟩) rfl
    · split at he <;> cases he
      rename_i hm
      exact hbad x _ _ hx (.inr ⟨by simpa using hm, rfl⟩) rfl
  · simp only [insertOutbox] at hws
    split at hws
    · cases hws
    split at hws <;> cases hws
    rename_i hn hm
    exact solo_select rfl (fun hf => hE hf _ rfl) (hk x.nextId now (by simpa using hn) hm)

theorem solo_addEvent {et : EventType} {at' : AggregateType} {agg : UUID} {msg : Msg} {f : Unit → Op α}
    (ho : o.failed = false) (hE : ∀ e o', o'.failed = true → Q (.error e) d o')
    (hk : ∀ id now, o.view.outbox.find id = none →
      within P fails J I (f ()) Q d (.seeing (o.view.write [.outbox (newEvent et at' agg msg id now)]))) :
    within P fails J I ((addEvent et at' agg msg).bind f) Q d o :=
  within_addEvent ho (fun _ => hE _) (fun _ e o' _ _ => hE e o') fun id now hn _ => hk id now hn

theorem within_insertAudit {a : AuditLog} {f : Nat → Op α} (ho : o.failed = false)
    (hE : fails = true → ∀ o', o'.failed = true → Q (.error .db) d o')
    (hbad : ∀ e o', (o.view.isUser a.userId && a.note.all textOk) = false → e = .integrity ∨ e = .data →
      o'.failed = true → Q (.error e) d o')
    (hk : o.view.isUser a.userId = true → a.note.all textOk = true →
      within P fails J I (f 1) Q d (.seeing (o.view.write [.audit a]))) :
    within P fails J I ((execute [] (insertAudit a)).bind f) Q d o := by
  refine solo_execute ho (fun hf => hE hf _ rfl) (fun e he => ?_) fun ws hws => ?_
  · have hno : ¬ (o.view.isUser a.userId = true ∧ a.note.all textOk = true) := fun h => by
      rw [insertAudit_ok.mpr ⟨h.1, h.2, rfl⟩] at he
      cases he
    refine hbad e _ (by simpa using hno) ?_ rfl
    rcases insertAudit_cases a o.view with h | h | h <;> rw [h] at he <;> cases he
    · exact .inr rfl
    · exact .inl rfl
  · obtain ⟨hu, hn, rfl⟩ := insertAudit_ok.mp hws
    exact hk hu hn

theorem solo_insertAudit {a : AuditLog} {f : Nat → Op α} (ho : o.failed = false)
    (hE : ∀ e o', o'.failed = true → Q (.error e) d o')
    (hk : within P fails J I (f 1) Q d (.seeing (o.view.write [.audit a]))) :
    within P fails J I ((execute [] (insertAudit a)).bind f) Q d o :=
  within_insertAudit ho (fun _ => hE _) (fun e o' _ _ => hE e o') fun _ _ => hk

end

end Veyaan
