import Veyaan.History
import Veyaan.Transitions

/-!
# Redelivered messages

JetStream may deliver a lifecycle message again at any later time. Once its handler
has moved the command, a state event with the key of the message is there for good,
or, for a report of progress, the command has been in `RUNNING` and does not come back
to the only state in which a report counts.
-/

open Relation (ReflTransGen)

namespace Veyaan

open Sys

def begun : List CommandState := [.running, .succeeded, .failed, .timedOut, .cancelled]

theorem begun_allowed {s t : CommandState} (hs : s ∈ begun) (ht : t ∈ allowedTransitions s) : t ∈ begun := by
  revert ht
  simp only [begun, List.mem_cons, List.not_mem_nil, or_false] at hs
  rcases hs with rfl | rfl | rfl | rfl | rfl <;> cases t <;> simp [allowedTransitions, begun]

theorem Faithful.stays {h : List CommandStateEvent} {s : CommandState} {S : List CommandState} (hf : Faithful h s)
    (hS : ∀ p ∈ S, ∀ t ∈ allowedTransitions p, t ∈ S) {e : CommandStateEvent} (he : e ∈ h)
    (hn : e.newState ∈ S) : s ∈ S := by
  obtain ⟨l, r, rfl⟩ := List.append_of_mem he
  -- from the event on, each one leaves the command in the set
  have hall : ∀ (r : List CommandStateEvent) (e : CommandStateEvent), e.newState ∈ S →
      (e :: r).IsChain (fun e e' => e'.previousState = some e.newState) →
      (∀ x ∈ r, ∀ p, x.previousState = some p → p ≠ x.newState → x.newState ∈ allowedTransitions p) →
      ∀ x ∈ (e :: r).getLast?, x.newState ∈ S := by
    intro r
    induction r with
    | nil =>
      intro e hn _ _ x hx
      cases hx
      exact hn
    | cons e' r ih =>
      intro e hn hc ha x hx
      obtain ⟨hp, hc'⟩ := List.isChain_cons_cons.mp hc
      refine ih e' ?_ hc' (fun y hy => ha y (List.mem_cons_of_mem _ hy)) x (by simpa using hx)
      by_cases hne : e.newState = e'.newState
      · exact hne ▸ hn
      · exact hS _ hn _ (ha e' (List.mem_cons_self ..) _ hp hne)
  obtain ⟨x, hx, hs⟩ := Option.map_eq_some_iff.mp hf.last
  rw [List.getLast?_append_of_ne_nil _ (by simp)] at hx
  rw [← hs]
  refine hall r e hn (List.isChain_append.mp hf.linked).2.1 (fun y hy => ?_) x hx
  exact hf.allowed y (by simp [hy])

section
variable {P : Params} {c c' : Conf} {k : Lifecycle} {p : LifecyclePayload} {id cid : UUID}

/-- The rows of a message that moves its command: the state event has the key of the
message. -/
theorem handleRows_event {d : DB} {u n : Time} (h : handleRows d k p u n ≠ []) : ∃ id c, p.commandId = some id ∧
    d.commands.find id = some c ∧ (d.write (handleRows d k p u n)).events = d.events ++
      [⟨id, some c.state, k.target p, k.source, some (k.metadata p id)⟩] := by
  unfold handleRows at h ⊢
  split at h
  · exact absurd rfl h
  rename_i c hc
  obtain ⟨id, hid, hc⟩ := Option.bind_eq_some_iff.mp hc
  have hcid : c.id = id := by simpa using Table.key_of_find hc
  subst hcid
  split at h
  · rename_i hgo
    refine ⟨_, c, hid, hc, ?_⟩
    rw [if_pos hgo, DB.write_append, ← show (d.write
      (moveRows c (k.target p) k.source (some (k.metadata p c.id)) u n)).events =
      d.events ++ [⟨c.id, some c.state, k.target p, k.source, some (k.metadata p c.id)⟩] from rfl]
    cases k.task p with
    | none => rfl
    | some f => simp only [Option.elim_some, taskRows]; cases d.tasks.find c.id <;> rfl
  · exact absurd rfl h

/-- A message is handled once more: everything that its handler commits is the rows that
it finds to write, or nothing. -/
theorem consume_processed (h : (sys P).Serial Init c) (ho : (sys P).Operation (.consume k cid p) c c') :
    Processed true c.world.sh.db k p c'.world.sh.db :=
  (ho.sequential (Q := fun d d' => Processed true d k p d') (serial_calls h) (.inl ⟨rfl, rfl⟩)
    fun _ => solo_consume fun _ hd => hd).store

def DB.movedBy (d : DB) (k : Lifecycle) (id : UUID) : Prop :=
  ∃ e ∈ d.events, e.commandId = id ∧ (e.eventMetadata.bind Metadata.dedupKey) = some ⟨k, id⟩ ∧
    (k = .progress → e.newState = .running)

theorem serial_runs (h : ReflTransGen (sys P).SerialStep c c') : Runs P c c' := by
  induction h with
  | refl => exact .refl
  | tail _ hs ih => exact ih.tail hs.step

/-- What a message has moved is moved for good. -/
theorem movedBy_runs (h : Reachable P c) (hr : Runs P c c') (hm : c.world.sh.db.movedBy k id) :
    c'.world.sh.db.movedBy k id := by
  obtain ⟨e, he, hrest⟩ := hm
  exact ⟨e, (acts_events (runs_acts h hr)).subset he, hrest⟩

theorem movedBy_of_consume (h : (sys P).Serial Init c) (ho : (sys P).Operation (.consume k cid p) c c')
    (hid : p.commandId = some id) (hne : c'.world.sh.db.history id ≠ c.world.sh.db.history id) :
    c'.world.sh.db.movedBy k id := by
  rcases consume_processed h ho with ⟨-, hd⟩ | ⟨u, n, hd⟩
  · rw [hd] at hne
    exact absurd rfl hne
  by_cases hrows : handleRows c.world.sh.db k p u n = []
  · rw [hd, hrows] at hne
    exact absurd rfl hne
  obtain ⟨id', x, hid', -, hev⟩ := handleRows_event hrows
  rw [hid] at hid'
  cases hid'
  rw [hd]
  refine ⟨_, by rw [hev]; exact List.mem_append_right _ (List.mem_singleton.mpr rfl), rfl, ?_, ?_⟩
  · exact metadata_dedupKey k p id
  · intro hk
    rw [hk]
    rfl

theorem unheeded (h : (sys P).Serial Init c) (hm : c.world.sh.db.movedBy k id)
    (hid : p.commandId = some id) (u n : Time) :
    handleRows c.world.sh.db k p u n = [] := by
  obtain ⟨e, he, heid, hkey, hrun⟩ := hm
  by_contra hne
  obtain ⟨id', x, hid', hx, -⟩ := handleRows_event hne
  rw [hid] at hid'
  cases hid'
  have hxid : x.id = id := by simpa using Table.key_of_find hx
  refine hne ?_
  rw [handleRows_of_find hid hx, if_neg]
  have hheeds : k.heeds c.world.sh.db p x = false := by
    by_cases hk : k = .progress
    · subst hk
      have hst : x.state ∈ begun := by
        refine (history_faithful h hx).stays (fun _ hs _ => begun_allowed hs) (e := e) ?_ ?_
        · exact List.mem_filter.mpr ⟨he, by simpa using heid⟩
        · rw [hrun rfl]; decide
      have : x.state ≠ .acknowledged := fun hacc => by rw [hacc] at hst; revert hst; decide
      simpa [Lifecycle.heeds] using this
    · refine heeds_of_duplicate hk fun hnil => ?_
      have : e ∈ c.world.sh.db.handledBefore k x.id :=
        List.mem_filter.mpr ⟨he, by simp [heid, hxid, hkey]⟩
      rw [hnil] at this
      cases this
  simp [hheeds]

/-- **Redelivery.** Once the handler of a message has committed a transition of its
command, handling the message again changes nothing, whatever has happened since. -/
theorem redelivery_harmless {c₁ c₂ c₃ : Conf} (h : (sys P).Serial Init c) (hid : p.commandId = some id)
    (hm : (sys P).Operation (.consume k cid p) c c₁) (hmoved : c₁.world.sh.db.history id ≠ c.world.sh.db.history id)
    (hr : ReflTransGen (sys P).SerialStep c₁ c₂) (hagain : (sys P).Operation (.consume k cid p) c₂ c₃) :
    c₃.world.sh.db = c₂.world.sh.db := by
  have h₁ : (sys P).Serial Init c₁ := h.imp fun c₀ h₀ => ⟨h₀.1, h₀.2.trans hm.serially⟩
  have h₂ : (sys P).Serial Init c₂ := h₁.imp fun c₀ h₀ => ⟨h₀.1, h₀.2.trans hr⟩
  have hmoved₂ := movedBy_runs h₁.reachable (serial_runs hr) (movedBy_of_consume h hm hid hmoved)
  rcases consume_processed h₂ hagain with ⟨-, hd⟩ | ⟨u, n, hd⟩
  · exact hd
  · rw [hd, unheeded h₂ hmoved₂ hid]
    rfl

end

def redelivered (c : Conf) (p : LifecyclePayload) : Bool :=
  (perform (sys demo) (.consume .delivered 10 p) c).any fun c₁ =>
    (c₁.world.sh.db.history 10).length != (c.world.sh.db.history 10).length &&
      (perform (sys demo) (.cancel 10 7) c₁).any fun c₂ =>
        (c₂.world.sh.db.commands.find 10).any (·.state == .cancelled) &&
          (perform (sys demo) (.consume .delivered 10 p) c₂).isSome

def redeliveredNext (c : Conf) : Bool :=
  match (c.world.sh.ext.stream[1]? : Option Msg) with
  | some (.lifecycle .delivered 10 p) => p.commandId == some 10 && redelivered c p
  | _ => false

theorem redelivery_harmless_delivered : ∃ c₂ c₃ cmd p, (sys demo).Serial Init c₂ ∧
    (sys demo).Operation (.consume .delivered 10 p) c₂ c₃ ∧ p.commandId = some 10 ∧
    c₂.world.sh.db.commands.find 10 = some cmd ∧ cmd.state = .cancelled ∧ c₃.world.sh.db = c₂.world.sh.db := by
  obtain ⟨c, hserial, hc⟩ := played_serially (P := demo) (t := publishedRun ++ .other (.listen 0 0) :: steps 2 9)
    (φ := redeliveredNext) demo_initial (by decide +kernel)
  unfold redeliveredNext at hc
  split at hc
  · rename_i p hm
    obtain ⟨hid, hc⟩ := Bool.and_eq_true_iff.mp hc
    obtain ⟨c₁, hc₁, hc⟩ := (Option.any_eq_true _ _).mp hc
    obtain ⟨hlen, hc⟩ := Bool.and_eq_true_iff.mp hc
    obtain ⟨c₂, hc₂, hc⟩ := (Option.any_eq_true _ _).mp hc
    obtain ⟨hst, hc⟩ := Bool.and_eq_true_iff.mp hc
    obtain ⟨cmd, hcmd, hst⟩ := (Option.any_eq_true _ _).mp hst
    obtain ⟨c₃, hc₃⟩ := Option.isSome_iff_exists.mp hc
    have hm₁ : .lifecycle .delivered 10 p ∈ c.world.sh.ext.stream := List.mem_of_getElem? hm
    have ho₁ := (perform_operation hm₁ hc₁).1
    have ho₂ := (perform_operation trivial hc₂).1
    -- the message stays on the stream
    have hsteps := ho₁.serially.trans ho₂.serially
    have hm₂ := (runs_later hserial.reachable (serial_runs hsteps)).stream _ hm₁
    have ho₃ := (perform_operation hm₂ hc₃).1
    have hserial₂ : (sys demo).Serial Init c₂ := hserial.imp fun c₀ h₀ => ⟨h₀.1, h₀.2.trans hsteps⟩
    have hid : p.commandId = some 10 := by simpa using hid
    refine ⟨c₂, c₃, cmd, p, hserial₂, ho₃, hid, hcmd, by simpa using hst, ?_⟩
    refine redelivery_harmless hserial hid ho₁ (fun he => ?_) ho₂.serially ho₃
    rw [he] at hlen
    simp at hlen
  · cases hc

end Veyaan
