import Mathlib.Data.List.Chain
import Veyaan.Schedule
import Veyaan.Serial.Steps

/-!
# The history of a command

In a serial run the state events of a command, in the order in which they were
inserted, lead from nothing to `RECEIVED` and from there, step by step, to the
state of the row. A terminal state is only repeated.
-/

namespace Veyaan

open Sys

structure Faithful (h : List CommandStateEvent) (s : CommandState) : Prop where
  first : h.head?.map (fun e => (e.previousState, e.newState)) = some (none, .received)
  linked : h.IsChain fun e e' => e'.previousState = some e.newState
  last : h.getLast?.map CommandStateEvent.newState = some s
  allowed : ∀ e ∈ h, ∀ p, e.previousState = some p → p ≠ e.newState → e.newState ∈ allowedTransitions p
  ended : h.Pairwise fun e e' => e.newState ∈ terminalStates → e'.newState = e.newState

section
variable {h : List CommandStateEvent} {s : CommandState} {e : CommandStateEvent}

theorem Faithful.snoc_form (hf : Faithful h s) : ∃ es x, h = es ++ [x] ∧ x.newState = s := by
  obtain ⟨x, hx, hs⟩ := Option.map_eq_some_iff.mp hf.last
  obtain ⟨es, rfl⟩ := List.getLast?_eq_some_iff.mp hx
  exact ⟨es, x, rfl, hs⟩

/-- A terminal state that the command has been in is the one it is in. -/
theorem Faithful.terminal (hf : Faithful h s) (he : e ∈ h) (ht : e.newState ∈ terminalStates) : s = e.newState := by
  obtain ⟨es, x, rfl, rfl⟩ := hf.snoc_form
  rcases List.mem_append.mp he with he | he
  · exact (List.pairwise_append.mp hf.ended).2.2 e he x (List.mem_singleton.mpr rfl) ht
  · rw [List.mem_singleton.mp he]

theorem Faithful.snoc (hf : Faithful h s) (hp : e.previousState = some s) (ha : accepts s e.newState = true) :
    Faithful (h ++ [e]) e.newState := by
  obtain ⟨es, x, hes, hx⟩ := hf.snoc_form
  refine ⟨?_, ?_, by simp, fun e' he' p hp' hne => ?_, ?_⟩
  · rw [List.head?_append_of_ne_nil _ (by simp [hes])]
    exact hf.first
  · refine List.isChain_append.mpr ⟨hf.linked, List.isChain_singleton _, fun a ha b hb => ?_⟩
    simp only [hes, List.getLast?_append, List.getLast?_singleton, Option.some_or,
      Option.mem_def, Option.some.injEq, List.head?_cons] at ha hb
    rw [← hb, ← ha, hp, hx]
  · rcases List.mem_append.mp he' with he' | he'
    · exact hf.allowed e' he' p hp' hne
    · rw [List.mem_singleton.mp he'] at hp' hne ⊢
      rw [hp] at hp'
      cases hp'
      exact (accepts_iff hne).mp ha
  · refine List.pairwise_append.mpr ⟨hf.ended, List.pairwise_singleton .., fun a hm b hb ht => ?_⟩
    rw [List.mem_singleton.mp hb]
    have hs := hf.terminal hm ht
    exact (accepts_terminal (hs ▸ ht) ha).trans hs

end

def Recorded (d : DB) : Prop :=
  (∀ id c, d.commands.find id = some c → Faithful (d.history id) c.state) ∧
    ∀ id, d.commands.find id = none → d.history id = []

section
variable {v : DB}

theorem recorded_insert {c : Command} {taskId : UUID} (h : Recorded v) (hn : v.commands.find c.id = none)
    (hs : c.state = .received) : Recorded (v.write (insertRows c taskId)) := by
  have hfind : ∀ id, (v.write (insertRows c taskId)).commands.find id =
      if c.id = id then some c else v.commands.find id :=
    fun id => Table.find_put ..
  have hhist : ∀ id, (v.write (insertRows c taskId)).history id = v.history id ++
      if c.id = id then [⟨c.id, none, .received, .api, none⟩] else [] := fun id => by
    show List.filter _ (v.events ++ _) = _
    rw [List.filter_append]
    by_cases hid : c.id = id <;> simp [DB.history, hid]
  constructor
  · intro id x hx
    rw [hfind] at hx
    rw [hhist]
    split at hx
    · rename_i hid
      cases hx
      rw [if_pos hid, ← hid, h.2 _ hn, hs]
      exact ⟨rfl, by simp, rfl, by simp, by simp⟩
    · rename_i hid
      rw [if_neg hid, List.append_nil]
      exact h.1 id x hx
  · intro id hx
    rw [hfind] at hx
    split at hx
    · cases hx
    · rename_i hid
      rw [hhist, if_neg hid, List.append_nil]
      exact h.2 id hx

theorem recorded_move {id : UUID} {c : Command} {new : CommandState} {source : Source}
    {m : Option Metadata} {u n : Time}
    (h : Recorded v) (hc : v.commands.find id = some c) (ha : accepts c.state new = true) :
    Recorded (v.write (moveRows c new source m u n)) := by
  have hid : c.id = id := by simpa using Table.key_of_find hc
  subst hid
  have hfind : ∀ id, (v.write (moveRows c new source m u n)).commands.find id =
      if c.id = id then some (c.transition new u n m) else v.commands.find id := fun id => by
    have := (c.transition_same new u n m).id
    rw [← this]
    exact Table.find_put ..
  have hhist : ∀ id, (v.write (moveRows c new source m u n)).history id = v.history id ++
      if c.id = id then [⟨c.id, some c.state, new, source, m⟩] else [] := fun id => by
    show List.filter _ (v.events ++ _) = _
    rw [List.filter_append]
    by_cases hid : c.id = id <;> simp [DB.history, hid]
  constructor
  · intro id x hx
    rw [hfind] at hx
    rw [hhist]
    split at hx
    · rename_i hid
      cases hx
      rw [if_pos hid, ← hid, Command.transition_state]
      exact (h.1 _ c hc).snoc rfl ha
    · rename_i hid
      rw [if_neg hid, List.append_nil]
      exact h.1 id x hx
  · intro id hx
    rw [hfind] at hx
    split at hx
    · cases hx
    · rename_i hid
      rw [hhist, if_neg hid, List.append_nil]
      exact h.2 id hx

theorem recorded_tasks {ts : List Write} (h : Recorded v) (ht : ∀ w ∈ ts, ∃ t, w = .task t) :
    Recorded (v.write ts) := by
  induction ts generalizing v with
  | nil => exact h
  | cons w ts ih =>
    obtain ⟨t, rfl⟩ := ht w (List.mem_cons_self ..)
    exact ih (v := (Write.task t).apply v) h fun x hx => ht x (List.mem_cons_of_mem _ hx)

end

variable {P : Params} {c : Conf}

theorem history_faithful (h : (sys P).Serial Init c) {id : UUID} {cmd : Command}
    (hc : c.world.sh.db.commands.find id = some cmd) : Faithful (c.world.sh.db.history id) cmd.state := by
  have hrec : Recorded c.world.sh.db := by
    refine serial_steps (J := Recorded) (fun d x hi => ⟨?_, ?_⟩) (fun v c t hJ hn hs _ => recorded_insert hJ hn hs)
      (fun v id c new source m u n ts hJ hc ha ht => ?_) (fun v w hJ hw => ?_) h
    · rw [hi.commands]; simp
    · intro id _; simp [DB.history, hi.events]
    · rw [DB.write_append]
      exact recorded_tasks (recorded_move hJ hc ha) fun w hw => ⟨_, (ht.tasks w hw).choose_spec.1⟩
    · cases w <;> first | exact hJ | cases hw
  exact hrec.1 id cmd hc

theorem history_faithful_cancelled : ∃ c cmd, (sys demo).Serial Init c ∧ c.world.sh.db.commands.find 10 = some cmd ∧
    cmd.state = .cancelled ∧ (c.world.sh.db.history 10).length = 5 ∧
    Faithful (c.world.sh.db.history 10) .cancelled := by
  obtain ⟨c, hr, hc⟩ := played_serially (P := demo) (t := cancelledRun ++ recancelRun) (φ := fun c =>
    (c.world.sh.db.commands.find 10).any (·.state == .cancelled) &&
      (c.world.sh.db.history 10).length == 5) demo_initial
    (by decide +kernel)
  simp only [Bool.and_eq_true, Option.any_eq_true, beq_iff_eq] at hc
  obtain ⟨⟨cmd, hcmd, hst⟩, hlen⟩ := hc
  have := history_faithful hr hcmd
  rw [hst] at this
  exact ⟨c, cmd, hr, hcmd, hst, hlen, this⟩

end Veyaan
