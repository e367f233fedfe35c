import Veyaan.Decisions
import Veyaan.Listings
import Veyaan.Schedule
import Veyaan.Transitions

/-!
# The state events of a command, as they are read back

`get_state_events` orders the events of a command by `created_at`, which is the time at
which their transaction began. The first two events of every command are written by one
transaction, so they tie, and may be answered in either order.
-/

namespace Veyaan

open Sys

/-! ## `created_at` -/

/-- The rows of `command_state_events` in a run: the events that one transaction adds
have the time at which it began. -/
inductive Stamped (P : Params) : Conf → List (Dated CommandStateEvent) → Prop
  | init {c} : Initial Init c → Stamped P c []
  | step {c c' rows new t} : Stamped P c rows → (sys P).Step c c' →
      c'.world.sh.db.events = c.world.sh.db.events ++ new → t ≤ c.world.sh.ext.clock →
      Stamped P c' (rows ++ new.map (⟨·, t⟩))

/-- The answers that `get_state_events` may give. -/
def GetStateEvents (rows : List (Dated CommandStateEvent)) (commandId : UUID)
    (answer : List CommandStateEvent) : Prop :=
  ∃ a, Pages.Answers Dated.createdAt (rows.filter (·.row.commandId == commandId)) a ∧ a.map Dated.row = answer

structure Chronological (d : DB) (c : Command) (answer : List CommandStateEvent) : Prop where
  occurred : answer = d.history c.id
  linked : answer.IsChain fun e e' => e'.previousState = some e.newState
  last : answer.getLast?.map CommandStateEvent.newState = some c.state

section
variable {P : Params} {c c' : Conf} {rows : List (Dated CommandStateEvent)} {id : UUID}

theorem Stamped.reachable (h : Stamped P c rows) : Reachable P c := by
  induction h with
  | init h => exact .init h
  | step _ hs _ _ ih => exact .step ih hs

theorem Stamped.events (h : Stamped P c rows) : rows.map Dated.row = c.world.sh.db.events := by
  induction h with
  | init h => exact h.init.events.symm
  | @step c c' rows new t _ _ hnew _ ih => simp [ih, hnew, Function.comp_def]

theorem exists_stamped (h : Reachable P c) : ∃ rows, Stamped P c rows := by
  induction h with
  | init h => exact ⟨[], .init h⟩
  | @step c c' h hs ih =>
    obtain ⟨rows, ih⟩ := ih
    obtain ⟨new, hnew⟩ : c.world.sh.db.events <+: c'.world.sh.db.events := by
      rcases step_tx h hs with hd | ⟨_, _, s₁, _, hdb, _, htx⟩
      · exact hd ▸ List.prefix_rfl
      · rw [← hdb]
        exact htx.events_grow
    exact ⟨_, .step ih hs hnew.symm (Nat.le_refl _)⟩

theorem Tx.found {s : St} {i : Nat} {t : Tag} {d : DB} {x : Command} (h : Tx P s i t d)
    (hc : d.commands.find id = some x) :
    (∃ x, s.db.commands.find id = some x) ∨ ∃ q y r o, Created s i d q y r o ∧ y.id = id := by
  cases h with
  | @create _ q y r o h =>
    rw [h.commands, Table.find_put] at hc
    split at hc
    · exact .inr ⟨q, y, r, o, h, ‹_›⟩
    · exact .inl ⟨x, hc⟩
  | @approve z _ y y' e a a' _ h =>
    rw [h.commands, Table.find_put] at hc
    split at hc
    · rename_i hid
      have hy : y.id = z.read.commandId := by simpa using Table.key_of_find h.find
      rw [key_command, h.same.id, hy] at hid
      exact .inl ⟨y, hid ▸ h.find⟩
    · exact .inl ⟨x, hc⟩
  | chain h =>
    exact .inl (h.keeps (I := fun d => ∀ x, d.commands.find id = some x → ∃ x, s.db.commands.find id = some x)
      (fun d w hw hd x hx => by
        obtain ⟨x₁, hx₁, -⟩ := hw.command_find hx
        exact hd x₁ hx₁) (fun x hx => ⟨x, hx⟩) x hc)

def firstEvent (id : UUID) : CommandStateEvent := ⟨id, none, .received, .api, none⟩

def secondEvent (id : UUID) : CommandStateEvent := ⟨id, some .received, .validated, .api, none⟩

theorem Stamped.tie (h : Stamped P c rows) {x : Command} (hc : c.world.sh.db.commands.find id = some x) :
    ∃ t, ⟨firstEvent id, t⟩ ∈ rows ∧ ⟨secondEvent id, t⟩ ∈ rows := by
  induction h generalizing x with
  | init h =>
    rw [h.init.commands] at hc
    cases hc
  | @step c c' rows new t h hs hnew _ ih =>
    have hold : (∃ x, c.world.sh.db.commands.find id = some x) →
        ∃ t', ⟨firstEvent id, t'⟩ ∈ rows ++ new.map (⟨·, t⟩) ∧ ⟨secondEvent id, t'⟩ ∈ rows ++ new.map (⟨·, t⟩) := by
      rintro ⟨x, hx⟩
      obtain ⟨t', hfirst, hsecond⟩ := ih hx
      exact ⟨t', List.mem_append_left _ hfirst, List.mem_append_left _ hsecond⟩
    rcases step_tx h.reachable hs with hd | ⟨_, _, s₁, _, hdb, _, htx⟩
    · exact hold ⟨x, hd ▸ hc⟩
    · rcases htx.found hc with hx | ⟨q, y, r, o, hcreated, rfl⟩
      · exact hold (hdb ▸ hx)
      · have hevents := hcreated.events
        rw [hdb, hnew] at hevents
        have hnew : new = createdEvents y := List.append_cancel_left hevents
        refine ⟨t, List.mem_append_right _ ?_, List.mem_append_right _ ?_⟩
        · exact List.mem_map.mpr ⟨firstEvent y.id, by simp [hnew, createdEvents, firstEvent], rfl⟩
        · exact List.mem_map.mpr ⟨secondEvent y.id, by simp [hnew, createdEvents, secondEvent], rfl⟩

/-- Rows that tie may be answered with the first event behind another one. -/
theorem exists_unlinked {t : Time} (hfirst : ⟨firstEvent id, t⟩ ∈ rows) (hsecond : ⟨secondEvent id, t⟩ ∈ rows) :
    ∃ answer, GetStateEvents rows id answer ∧ ¬ answer.IsChain fun e e' => e'.previousState = some e.newState := by
  have hx : (⟨firstEvent id, t⟩ : Dated CommandStateEvent) ∈ rows.filter (·.row.commandId == id) :=
    List.mem_filter.mpr ⟨hfirst, by simp [firstEvent]⟩
  have hy : (⟨secondEvent id, t⟩ : Dated CommandStateEvent) ∈ rows.filter (·.row.commandId == id) :=
    List.mem_filter.mpr ⟨hsecond, by simp [secondEvent]⟩
  have hplaces :=
    Pages.before_lt_of_tie hx hy (by simp [firstEvent, secondEvent])
    (show Dated.createdAt _ = Dated.createdAt _ from rfl)
  obtain ⟨k, hk⟩ : ∃ k, k = Pages.before Dated.createdAt (rows.filter (·.row.commandId == id))
    ⟨firstEvent id, t⟩ := ⟨_, rfl⟩
  rw [← hk] at hplaces
  obtain ⟨a, ha, hat⟩ := Pages.exists_answer_at hx (hk ▸ Nat.le_succ k) hplaces
  refine ⟨a.map Dated.row, ⟨a, ha, rfl⟩, fun hchain => ?_⟩
  obtain ⟨hlt, hget⟩ := List.getElem?_eq_some_iff.mp hat
  have hlink := List.isChain_iff_getElem.mp hchain k (by simpa using hlt)
  simp only [List.getElem_map, hget, firstEvent] at hlink
  cases hlink

/-- **State events.** In every run, each command has an answer of `get_state_events` that
is not in order. -/
theorem state_events_unordered (h : Stamped P c rows) {cmd : Command}
    (hc : c.world.sh.db.commands.find id = some cmd) :
    ¬ ∀ answer, GetStateEvents rows id answer → Chronological c.world.sh.db cmd answer := by
  obtain ⟨t, hfirst, hsecond⟩ := h.tie hc
  obtain ⟨answer, ha, hno⟩ := exists_unlinked hfirst hsecond
  exact fun hall => hno (hall answer ha).linked

end

/-- The events of a queued ping, read back in another order. -/
theorem state_events_swapped :
    ¬ ∀ (c : Conf) (rows : List (Dated CommandStateEvent)) (id : UUID) (cmd : Command) answer,
    Stamped demo c rows → c.world.sh.db.commands.find id = some cmd → GetStateEvents rows id answer →
      Chronological c.world.sh.db cmd answer := by
  intro hall
  obtain ⟨c, cmd, hr, hcmd, -⟩ := queued_reachable
  obtain ⟨rows, hrows⟩ := exists_stamped hr
  obtain ⟨t, hfirst, hsecond⟩ := hrows.tie hcmd
  obtain ⟨answer, ha, hno⟩ := exists_unlinked hfirst hsecond
  exact hno (hall c rows 10 cmd answer hrows hcmd ha).linked

theorem state_events_unordered_ping : ∃ c rows cmd, Stamped demo c rows ∧
    c.world.sh.db.commands.find 10 = some cmd ∧
    ¬ ∀ answer, GetStateEvents rows 10 answer → Chronological c.world.sh.db cmd answer := by
  obtain ⟨c, cmd, hr, hcmd, -⟩ := queued_reachable
  obtain ⟨rows, hrows⟩ := exists_stamped hr
  exact ⟨c, rows, cmd, hrows, hcmd, state_events_unordered hrows hcmd⟩

end Veyaan
