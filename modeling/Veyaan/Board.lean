import Veyaan.Lib.Climbs
import Veyaan.Lib.Runs
import Veyaan.Refine.Sound
import Veyaan.Schedule

/-!
# The board of commands

What the whole system is for, seen from outside: a board on which commands are
put up, waiting for an approval or queued, and on which they then go one way.
Every run of the system, whatever the interleaving, is a run of the board, and
on the board a command goes at most five times.
-/

open Relation (ReflTransGen)

namespace Veyaan

open Sys

/-! ## The board -/

inductive Goes : CommandState → CommandState → Prop
  | queue : Goes .awaitingApproval .queued
  | reject : Goes .awaitingApproval .rejected
  | deliver : Goes .queued .delivered
  | block : Goes .queued .blockedByEmergencyStop
  | acknowledge : Goes .delivered .acknowledged
  | start : Goes .acknowledged .running
  | succeed : Goes .running .succeeded
  | fail : Goes .running .failed
  | expire {s} : s ∈ [.awaitingApproval, .queued, .delivered, .acknowledged] → Goes s .expired
  | cancel {s} : s ∈ [.awaitingApproval, .queued, .delivered, .acknowledged, .running, .blockedByEmergencyStop] →
      Goes s .cancelled

abbrev Board := UUID → Option CommandState

inductive Board.Step (b : Board) : Board → Prop
  | enter {id s} : b id = none → s ∈ [.awaitingApproval, .queued] → Step b (Function.update b id (some s))
  | go {id s t} : b id = some s → Goes s t → Step b (Function.update b id (some t))

def CommandState.rank : CommandState → Nat
  | .queued => 1
  | .delivered => 2
  | .acknowledged => 3
  | .running => 4
  | .blockedByEmergencyStop => 4
  | .rejected => 5
  | .succeeded => 5
  | .failed => 5
  | .timedOut => 5
  | .cancelled => 5
  | .expired => 5
  | _ => 0

def height (s : Option CommandState) : Nat := s.elim 0 fun s => s.rank + 1

theorem height_le (s : Option CommandState) : height s ≤ 6 := by
  cases s with
  | none => exact Nat.zero_le _
  | some s => cases s <;> decide

theorem Goes.rank {s t : CommandState} (h : Goes s t) : s.rank < t.rank := by
  cases h with
  | expire h => revert h; cases s <;> decide
  | cancel h => revert h; cases s <;> decide
  | _ => decide

theorem Board.Step.climbs {b b' : Board} (h : b.Step b') (id : UUID) : Climbs height (b id) (b' id) := by
  cases h with
  | @enter id' s hn _ =>
    by_cases hid : id = id'
    · subst hid
      rw [Function.update_self, hn]
      exact .inr (Nat.succ_pos _)
    · rw [Function.update_of_ne hid]
      exact .refl _
  | @go id' s t hs hg =>
    by_cases hid : id = id'
    · subst hid
      rw [Function.update_self, hs]
      exact .inr (Nat.succ_lt_succ hg.rank)
    · rw [Function.update_of_ne hid]
      exact .refl _

/-! ## The store as a board -/

def DB.board (d : DB) : Board := fun id => (d.commands.find id).map Command.state

/-- Where the trigger lets a transaction move a command, from the states that commands
are in between transactions. -/
theorem Tag.Moves.goes {t : Tag} {id : UUID} {s new : CommandState} (h : t.Moves id new)
    (hs : s ≠ .received ∧ s ≠ .validated ∧ s ≠ .approved) (hv : validateCommandStateTransition s new = true)
    (hne : s ≠ new) : Goes s new := by
  have hfrom : ∀ l : List CommandState, (∀ s, s ≠ .received ∧ s ≠ .validated ∧ s ≠ .approved →
      validateCommandStateTransition s new = true → s ≠ new → s ∈ l) → s ∈ l := fun l hl => hl s hs hv hne
  cases new with
  | cancelled => exact .cancel (hfrom _ (by intro s; cases s <;> decide))
  | expired => exact .expire (hfrom _ (by intro s; cases s <;> decide))
  | rejected =>
    cases List.mem_singleton.mp (hfrom [.awaitingApproval] (by intro s; cases s <;> decide)); exact .reject
  | delivered => cases List.mem_singleton.mp (hfrom [.queued] (by intro s; cases s <;> decide)); exact .deliver
  | blockedByEmergencyStop =>
    cases List.mem_singleton.mp (hfrom [.queued] (by intro s; cases s <;> decide)); exact .block
  | acknowledged =>
    cases List.mem_singleton.mp (hfrom [.delivered] (by intro s; cases s <;> decide)); exact .acknowledge
  | running => cases List.mem_singleton.mp (hfrom [.acknowledged] (by intro s; cases s <;> decide)); exact .start
  | succeeded => cases List.mem_singleton.mp (hfrom [.running] (by intro s; cases s <;> decide)); exact .succeed
  | failed => cases List.mem_singleton.mp (hfrom [.running] (by intro s; cases s <;> decide)); exact .fail
  | _ => exact absurd h.mem (by decide)

theorem board_put {d : DB} {c : Command} :
    ({ d with commands := d.commands.put c } : DB).board = Function.update d.board c.id (some c.state) := by
  funext id
  by_cases hid : id = c.id
  · subst hid
    simp [DB.board, Table.find_put]
  · simp [DB.board, Table.find_put, Function.update_of_ne hid, Ne.symm hid]

theorem DB.board_congr {d d' : DB} (h : d'.commands = d.commands) : d'.board = d.board := by
  unfold DB.board
  rw [h]

/-- A command that is overwritten goes, or stays where it is. -/
theorem board_overwrite {d : DB} {t : Tag} {id : UUID} {c c' : Command} {n : UUID → Nat} (hi : DBInv d n)
    (hc : d.commands.find c'.id = some c)
    (hm : c'.state = c.state ∨ t.Moves id c'.state ∧ validateCommandStateTransition c.state c'.state = true) :
    ReflTransGen Board.Step d.board ({ d with commands := d.commands.put c' } : DB).board := by
  have hb : d.board c'.id = some c.state := by simp [DB.board, hc]
  rw [board_put]
  by_cases he : c.state = c'.state
  · rw [← he, ← hb, Function.update_eq_self]
  · obtain ⟨hmv, hv⟩ := hm.resolve_left (Ne.symm he)
    exact .single (.go hb (hmv.goes (hi.live _ _ hc) hv he))

theorem Write.Allowed.board {i : Nat} {t : Tag} {s : St} {d : DB} {w : Write} {n : UUID → Nat}
    (h : w.Allowed i t s d) (hi : DBInv d n) : ReflTransGen Board.Step d.board (w.apply d).board := by
  cases h with
  | @command l c new u m _ _ hf _ _ hm =>
    obtain ⟨hid, hm⟩ := Tag.Moves.flushed hf hm
    exact board_overwrite hi (hid ▸ hf) hm
  | _ => exact .refl

theorem Tx.board {P : Params} {s : St} {i : Nat} {t : Tag} {d : DB} (h : Tx P s i t d) (hi : Inv P s) :
    ReflTransGen Board.Step s.db.board d.board := by
  cases h with
  | @create _ q c _ _ h =>
    have hb : d.board = Function.update s.db.board c.id (some c.state) := by
      rw [← board_put]
      exact DB.board_congr h.commands
    have hs : c.state ∈ [CommandState.awaitingApproval, .queued] := by
      rcases h.form with ⟨-, hs, -⟩ | ⟨-, hs, -⟩ <;> simp [hs]
    rw [hb]
    exact .single (.enter (by simp [DB.board, h.new]) hs)
  | @approve x _ c c' _ _ _ _ h =>
    have hid : c'.id = x.read.commandId := h.same.id.trans (by simpa using Table.key_of_find h.find)
    have hb : d.board = Function.update s.db.board c'.id (some c'.state) := by
      rw [← board_put]
      exact DB.board_congr h.commands
    have hs : s.db.board c'.id = some .awaitingApproval := by simp [DB.board, hid, h.find, h.awaiting]
    rw [hb, h.queued]
    exact .single (.go hs .queue)
  | @chain _ ws hc _ =>
    -- along the writes of the transaction the tables stay consistent
    have := hc.keeps (I := fun v => (∃ n, DBInv v n) ∧ ReflTransGen Board.Step s.db.board v.board)
      (fun v w hw hv => ?_) ⟨⟨_, hi.db⟩, .refl⟩
    · exact this.2
    · obtain ⟨⟨n, hn⟩, hb⟩ := hv
      exact ⟨⟨n, hw.inv hn⟩, hb.trans (hw.board hn)⟩

theorem Act.board {P : Params} {s s' : St} (h : Act P s s') (hi : Inv P s) :
    ReflTransGen Board.Step s.db.board s'.db.board := by
  rcases h.store with hd | ⟨i, t, htx, -⟩
  · rw [hd]
  · exact htx.board hi

theorem acts_board {P : Params} {s s' : St} (hi : Inv P s) (h : ReflTransGen (Act P) s s') :
    Inv P s' ∧ ReflTransGen Board.Step s.db.board s'.db.board := by
  induction h with
  | refl => exact ⟨hi, .refl⟩
  | tail _ hs ih => exact ⟨hs.inv ih.1, ih.2.trans (hs.board ih.1)⟩

section
variable {P : Params} {c c' : Conf}

/-- **Every run is a run of the board.** -/
theorem refines_board (h : Reachable P c) (hr : Runs P c c') :
    ReflTransGen Board.Step c.world.sh.db.board c'.world.sh.db.board :=
  (acts_board (reachable_inv h) (runs_acts h hr)).2

theorem refines_board_ping : ∃ c, Runs demo demoStart c ∧ c.world.sh.db.board 10 = some .acknowledged ∧
    ReflTransGen Board.Step demoStart.world.sh.db.board c.world.sh.db.board := by
  obtain ⟨c, hr, hc⟩ := played (P := demo) (c := demoStart) (t := acknowledgedRun)
    (φ := fun c => c.world.sh.db.board 10 == some .acknowledged) (by decide +kernel)
  exact ⟨c, hr, beq_iff_eq.mp hc, refines_board demo_reachable hr⟩

/-- **A command goes at most five times** once it is on the board, and it never comes
back to where it once was. -/
theorem changes_bounded {r : Nat → Conf} {n : Nat} (h : (sys P).IsRun Init r n) (id : UUID) :
    changes (fun k => (r k).world.sh.db.board id) n ≤ 6 ∧ ∀ a b m, a ≤ b → b ≤ m → m ≤ n →
      (r a).world.sh.db.board id = (r m).world.sh.db.board id →
      (r b).world.sh.db.board id = (r a).world.sh.db.board id := by
  have hup : ∀ a b, a ≤ b → b ≤ n → Climbs height ((r a).world.sh.db.board id) ((r b).world.sh.db.board id) := by
    intro a b hab hb
    have ha := h.reachable (Nat.le_trans hab hb)
    have hboard := (acts_board (reachable_inv ha) (runs_acts ha (h.runs hab hb))).2
    exact Climbs.of_steps (f := fun b : Board => b id) (fun _ _ hs => hs.climbs id) hboard
  constructor
  · have hle := changes_le (n := n) fun k hk => hup k (k + 1) (Nat.le_succ k) hk
    exact Nat.le_trans (Nat.le_of_add_right_le hle) (height_le _)
  · intro a b m hab hbm hm he
    have hback := hup b m hbm hm
    rw [← he] at hback
    exact ((hup a b hab (Nat.le_trans hbm hm)).squeeze hback).symm

theorem changes_bounded_ping : ∃ r n, (sys demo).IsRun Init r n ∧ (r n).world.sh.db.board 10 = some .acknowledged ∧
    changes (fun k => (r k).world.sh.db.board 10) n ≤ 6 := by
  obtain ⟨c, hr, hc⟩ := played (P := demo) (c := demoStart) (t := acknowledgedRun)
    (φ := fun c => c.world.sh.db.board 10 == some .acknowledged) (by decide +kernel)
  obtain ⟨r, n, hrun, rfl⟩ := Reachable.exists_run (Reachable.runs demo_reachable hr)
  exact ⟨r, n, hrun, beq_iff_eq.mp hc, (changes_bounded hrun 10).1⟩

end

end Veyaan
