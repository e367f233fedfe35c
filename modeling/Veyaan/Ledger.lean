import Veyaan.Pairing

/-!
# What no run takes back

Along a run, whatever the interleaving, the audit trail and the state events
only get longer, no row disappears from a table, and what a row was inserted
with stays as it was. An outbox event and a pairing request that are no longer
pending never change again.
-/

open Relation (ReflTransGen)

namespace Veyaan

open Sys

structure DB.Kept (d d' : DB) : Prop where
  users : d.users <+: d'.users
  audits : d.audits <+: d'.audits
  events : d.events <+: d'.events
  device : ∀ id r, d.devices.find id = some r → ∃ r', d'.devices.find id = some r' ∧ r.Same r'
  command : ∀ id c, d.commands.find id = some c → ∃ c', d'.commands.find id = some c' ∧ c.Same c'
  approval : ∀ id a, d.approvals.find id = some a → ∃ a', d'.approvals.find id = some a' ∧ a.Same a'
  outbox : ∀ id e, d.outbox.find id = some e → ∃ e', d'.outbox.find id = some e' ∧ e.Same e' ∧
    (e.status ≠ .pending → e' = e)
  pairing : ∀ id p, d.pairings.find id = some p → ∃ p', d'.pairings.find id = some p' ∧ p.Same p' ∧
    (p.status ≠ .pending → p' = p)
  credential : ∀ id, (d.credentials.find id).isSome → (d'.credentials.find id).isSome
  task : ∀ id, (d.tasks.find id).isSome → (d'.tasks.find id).isSome
  stop : ∀ o, (d.stops.find o).isSome → (d'.stops.find o).isSome

theorem DB.Kept.refl (d : DB) : d.Kept d where
  users := List.prefix_rfl
  audits := List.prefix_rfl
  events := List.prefix_rfl
  device _ r h := ⟨r, h, .refl r⟩
  command _ c h := ⟨c, h, .refl c⟩
  approval _ a h := ⟨a, h, .refl a⟩
  outbox _ e h := ⟨e, h, .refl e, fun _ => rfl⟩
  pairing _ p h := ⟨p, h, .refl p, fun _ => rfl⟩
  credential _ h := h
  task _ h := h
  stop _ h := h

theorem DB.Kept.trans {a b c : DB} (h : a.Kept b) (h' : b.Kept c) : a.Kept c where
  users := h.users.trans h'.users
  audits := h.audits.trans h'.audits
  events := h.events.trans h'.events
  device := Table.find_trans .trans h.device h'.device
  command := Table.find_trans .trans h.command h'.command
  approval := Table.find_trans .trans h.approval h'.approval
  outbox := by
    refine Table.find_trans (fun {x y z} hxy hyz => ⟨hxy.1.trans hyz.1, fun hne => ?_⟩) h.outbox h'.outbox
    have := hxy.2 hne
    subst this
    exact hyz.2 hne
  pairing := by
    refine Table.find_trans (fun {x y z} hxy hyz => ⟨hxy.1.trans hyz.1, fun hne => ?_⟩) h.pairing h'.pairing
    have := hxy.2 hne
    subst this
    exact hyz.2 hne
  credential id hx := h'.credential id (h.credential id hx)
  task id hx := h'.task id (h.task id hx)
  stop o hx := h'.stop o (h.stop o hx)

/-! ## One transaction -/

/-- What any write leaves, allowed or not: logs that are at least as long, and tables
without fewer rows. -/
structure DB.Within (d d' : DB) : Prop where
  users : d.users <+: d'.users
  audits : d.audits <+: d'.audits
  events : d.events <+: d'.events
  credential : ∀ id, (d.credentials.find id).isSome → (d'.credentials.find id).isSome
  task : ∀ id, (d.tasks.find id).isSome → (d'.tasks.find id).isSome
  stop : ∀ o, (d.stops.find o).isSome → (d'.stops.find o).isSome

theorem find_put_isSome {ρ κ : Type} [Keyed ρ κ] [DecidableEq κ] {t : Table ρ} {r : ρ} {k : κ}
    (h : (t.find k).isSome) : ((t.put r).find k).isSome := by
  rw [Table.find_put]
  by_cases hk : key r = k
  · rw [if_pos hk]
    rfl
  · rw [if_neg hk]
    exact h

theorem DB.Within.refl (d : DB) : d.Within d :=
  ⟨List.prefix_rfl, List.prefix_rfl, List.prefix_rfl, fun _ h => h, fun _ h => h, fun _ h => h⟩

theorem Write.within (w : Write) (d : DB) : d.Within (w.apply d) := by
  have hd : d.Within d := .refl d
  cases w with
  | audit a => exact { hd with audits := List.prefix_append .. }
  | event e => exact { hd with events := List.prefix_append .. }
  | credential r => exact { hd with credential := fun _ h => find_put_isSome h }
  | task r => exact { hd with task := fun _ h => find_put_isSome h }
  | stop r => exact { hd with stop := fun _ h => find_put_isSome h }
  | _ => exact { hd with }

theorem within_applyAll {P : Params} (ws : List Write) : ∀ d : DB, d.Within ((sys P).applyAll ws d) := by
  induction ws with
  | nil => exact .refl
  | cons w ws ih =>
    intro d
    have h := w.within d
    have h' := ih (w.apply d)
    exact ⟨h.users.trans h'.users, h.audits.trans h'.audits, h.events.trans h'.events,
      fun id hx => h'.credential id (h.credential id hx),
      fun id hx => h'.task id (h.task id hx), fun o hx => h'.stop o (h.stop o hx)⟩

section
variable {P : Params} {s : St} {i : Nat} {t : Tag} {d : DB}

theorem Tx.within (h : Tx P s i t d) : s.db.Within d := by
  cases h with
  | create h =>
    refine ⟨h.users ▸ List.prefix_rfl, h.audits ▸ List.prefix_rfl, by rw [h.events]; exact List.prefix_append ..,
      fun id hx => by rw [h.credentials]; exact hx, fun id hx => ?_, fun o hx => by rw [h.stops]; exact hx⟩
    rw [h.tasks]
    exact find_put_isSome hx
  | approve _ h =>
    obtain ⟨r, hr, -⟩ := h.audits
    obtain ⟨es, hes, -⟩ := h.events
    exact ⟨h.users ▸ List.prefix_rfl, by rw [hr]; exact List.prefix_append ..,
      by rw [hes]; exact List.prefix_append ..,
      fun id hx => by rw [h.credentials]; exact hx, fun id hx => by rw [h.tasks]; exact hx,
      fun o hx => by rw [h.stops]; exact hx⟩
  | chain h => exact within_applyAll _ _

theorem Tx.keeps_ledger (h : Tx P s i t d) : s.db.Kept d where
  users := h.within.users
  audits := h.within.audits
  events := h.within.events
  device := h.later.device
  command := h.later.command
  approval := h.later.approval
  outbox id e he := by
    obtain ⟨e', he', hs⟩ := h.later.outbox id e he
    refine ⟨e', he', hs, fun hne => ?_⟩
    have := h.keeps_marked he hne
    rw [he'] at this
    exact Option.some.inj this
  pairing id p hp := h.pairing_find hp
  credential := h.within.credential
  task := h.within.task
  stop := h.within.stop

end

/-! ## Runs -/

theorem acts_kept {P : Params} {s s' : St} (h : ReflTransGen (Act P) s s') : s.db.Kept s'.db := by
  induction h with
  | refl => exact .refl _
  | tail _ hs ih =>
    rcases hs.store with hd | ⟨i, t, htx, -⟩
    · rw [hd]
      exact ih
    · exact ih.trans htx.keeps_ledger

/-- **No run takes back** what a transaction has committed. -/
theorem history_kept {P : Params} {c c' : Conf} (h : Reachable P c) (hr : Runs P c c') :
    c.world.sh.db.Kept c'.world.sh.db := acts_kept (runs_acts h hr)

/-- A ping is rejected; a later run of the scheduler leaves the audit row. -/
theorem history_kept_rejected : ∃ c c', Reachable demo c ∧ Runs demo c c' ∧ c.world.sh.db.audited 12 = 1 ∧
    c.world.sh.db.Kept c'.world.sh.db := by
  obtain ⟨c, hr, hc⟩ := played (P := demo) (c := demoStart) (t := rejectedRun)
    (φ := fun c => c.world.sh.db.audited 12 == 1 &&
      (play (moves demo) (.other (.call .tasks) :: steps 2 4) c).isSome)
    (by decide +kernel)
  simp only [Bool.and_eq_true, beq_iff_eq, Option.isSome_iff_exists] at hc
  obtain ⟨hone, c', hplay⟩ := hc
  have h : Reachable demo c := Reachable.runs demo_reachable hr
  exact ⟨c, c', h, play_runs _ hplay, hone, history_kept h (play_runs _ hplay)⟩

end Veyaan
