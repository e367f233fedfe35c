import Veyaan.Constraints
import Veyaan.Lib.Confined
import Veyaan.Slices

/-!
# Programs that leave an owner alone

A program leaves the rows of an owner alone when it writes none of them, in whatever
states it is answered. Here are the rules for the statements of the programs.
-/

namespace Veyaan

open Sys

abbrev Leaves {α : Type} (o : UUID) (s : Slice) (p : Op α) (Q : α → Prop) : Prop :=
  Confined (Spared o s) (Write.Spares o s) p Q

section
variable {o : UUID} {s : Slice} {α : Type}

/-! ## Statements -/

namespace Spared

variable {d : DB} (h : Spared o s d)
include h

theorem no_approval {id : UUID} (hn : ∀ a, d.approvals.find id = some a → a.ownerId ≠ o) :
    s.approvals.find id = none := by
  rw [← h.shows.approvals, Table.find_only]
  cases ha : d.approvals.find id with
  | none => rfl
  | some a => simp [Option.filter, hn a ha]

theorem approval_owner {id : UUID} {a : Approval} (ha : d.approvals.find id = some a)
    (hs : s.approvals.find id = none) :
    a.ownerId ≠ o := by
  intro ho
  rw [← h.shows.approvals, Table.find_only, ha] at hs
  simp [Option.filter, ho] at hs

theorem foreign_command {id : UUID} {a : Approval} (ha : d.approvals.find id = some a) (ho : a.ownerId ≠ o) :
    s.ownsCommand a.commandId = false := by
  by_cases hc : s.ownsCommand a.commandId = true
  · exact absurd (h.approval id a ha hc) ho
  · simpa using hc

theorem foreign_device {id : UUID} {r : Device} (hr : d.devices.find id = some r)
    (ho : r.ownerId ≠ o) : s.owns id = false := by
  rw [h.shows.owns, DB.ownerOf, hr]
  simpa using ho

theorem no_pairing {id : UUID} (hn : ∀ p, d.pairings.find id = some p → p.pairedBy o = false) :
    s.pairings.find id = none := by
  rw [← h.shows.pairings, Table.find_only]
  cases hp : d.pairings.find id with
  | none => rfl
  | some p => simp [Option.filter, hn p hp]

theorem pairing_foreign {id : UUID} {p : PairingRequest} (hp : d.pairings.find id = some p)
    (hs : s.pairings.find id = none) : p.pairedBy o = false := by
  by_cases ho : p.pairedBy o = true
  · rw [← h.shows.pairings, Table.find_only, hp] at hs
    simp [Option.filter, ho] at hs
  · simpa using ho

theorem no_outbox {id : UUID} (hn : d.outbox.find id = none) : s.outbox.find id = none := by
  rw [← h.shows.outbox, Table.find_only, hn]
  rfl

theorem no_credential {id : UUID} (hn : ∀ r, d.credentials.find id = some r → s.owns r.deviceId = false) :
    s.credentials.find id = none := by
  rw [← h.shows.credentials, Table.find_only]
  cases hr : d.credentials.find id with
  | none => rfl
  | some r => simp [Option.filter, hn r hr]

end Spared

namespace Leaves

variable {Q : α → Prop}

theorem select {q : DB → α} (h : ∀ d, Spared o s d → Q (q d)) : Leaves o s (Veyaan.select q) Q := by
  apply Confined.call
  · trivial
  · rintro b ⟨d, hd, rfl⟩
    exact h d hd

theorem selectForUpdate {ρ : Type} {Q : Option ρ → Prop} {sel : DB → Option ρ} {key : ρ → Key} {l : Option Label}
    (h : ∀ d, Spared o s d → Q (sel d)) : Leaves o s (Veyaan.selectForUpdate sel key l) Q := by
  apply Confined.bind
  apply Confined.call
  · trivial
  · rintro rows ⟨d, hd, rfl⟩
    have hhead : (sel d).toList.head? = sel d := by cases sel d <;> rfl
    show Q ((sel d).toList.head?)
    rw [hhead]
    exact h d hd

theorem effect {e : Eff α} (h : ∀ a, Q a) : Leaves o s (Veyaan.effect e) Q := by
  apply Confined.call
  · trivial
  · intro b _
    exact h b

theorem execute {Q : Nat → Prop} {ks : List Key} {f : DB → Except Err (List Write)}
    (h : ∀ d ws, Spared o s d → f d = .ok ws → (∀ w ∈ ws, w.Spares o s) ∧ ∀ n, Q n) :
    Leaves o s (Veyaan.execute ks f) Q := by
  apply Confined.call
  · intro d ws hd hf
    exact (h d ws hd hf).1
  · rintro n ⟨d, ws, hd, hf⟩
    exact (h d ws hd hf).2 n

theorem commit {Q : Unit → Prop} {t : Tag} (h : Q ()) : Leaves o s (Veyaan.commit t) Q := by
  apply Confined.call
  · trivial
  · intro b _
    exact h

theorem withSession {body : Op α} (h : Leaves o s body Q) : Leaves o s (Veyaan.withSession body) Q := by
  apply Confined.bind
  apply Confined.attempt
  · intro e
    apply Confined.bind
    apply Confined.call
    · trivial
    · intro _ _
      trivial
  · apply Confined.bind
    refine h.mono fun a ha => ?_
    apply Confined.bind
    apply Confined.call
    · trivial
    · intro _ _
      exact ha

theorem drop {p : Op α} (h : Leaves o s p fun _ => True) : Leaves o s (Veyaan.drop p) fun _ => True := by
  apply Confined.bind
  exact h.mono fun _ _ => trivial

/-- Whatever the program returns, what comes next does not depend on it. -/
theorem seq {β : Type} {p : Op α} {f : α → Op β} {Q : β → Prop} (hp : Leaves o s p fun _ => True)
    (hf : ∀ a, Leaves o s (f a) Q) :
    Leaves o s (p.bind f) Q := Confined.bind (hp.mono fun a _ => hf a)

theorem columnValue {P : Params} : Leaves o s (Veyaan.columnValue P) fun _ => True := by
  unfold Veyaan.columnValue
  split <;> trivial

/-! ## Single statements -/

theorem insertAudit {Q : Nat → Prop} {ks : List Key} {a : AuditLog} (ha : a.userId ≠ o) (hQ : ∀ n, Q n) :
    Leaves o s (Veyaan.execute ks (Veyaan.insertAudit a)) Q := by
  apply execute
  intro d ws _ hf
  obtain ⟨-, -, rfl⟩ := insertAudit_ok.mp hf
  exact ⟨by simpa [Write.Spares] using ha, hQ⟩

theorem insertEvent {Q : Nat → Prop} {ks : List Key} {e : CommandStateEvent}
    (he : s.ownsCommand e.commandId = false) (hQ : ∀ n, Q n) :
    Leaves o s (Veyaan.execute ks (Veyaan.insertEvent e)) Q := by
  apply execute
  intro d ws _ hf
  unfold Veyaan.insertEvent at hf
  split at hf <;> cases hf
  exact ⟨by simpa [Write.Spares] using he, hQ⟩

theorem addEvent {et : EventType} {ty : AggregateType} {id : UUID} {m : Msg} (h : s.concerns o ty id = false) :
    Leaves o s (Veyaan.addEvent et ty id m) fun _ => True := by
  apply seq (effect fun _ => trivial)
  intro eid
  apply seq (effect fun _ => trivial)
  intro now
  apply seq
  · apply execute
    intro d ws hd hf
    unfold insertOutbox at hf
    split at hf
    · cases hf
    · rename_i hn
      split at hf <;> cases hf
      refine ⟨?_, fun _ => trivial⟩
      intro w hw
      rw [List.mem_singleton.mp hw]
      exact ⟨h, hd.no_outbox (by simpa using hn)⟩
  · intro _
    apply seq (select fun _ _ => trivial)
    intro _
    trivial

theorem transitionCommand {loaded : Option Command} {id : UUID} {new : CommandState}
    {source : Source} {m : Option Metadata}
    (hid : s.ownsCommand id = false) (hl : ∀ c ∈ loaded, s.ownsCommand c.id = false) :
    Leaves o s (Veyaan.transitionCommand loaded id new source m) fun r => ∀ c ∈ r, s.ownsCommand c.id = false := by
  apply Confined.bind
  apply selectForUpdate
  intro d hd
  cases hc : d.commands.find id with
  | none => simp [Confined]
  | some row =>
    have hrow : row.id = id := Table.key_of_find hc
    have hcommand : s.ownsCommand (loaded.getD row).id = false := by
      cases loaded with
      | none => rwa [Option.getD_none, hrow]
      | some c => exact hl c rfl
    simp only
    by_cases ha : accepts (loaded.getD row).state new = true
    · rw [if_pos ha]
      apply seq (effect fun _ => trivial)
      intro u
      apply seq (effect fun _ => trivial)
      intro n
      apply seq
      · apply execute
        intro d' ws hd' hf
        obtain ⟨row', hrow', rfl⟩ := updateCommand_row hf
        refine ⟨?_, fun _ => trivial⟩
        intro w hw
        rw [List.mem_singleton.mp hw]
        have hs := (loaded.getD row).flushed_same new u n m row'
        have hid' : row'.id = (loaded.getD row).id := Table.key_of_find hrow'
        refine ⟨?_, ?_⟩
        · rw [hs.deviceId, ← hd'.shows.find_command hrow']
          exact hcommand
        · rw [hs.id, hid']
          exact hcommand
      · intro _
        apply seq (insertEvent hcommand fun _ => trivial)
        intro _ c hc
        cases hc
        have hs := (loaded.getD row).transition_same new u n m
        rw [hs.id]
        exact hcommand
    · rw [if_neg ha]
      trivial

end Leaves

end

end Veyaan
