import Veyaan.Locks.Base

/-!
# The locks of the services

A command is made with its task and its approval, or its event. A decision starts with
the approval, a stop with its row, and both end with an event.
-/

namespace Veyaan

open Sys LockOrder

namespace Locks

variable {P : Params} {strict : Bool} {n : Nat} {L : List Key}

/-! ## Commands -/

theorem insertNewCommand {r : CreateCommandRequest} {ownerId : UUID} {device : Device} {df : CommandDefinition} :
    Locks P strict 0 [] (Veyaan.insertNewCommand P r ownerId device df) fun _ _ _ => True := by
  apply seq (effect fun _ => upto_self)
  intro id
  apply seq (effect fun _ => upto_self)
  intro now
  apply orders_bind
  apply execute (m := 5)
  · exact fun _ => trivial
  · exact fun d => Over.of_lt fun k _ => lockLevel_pos d k
  · exact Nat.zero_le 5
  · intro d ws hf w hw
    obtain ⟨-, rfl, -⟩ := insertCommand_row hf
    rw [List.mem_singleton.mp hw]
    refine ⟨fun k hk => ?_, trivial⟩
    rw [List.mem_singleton.mp hk]
    exact List.mem_cons_self ..
  · intro d _ _ k hk
    rcases List.mem_cons.mp hk with rfl | hk
    · exact .inr (Nat.le_refl 5)
    · rw [List.mem_singleton.mp hk]
      exact .inr (show 1 ≤ 5 by decide)
  intro _
  apply seq (effect fun _ => upto_self)
  intro tid
  apply seq
  · apply writeRow (m := 6) (by decide)
    · exact .inr fun _ => ⟨show 5 < 6 by decide, Nat.le_refl 6⟩
    · intro d ws hf w hw
      unfold insertTask at hf
      split at hf <;> cases hf
      rw [List.mem_singleton.mp hw]
      exact ⟨rfl, trivial⟩
  intro _
  apply seq insertEvent
  intro _
  have hfirst : ∀ c ∈ some (r.command df id now), c.id = id := by
    intro c hc
    cases hc
    rfl
  simp only
  split
  · refine move (List.mem_cons_self ..) (by decide) hfirst ?_ fun _ _ _ _ _ => trivial
    intro c₁ h₁
    refine move (List.mem_cons_self ..) (by decide) h₁ ?_ fun _ _ _ _ _ => trivial
    intro c₂ _
    apply seq (createApproval (by decide))
    intro _
    apply seq commits
    intro _
    exact orders_ret trivial
  · refine move (List.mem_cons_self ..) (by decide) hfirst ?_ fun _ _ _ _ _ => trivial
    intro c₁ h₁
    refine move (List.mem_cons_self ..) (by decide) h₁ ?_ fun _ _ _ _ _ => trivial
    intro c₂ _
    apply seq (addEvent (by decide))
    intro _
    apply seq commits
    intro _
    exact orders_ret trivial

theorem createCommand {r : CreateCommandRequest} {ownerId : UUID} :
    Locks P strict 0 [] (Veyaan.createCommand P r ownerId) fun _ n _ => n = 0 := by
  apply withSession
  · apply seq (select fun _ => upto_self)
    intro device
    split
    · exact orders_throw trivial
    · split
      · exact orders_throw trivial
      · apply seq columnValue
        intro _
        split
        · exact orders_throw trivial
        · apply seq isActive
          intro stopped
          unfold createChecked
          split
          · exact orders_throw trivial
          · apply seq (select fun _ => upto_self)
            intro existing
            split
            · split
              · exact orders_throw trivial
              · exact orders_throw trivial
            · split
              · exact orders_throw trivial
              · split
                · exact insertNewCommand
                · exact orders_throw trivial
  · exact fun _ => rfl

theorem moveFirst {loaded : Option Command} {id : UUID} {new : CommandState} {source : Source}
    {md : Option Metadata} (hn : n < 5)
    (hl : ∀ c ∈ loaded, c.id = id) : Locks P strict n L (Veyaan.transitionCommand loaded id new source md)
    (Moves n 5 L id) := by
  refine transitionCommand ?_ (Nat.le_of_lt hn) (Nat.le_refl 5) hl
  intro d
  refine Over.of_lt fun k hk => ?_
  rw [List.mem_singleton.mp hk]
  exact hn

theorem cancelCommand {id ownerId : UUID} : Locks P strict 0 [] (Veyaan.cancelCommand id ownerId)
    fun _ n _ => n = 0 := by
  apply withSession
  · apply seq (select fun _ => upto_self)
    intro found
    split
    · exact orders_ret trivial
    · rename_i c owner
      split
      · exact orders_ret trivial
      · apply seq (orders_attempt ((moveFirst (by decide) _).mono fun _ _ _ h => ⟨h.upto, h.keeps⟩))
        · intro r
          split
          · apply seq commits
            intro _
            exact orders_ret trivial
          · exact orders_ret trivial
          · exact orders_throw trivial
        · intro c' hc'
          cases hc'
          rfl
  · exact fun _ => rfl

/-! ## Approvals -/

theorem updateApproval {id : UUID} {f : Approval → Approval} (hn : n < 2) :
    Locks P strict n L (Veyaan.execute [.approval id] (Veyaan.updateApproval id f)) (Upto 2 L) := by
  have hfound : ∀ d ws, Veyaan.updateApproval id f d = .ok ws → (d.approvals.find id).isSome = true ∧
      ∃ a : Approval, a.id = id ∧ ws = [.approval a] := by
    intro d ws hf
    unfold Veyaan.updateApproval at hf
    split at hf
    · cases hf
    · rename_i a ha
      split at hf <;> cases hf
      exact ⟨by rw [ha]; rfl, { f a with id := a.id }, Table.key_of_find ha, rfl⟩
  apply execute (m := 2)
  · exact fun _ => ⟨Nat.le_of_lt hn, fun _ h => h⟩
  · refine fun d => Over.of_lt fun k hk => ?_
    rw [List.mem_singleton.mp hk]
    show n < if (d.approvals.find id).isSome then 2 else 7
    split <;> omega
  · exact Nat.le_of_lt hn
  · intro d ws hf w hw
    obtain ⟨hsome, a, haid, rfl⟩ := hfound d ws hf
    rw [List.mem_singleton.mp hw]
    refine ⟨fun k hk => ?_, ?_⟩
    · rw [List.mem_singleton.mp hk, haid]
      exact List.mem_singleton_self _
    · rw [← haid] at hsome
      exact hsome
  · intro d ws hf k hk
    obtain ⟨hsome, -⟩ := hfound d ws hf
    rw [List.mem_singleton.mp hk]
    exact .inr (Nat.le_of_eq (if_pos hsome))
  · exact fun _ => ⟨Nat.le_refl 2, fun k hk => List.mem_append_right _ hk⟩

theorem approveTransitions {id : UUID} (hn : n < 5) :
    Locks P strict n L (Veyaan.approveTransitions id) (Upto 5 L) := by
  refine orders_bind ((moveFirst hn (by simp)).mono fun r n' L' hr => ?_)
  cases r with
  | error e => exact ⟨hr.upto, hr.keeps⟩
  | ok c =>
    cases c with
    | none =>
      have hn' : n' < 5 := Nat.lt_of_le_of_lt (hr.absent rfl) hn
      apply orders_bind
      refine (moveFirst hn' (by simp)).mono fun r n'' L'' h => ?_
      have hL : ∀ k ∈ L, k ∈ L'' := fun k hk => h.keeps k (hr.keeps k hk)
      cases r with
      | error _ => exact ⟨h.upto, hL⟩
      | ok _ => exact orders_ret ⟨h.upto, hL⟩
    | some c =>
      obtain ⟨hcid, hlocked⟩ := hr.locked c rfl
      refine (move (n := 5) (L := .command id :: L) (List.mem_cons_self ..) (Nat.le_refl 5)
        ?_ ?_ ?_).weaken hr.upto ?_
      · intro x hx
        cases hx
        exact hcid
      · exact fun _ _ => orders_ret ⟨Nat.le_refl 5, fun k hk => List.mem_cons_of_mem _ hk⟩
      · exact fun _ _ _ hn hL => ⟨hn, fun k hk => hL k (List.mem_cons_of_mem _ hk)⟩
      · intro k hk
        rcases List.mem_cons.mp hk with rfl | hk
        · exact hlocked
        · exact hr.keeps k hk

theorem queueApproved {id : UUID} (hn : n < 10) : Locks P strict n L (Veyaan.queueApproved id) (Upto 10 L) := by
  have hret : Locks P strict n L (Prog.ret ()) (Upto 10 L) := orders_ret ⟨Nat.le_of_lt hn, fun _ h => h⟩
  refine orders_upto (select fun _ => upto_self) ?_ (Nat.le_of_lt hn) fun _ h => h
  intro c
  split
  · exact hret
  · refine orders_upto (select fun _ => upto_self) ?_ (Nat.le_of_lt hn) fun _ h => h
    intro device
    split
    · exact hret
    · exact addEvent hn

theorem finishDecision {x : Decision} {note : Option String} :
    Locks P strict n L (Veyaan.finishDecision x note) fun _ _ _ => True := by
  apply seq insertAudit
  intro _
  exact commits.mono fun _ _ _ _ => trivial

theorem approveChecked {x : Decision} {note : Option String} {stopped : Bool} (hn : n < 5) :
    Locks P strict n L (Veyaan.approveChecked x note stopped) fun _ _ _ => True := by
  unfold Veyaan.approveChecked
  split
  · exact orders_throw trivial
  · apply seq (orders_attempt (approveTransitions hn))
    intro r
    split
    · exact orders_throw trivial
    · exact orders_throw trivial
    · apply seq (queueApproved (by decide))
      intro _
      exact finishDecision

theorem rejectDecision {x : Decision} {note : Option String} (hn : n < 5) :
    Locks P strict n L (Veyaan.rejectDecision x note) fun _ _ _ => True := by
  apply seq (orders_attempt ((moveFirst hn (by simp)).mono fun _ _ _ h => ⟨h.upto, h.keeps⟩))
  intro r
  split
  · exact orders_throw trivial
  · exact orders_throw trivial
  · exact finishDecision

theorem decideApproval {id ownerId : UUID} {approve : Bool} {nonce : String} {note : Option String} :
    Locks P strict 0 [] (Veyaan.decideApproval P id ownerId approve nonce note) fun _ n _ => n = 0 := by
  apply withSession
  · apply seq (select fun _ => upto_self)
    intro a
    split
    · exact orders_ret trivial
    · split
      · exact orders_ret trivial
      · split
        · apply seq columnValue
          intro _
          exact orders_throw trivial
        · apply seq (effect fun _ => upto_self)
          intro clock
          split
          · apply seq (updateApproval (by decide))
            intro _
            apply seq commits
            intro _
            exact orders_throw trivial
          · split
            · exact orders_throw trivial
            · apply seq (effect fun _ => upto_self)
              intro decidedAt
              apply seq (updateApproval (by decide))
              intro _
              split
              · apply seq isActive
                intro stopped
                apply orders_bind
                refine (approveChecked (by decide)).mono fun r _ _ _ => ?_
                cases r with
                | ok _ => exact orders_ret trivial
                | error _ => trivial
              · apply orders_bind
                refine (rejectDecision (by decide)).mono fun r _ _ _ => ?_
                cases r with
                | ok _ => exact orders_ret trivial
                | error _ => trivial
  · exact fun _ => rfl

end Locks

end Veyaan
