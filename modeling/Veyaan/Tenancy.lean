import Veyaan.Leaves.Devices

/-!
# Owners keep to themselves

No request of another owner changes a row of an owner, whatever the interleaving:
each program has found a device, a command or an approval to be somebody else's
before it writes to it, and nobody can give it to the owner afterwards.
-/

open Relation (ReflTransGen)

namespace Veyaan

open Sys

/-! ## Runs -/

/-- The call is made in the name of other owners, or for commands of theirs. The gateway
works for all owners; the publisher and the scheduler do too, and change what they find. -/
def Call.Foreign (o : UUID) (s : Slice) : Call → Prop
  | .create _ o' => o' ≠ o
  | .cancel _ o' => o' ≠ o
  | .decide _ o' _ _ _ => o' ≠ o
  | .activate o' _ actor => o' ≠ o ∧ actor ≠ o
  | .release o' actor => o' ≠ o ∧ actor ≠ o
  | .startPairing _ => True
  | .confirmPairing _ o' _ => o' ≠ o
  | .revoke _ o' => o' ≠ o
  | .consume _ _ p => ∀ id, p.commandId = some id → s.ownsCommand id = false
  | .listen _ _ => True
  | .frame _ _ => True
  | .batch => False
  | .tasks => False

section
variable {P : Params} {o : UUID} {s : Slice} {c c₁ c₂ : Conf}

theorem Call.Foreign.leaves {call : Call} (h : call.Foreign o s) : Leaves o s (call.code P) fun _ => True := by
  cases call with
  | create r o' => exact (Leaves.createCommand h).drop
  | cancel id o' => exact (Leaves.cancelCommand h).drop
  | decide id o' approve nonce note => exact (Leaves.decideApproval h).drop
  | activate o' reason actor => exact Leaves.activate h.1 h.2
  | release o' actor => exact Leaves.release h.1 h.2
  | startPairing info => exact Leaves.startPairing.drop
  | confirmPairing id o' code => exact (Leaves.confirmPairing h).drop
  | revoke dev o' => exact (Leaves.revokeDevice h).drop
  | consume kind id p => exact Leaves.consume h
  | listen conn p => exact Leaves.natsListener
  | frame conn f => exact Leaves.handleDeviceMessage
  | batch | tasks => cases h

theorem reachable_spared (h : Reachable P c) (o : UUID) : Spared o (c.world.sh.db.slice o) c.world.sh.db := by
  refine ⟨shows_slice _ o, ?_⟩
  intro id a ha hc
  obtain ⟨cmd, hcmd, ho⟩ := (reachable_inv h).db.approval id a ha
  rw [(shows_slice _ o).find_command hcmd, (shows_slice _ o).owns, ho] at hc
  simpa using hc

/-- From a moment between calls on, `o` asks for nothing, and nobody does in his name. -/
abbrev Absent (P : Params) (o : UUID) (s : Slice) (c c' : Conf) : Prop :=
  ReflTransGen ((sys P).among (Call.Foreign o s)).Step c c'

theorem absent_spared (h : Reachable P c) (hq : c.Quiet) (hr : Absent P o (c.world.sh.db.slice o) c c₁) :
    Spared o (c.world.sh.db.slice o) c₁.world.sh.db := by
  have hidle : ∀ i, c.procs.length ≤ i → (c.world.sess i).pend = [] := by
    intro i hi
    rw [((reachable_steady h).idle i hi).1.sess]
  have hstart :=
    Sys.Config.Quiet.undisturbed (φ := Write.Spares o (c.world.sh.db.slice o)) hq (reachable_spared h o) hidle
  have hcode : ∀ d x call, Spared o (c.world.sh.db.slice o) d →
    ((sys P).among (Call.Foreign o (c.world.sh.db.slice o))).admits d x call →
      Leaves o (c.world.sh.db.slice o) (call.code P) fun _ => True := fun _ _ _ _ ha => ha.2.leaves
  exact (runs_undisturbed (fun _ _ hd hw => hd.apply hw) hcode hr hstart).store

/-- **Owners keep to themselves.** Whatever the others do, and however their requests
interleave: the rows of an owner who is absent stay, and he is shown the same later. -/
theorem owners_apart (h : Reachable P c) (hq : c.Quiet) (hr : Absent P o (c.world.sh.db.slice o) c c₁)
    (hr' : Absent P o (c.world.sh.db.slice o) c₁ c₂) : c₁.world.sh.db.slice o = c.world.sh.db.slice o ∧
      ∀ q : Query, q.answer o c₁.world.sh.db c₂.world.sh.db = q.answer o c.world.sh.db c.world.sh.db := by
  have h₁ := (absent_spared h hq hr).shows
  have h₂ := (absent_spared h hq (hr.trans hr')).shows
  have h₀ := shows_slice c.world.sh.db o
  refine ⟨h₁.slice, fun q => ?_⟩
  rw [h₁.answer h₂, h₀.answer h₀]

end

/-! ## Two owners -/

instance {o : UUID} {s : Slice} : DecidablePred (Call.Foreign o s)
  | .create _ o' | .cancel _ o' | .decide _ o' _ _ _ | .confirmPairing _ o' _ | .revoke _ o' =>
    inferInstanceAs (Decidable (o' ≠ o))
  | .activate o' _ actor | .release o' actor => inferInstanceAs (Decidable (o' ≠ o ∧ actor ≠ o))
  | .startPairing _ | .listen _ _ | .frame _ _ => .isTrue trivial
  | .consume _ _ p => inferInstanceAs (Decidable (∀ id ∈ p.commandId, s.ownsCommand id = false))
  | .batch | .tasks => .isFalse id

def movesAmong (P : Params) (A : Call → Prop) [DecidablePred A] : ((sys P).among A).Moves Move where
  next m d x := (Move.next m d x).filter (Sum.elim (decide <| A ·) fun _ => true)
  call h := by
    obtain ⟨hn, ha⟩ := Option.filter_eq_some_iff.mp h
    exact ⟨Move.next_admits hn, by simpa using ha⟩
  env h := Move.next_env (Option.filter_eq_some_iff.mp h).1

def twoOwners : DB where
  __ := demoDB
  users := [7, 8]
  devices := ⟨[⟨1, 7, laptop, .trusted, none⟩, ⟨2, 8, laptop, .trusted, none⟩], by decide⟩

def firstOwner : List (Turn Move) := .other (.call (.create (ping false) 7)) :: steps 0 26

def secondOwner : List (Turn Move) :=
  .other (.call (.create { ping false with deviceId := 2 } 8)) :: .other (.call (.cancel 10 8)) ::
    steps 1 5 ++ steps 2 2 ++ steps 1 21

theorem owners_apart_two : ∃ c c₁, Reachable demo c ∧ c.Quiet ∧ Absent demo 7 (c.world.sh.db.slice 7) c c₁ ∧
    (c.world.sh.db.slice 7).ownsCommand 10 = true ∧ c₁.world.sh.db.commands.rows.length = 2 ∧
      c₁.world.sh.db.slice 7 = c.world.sh.db.slice 7 ∧
        ∀ q : Query, q.answer 7 c₁.world.sh.db c₁.world.sh.db = q.answer 7 c.world.sh.db c.world.sh.db := by
  have h₀ : Initial Init (fresh twoOwners demoExt) :=
    ⟨rfl, rfl, fun _ => rfl, fun _ => rfl, rfl, rfl, rfl, rfl, rfl, rfl, rfl, fun _ => rfl, rfl, rfl⟩
  obtain ⟨c, hr, hc⟩ := played (P := demo) (t := firstOwner) (c := fresh twoOwners demoExt) (φ := fun c =>
    c.procs.all (·.prog.ended) && (c.world.sh.db.slice 7).ownsCommand 10 &&
      (play (movesAmong demo (Call.Foreign 7 (c.world.sh.db.slice 7))) secondOwner c).any fun c₁ =>
        c₁.world.sh.db.commands.rows.length == 2) (by decide +kernel)
  simp only [Bool.and_eq_true, List.all_eq_true, Option.any_eq_true, beq_iff_eq] at hc
  obtain ⟨⟨hq, hown⟩, c₁, hp, hlen⟩ := hc
  have hreach := Reachable.runs (.init h₀) hr
  have habsent : Absent demo 7 (c.world.sh.db.slice 7) c c₁ := play_runs _ hp
  obtain ⟨hslice, hanswer⟩ := owners_apart hreach hq habsent .refl
  exact ⟨c, c₁, hreach, hq, habsent, hown, hlen, hslice, hanswer⟩

end Veyaan
