import Veyaan.Code
import Veyaan.Lib.UniqueIndex
import Veyaan.Refine.Sound
import Veyaan.Schedule

/-!
# What holds of the rows, whatever runs next to what

Each statement that writes is looked at once: what it may put into a table, and
where. From there, for every interleaving: no two commands of a device have the
same idempotency key, no command has two approvals, and the columns of a device,
an approval and a stop agree with each other.
-/

namespace Veyaan

open Sys

/-! ## What a statement puts -/

/-- The statement puts one new row, under a key of the index that it locks. -/
inductive Write.New (ks : List Key) (d : DB) : Write → Prop
  | command {c} : d.commands.find c.id = none →
      (∀ r ∈ d.commands.rows, ¬ (r.deviceId = c.deviceId ∧ r.idempotencyKey = c.idempotencyKey)) →
      .idempotency c.deviceId c.idempotencyKey ∈ ks → New ks d (.command c)
  | approval {a} : d.approvals.find a.id = none → (∀ r ∈ d.approvals.rows, r.commandId ≠ a.commandId) →
      .approvalOf a.commandId ∈ ks → a.status = .pending → a.decidedAt = none → New ks d (.approval a)

/-- The statement overwrites a row with one that has the same names, or puts a row of a
table without such an index. -/
inductive Write.Over (d : DB) : Write → Prop
  | command {c c'} : d.commands.find c'.id = some c → c'.deviceId = c.deviceId →
      c'.idempotencyKey = c.idempotencyKey → Over d (.command c')
  | approval {a a'} : d.approvals.find a'.id = some a → a'.commandId = a.commandId →
      (a'.status = .expired ∨ a'.status ≠ .pending ∧ a'.decidedAt.isSome) → Over d (.approval a')
  | newDevice {r} : r.trustStatus = .trusted → r.revokedAt = none → Over d (.device r)
  | revoked {r} : r.trustStatus = .revoked → r.revokedAt.isSome → Over d (.device r)
  | stopped {s} : s.active = true → s.reason.isSome → s.activatedAt.isSome → s.activatedBy.isSome →
      s.releasedAt = none → s.releasedBy = none → Over d (.stop s)
  | released {s} : s.active = false → s.releasedAt.isSome → s.releasedBy.isSome → Over d (.stop s)
  | task {r} : Over d (.task r)
  | event {e} : Over d (.event e)
  | outbox {e} : Over d (.outbox e)
  | credential {r} : Over d (.credential r)
  | pairing {p} : Over d (.pairing p)
  | audit {a} : Over d (.audit a)

def Puts1 (ks : List Key) (d : DB) (ws : List Write) : Prop :=
  (∃ w, ws = [w] ∧ w.New ks d) ∨ ∀ w ∈ ws, w.Over d

theorem over_one {ks : List Key} {d : DB} {w : Write} (h : w.Over d) : Puts1 ks d [w] :=
  .inr fun _ hv => List.mem_singleton.mp hv ▸ h

theorem Command.flushed_key (l : Command) (new : CommandState) (u n : Time) (m : Option Metadata) (row : Command) :
    (l.flushed new u n m row).idempotencyKey = row.idempotencyKey := by
  unfold Command.flushed
  cases new <;> rfl

theorem updateApproval_row {id : UUID} {g : Approval → Approval} {d : DB} {ws : List Write}
    (h : updateApproval id g d = .ok ws) : ∃ a, d.approvals.find a.id = some a ∧
    ws = [.approval { g a with id := a.id }] := by
  unfold updateApproval at h
  split at h
  · cases h
  · rename_i a ha
    split at h <;> cases h
    exact ⟨a, Table.find_of_mem (Table.mem_of_find ha), rfl⟩

theorem insertCommand_row {c : Command} {d : DB} {ws : List Write} (h : insertCommand c d = .ok ws) :
    d.commands.find c.id = none ∧ ws = [.command c] ∧
      ∀ r ∈ d.commands.rows, ¬ (r.deviceId = c.deviceId ∧ r.idempotencyKey = c.idempotencyKey) := by
  unfold insertCommand at h
  split at h
  · cases h
  · rename_i hno
    split at h <;> cases h
    simp only [Bool.or_eq_true, not_or, Bool.not_eq_true, Option.isSome_eq_false_iff, Option.isNone_iff_eq_none,
      List.any_eq_false, Bool.and_eq_true, beq_iff_eq] at hno
    exact ⟨hno.1, rfl, hno.2⟩

theorem updateCommand_row {l : Command} {new : CommandState} {u n : Time} {source : Source}
    {m : Option Metadata} {d : DB} {ws : List Write} (h : updateCommand l new u n source m d = .ok ws) :
    ∃ row, d.commands.find l.id = some row ∧ ws = [.command (l.flushed new u n m row)] := by
  unfold updateCommand at h
  split at h
  · cases h
  · rename_i row hrow
    split at h
    · cases h
    · split at h <;> cases h
      exact ⟨row, hrow, rfl⟩

theorem statement_puts {ks : DB → List Key} {f : DB → Except Err (List Write)} (h : Statement ks f) {d : DB}
    {ws : List Write} (hf : f d = .ok ws) : Puts1 (ks d) d ws := by
  cases h with
  | insertEvent e =>
    unfold insertEvent at hf
    split at hf <;> cases hf
    exact over_one .event
  | insertAudit a =>
    obtain ⟨-, -, rfl⟩ := insertAudit_ok.mp hf
    exact over_one .audit
  | insertOutbox =>
    unfold insertOutbox at hf
    split at hf
    · cases hf
    · split at hf <;> cases hf
      exact over_one .outbox
  | markPublished | markFailed | incrementAttempt =>
    unfold updateOutbox at hf
    split at hf <;> cases hf
    · exact .inr (by simp)
    · exact over_one .outbox
  | activateStop o =>
    cases hs : d.stops.find o with
    | none => simp [updateStop, hs] at hf
    | some s =>
      obtain ⟨-, -, -, rfl⟩ := (updateStop_ok hs).mp hf
      exact over_one (.stopped rfl rfl rfl rfl rfl rfl)
  | insertStop =>
    obtain ⟨-, -, -, rfl⟩ := insertStop_ok.mp hf
    exact over_one (.stopped rfl rfl rfl rfl rfl rfl)
  | releaseStop o =>
    cases hs : d.stops.find o with
    | none => simp [updateStop, hs] at hf
    | some s =>
      obtain ⟨-, -, -, rfl⟩ := (updateStop_ok hs).mp hf
      exact over_one (.released rfl rfl rfl)
  | insertCommand r df id now =>
    obtain ⟨hn, rfl, hkey⟩ := insertCommand_row hf
    exact .inl ⟨_, rfl, .command hn hkey (List.mem_cons_of_mem _ (List.mem_cons_self ..))⟩
  | insertTask =>
    unfold insertTask at hf
    split at hf <;> cases hf
    exact over_one .task
  | updateCommand _ l =>
    obtain ⟨row, hrow, rfl⟩ := updateCommand_row hf
    have hs := l.flushed_same
    have hid : row.id = l.id := by simpa using Table.key_of_find hrow
    exact over_one (.command (by rw [(hs ..).id, hid]; exact hrow) (hs ..).deviceId (Command.flushed_key ..))
  | updateTask =>
    unfold updateTask at hf
    split at hf
    · cases hf
    · split at hf <;> cases hf
      exact over_one .task
  | insertApproval =>
    obtain ⟨hn, hone, -, rfl⟩ := insertApproval_ok.mp hf
    simp only [List.all_eq_true, bne_iff_ne] at hone
    exact .inl ⟨_, rfl, .approval hn hone (List.mem_cons_of_mem _ (List.mem_cons_self ..)) rfl rfl⟩
  | expireApproval =>
    obtain ⟨a, ha, rfl⟩ := updateApproval_row hf
    exact over_one (.approval ha rfl (.inl rfl))
  | decideApproval id approve =>
    obtain ⟨a, ha, rfl⟩ := updateApproval_row hf
    refine over_one (.approval ha rfl (.inr ⟨?_, rfl⟩))
    cases approve <;> simp
  | expireApprovals =>
    cases hf
    refine .inr fun w hw => ?_
    obtain ⟨a, ha, rfl⟩ := List.mem_map.mp hw
    have hfind := Table.find_of_mem (List.mem_filter.mp ha).1
    exact .approval hfind rfl (.inl rfl)
  | insertPairing =>
    obtain ⟨-, -, -, rfl⟩ := insertPairing_ok.mp hf
    exact over_one .pairing
  | updatePairing =>
    unfold updatePairing at hf
    split at hf <;> cases hf
    exact over_one .pairing
  | expirePairings =>
    cases hf
    refine .inr fun w hw => ?_
    obtain ⟨p, -, rfl⟩ := List.mem_map.mp hw
    exact .pairing
  | insertDevice =>
    obtain ⟨-, -, -, -, rfl⟩ := insertDevice_ok.mp hf
    exact over_one (.newDevice rfl rfl)
  | revokeDevice =>
    unfold updateDevice at hf
    split at hf <;> cases hf
    exact over_one (.revoked rfl rfl)
  | insertCredential =>
    unfold insertCredential at hf
    split at hf
    · cases hf
    · split at hf <;> cases hf
      exact over_one .credential
  | revokeCredentials =>
    cases hf
    refine .inr fun w hw => ?_
    obtain ⟨r, -, rfl⟩ := List.mem_map.mp hw
    exact .credential

/-! ## Programs -/

def Writing (ψ : (DB → List Key) → (DB → Except Err (List Write)) → Prop) (β : Type) : Stmt β → Prop
  | .stmt ks f => ψ ks f
  | _ => True

theorem quiet_writing {ψ : (DB → List Key) → (DB → Except Err (List Write)) → Prop}
    (h : ∀ ks f, Statement ks f → ψ ks f) : Quiet (Writing ψ) where
  stmt ks f _ hs := h ks f hs
  read _ _ := trivial
  forUpdate _ _ _ := trivial
  skipLocked _ _ _ := trivial
  now := trivial
  uuid4 := trivial
  token := trivial
  rollback := trivial
  fresh _ := trivial
  eff _ _ := trivial

theorem all_writing {P : Params} {ψ : (DB → List Key) → (DB → Except Err (List Write)) → Prop}
    (h : ∀ ks f, Statement ks f → ψ ks f) (call : Call) : (call.code P).All (Writing ψ) :=
  (quiet_writing h).code (fun _ _ => trivial) (fun _ _ _ => trivial) (fun _ _ _ => trivial) (fun _ _ => trivial)
    (fun _ _ _ => ⟨trivial, trivial⟩) fun _ _ _ _ _ _ => trivial

/-! ## The two indexes -/

def idempotencyIndex (P : Params) : (sys P).Index (UUID × String) UUID where
  has d := d.commands.Under fun c => (c.deviceId, c.idempotencyKey)
  entry k := .idempotency k.1 k.2
  row := .command
  congr {d d' id} h k hk := by
    have hrow : d.commands.find id = d'.commands.find id := Row.command.inj h
    unfold Table.Under at hk ⊢
    rwa [← hrow]

def approvalIndex (P : Params) : (sys P).Index UUID UUID where
  has d := d.approvals.Under Approval.commandId
  entry := .approvalOf
  row := .approval
  congr {d d' id} h k hk := by
    have hrow : d.approvals.find id = d'.approvals.find id := Row.approval.inj h
    unfold Table.Under at hk ⊢
    rwa [← hrow]

section
variable {P : Params} {ks : List Key} {d : DB} {ws : List Write}

theorem idempotency_kept (h : Puts1 ks d ws) : (idempotencyIndex P).Kept ks d ((sys P).applyAll ws d) := by
  rcases h with ⟨w, rfl, hw⟩ | h
  · cases hw with
    | @command c hn hone hk =>
      refine Index.kept_new (c.deviceId, c.idempotencyKey) c.id (Table.under_put_new hn) ?_ hk
      rintro id ⟨r, hr, hrk⟩
      exact hone r (Table.mem_of_find hr) (Prod.mk.inj hrk)
    | approval => exact Index.kept_same fun _ _ => Iff.rfl
  · refine Index.kept_same (Index.applyAll_same fun w hw d' hd => ?_)
    cases h w hw with
    | @command c c' hf hdev hkey => exact Table.under_put_same ((hd _ _).mpr ⟨c, hf, by rw [hdev, hkey]⟩)
    | _ => exact fun _ _ => Iff.rfl

theorem approval_kept (h : Puts1 ks d ws) : (approvalIndex P).Kept ks d ((sys P).applyAll ws d) := by
  rcases h with ⟨w, rfl, hw⟩ | h
  · cases hw with
    | command => exact Index.kept_same fun _ _ => Iff.rfl
    | @approval a hn hone hk =>
      refine Index.kept_new a.commandId a.id (Table.under_put_new hn) ?_ hk
      rintro id ⟨r, hr, hrk⟩
      exact hone r (Table.mem_of_find hr) hrk
  · refine Index.kept_same (Index.applyAll_same fun w hw d' hd => ?_)
    cases h w hw with
    | @approval a a' hf hc => exact Table.under_put_same ((hd _ _).mpr ⟨a, hf, hc.symm⟩)
    | _ => exact fun _ _ => Iff.rfl

end

/-! ## The columns of a row -/

def Write.consistent : Write → Prop
  | .device r => r.trustStatus = .revoked ↔ r.revokedAt.isSome
  | .approval a =>
    (a.status = .pending → a.decidedAt = none) ∧ (a.status = .approved ∨ a.status = .rejected → a.decidedAt.isSome)
  | .stop s =>
    (s.active = true → s.reason.isSome ∧ s.activatedAt.isSome ∧ s.activatedBy.isSome ∧
      s.releasedAt = none ∧ s.releasedBy = none) ∧
      (s.active = false → s.releasedAt.isSome ∧ s.releasedBy.isSome)
  | _ => True

structure DB.Consistent (d : DB) : Prop where
  device : ∀ id r, d.devices.find id = some r → (Write.device r).consistent
  approval : ∀ id a, d.approvals.find id = some a → (Write.approval a).consistent
  stop : ∀ o s, d.stops.find o = some s → (Write.stop s).consistent

theorem find_put_keeps {ρ κ : Type} [Keyed ρ κ] [DecidableEq κ] {t : Table ρ} {φ : ρ → Prop} {r : ρ}
    (h : ∀ k x, t.find k = some x → φ x) (hr : φ r) (k : κ) (x : ρ) (hx : (t.put r).find k = some x) : φ x := by
  rw [Table.find_put] at hx
  by_cases hk : key r = k
  · rw [if_pos hk] at hx
    cases hx
    exact hr
  · rw [if_neg hk] at hx
    exact h k x hx

theorem DB.Consistent.apply {d : DB} {w : Write} (h : d.Consistent) (hw : w.consistent) :
    (w.apply d).Consistent := by
  cases w with
  | device r => exact ⟨find_put_keeps h.device hw, h.approval, h.stop⟩
  | approval a => exact ⟨h.device, find_put_keeps h.approval hw, h.stop⟩
  | stop s => exact ⟨h.device, h.approval, find_put_keeps h.stop hw⟩
  | _ => exact ⟨h.device, h.approval, h.stop⟩

theorem puts_consistent {ks : List Key} {d : DB} {ws : List Write} (h : Puts1 ks d ws) :
    ∀ w ∈ ws, w.consistent := by
  intro w hw
  rcases h with ⟨v, rfl, hv⟩ | h
  · cases List.mem_singleton.mp hw
    cases hv with
    | command => trivial
    | approval _ _ _ hst hat => exact ⟨fun _ => hat, fun hd => by simp [hst] at hd⟩
  · cases h w hw with
    | approval _ _ hst =>
      rcases hst with hst | ⟨hne, hat⟩
      · exact ⟨fun hp => by simp [hst] at hp, fun hd => by simp [hst] at hd⟩
      · exact ⟨fun hp => absurd hp hne, fun _ => hat⟩
    | newDevice hst hat => simp [Write.consistent, hst, hat]
    | revoked hst hat => simp [Write.consistent, hst, hat]
    | stopped ha hr hat hby hrel hrby => exact ⟨fun _ => ⟨hr, hat, hby, hrel, hrby⟩, fun hf => by simp [ha] at hf⟩
    | released ha hrel hby => exact ⟨fun ht => by simp [ha] at ht, fun _ => ⟨hrel, hby⟩⟩
    | _ => trivial

/-! ## Every reachable state -/

section
variable {P : Params} {c c₀ : Conf}

theorem reachable_indexed (h : Reachable P c) :
    (idempotencyIndex P).Unique c.world.sh.db ∧ (approvalIndex P).Unique c.world.sh.db := by
  have hkeeps : ∀ {κ ι : Type} (x : (sys P).Index κ ι),
    (∀ ks d ws, Puts1 ks d ws → x.Kept ks d ((sys P).applyAll ws d)) →
      ∀ call : Call, (call.code P).All x.Keeps := fun x hx call =>
    Prog.All.mono (fun β s hs => by cases s <;> exact hs)
      (all_writing (ψ := fun ks f => ∀ d ws, f d = .ok ws → x.Kept (ks d) d ((sys P).applyAll ws d))
        (fun ks f hst d ws hf => hx _ d ws (statement_puts hst hf)) call)
  refine ⟨Index.reachable_unique (fun d e hi => ?_) (hkeeps _ fun _ _ _ => idempotency_kept) h,
    Index.reachable_unique (fun d e hi => ?_) (hkeeps _ fun _ _ _ => approval_kept) h⟩
  · rintro k j j' ⟨r, hr, -⟩
    rw [hi.commands] at hr
    cases hr
  · rintro k j j' ⟨r, hr, -⟩
    rw [hi.approvals] at hr
    cases hr

/-- **An idempotency key stands for one command**, and a command has one approval,
however many requests race. -/
theorem unique_keys (h : Reachable P c) :
    (∀ id id' a b, c.world.sh.db.commands.find id = some a → c.world.sh.db.commands.find id' = some b →
      a.deviceId = b.deviceId → a.idempotencyKey = b.idempotencyKey → id = id') ∧
    ∀ id id' a b, c.world.sh.db.approvals.find id = some a → c.world.sh.db.approvals.find id' = some b →
      a.commandId = b.commandId → id = id' := by
  obtain ⟨hcmd, happ⟩ := reachable_indexed h
  constructor
  · intro id id' a b ha hb hdev hkey
    exact hcmd (a.deviceId, a.idempotencyKey) id id' ⟨a, ha, rfl⟩ ⟨b, hb, by rw [hdev, hkey]⟩
  · intro id id' a b ha hb hc
    exact happ a.commandId id id' ⟨a, ha, rfl⟩ ⟨b, hb, hc.symm⟩

def sameKeyRun : List (Turn Move) :=
  .other (.call (.create (ping false) 7)) :: .other (.call (.create (ping false) 7)) ::
    steps 1 5 ++ steps 0 26 ++ steps 1 3

theorem unique_keys_ping : ∃ c, Reachable demo c ∧ c.procs.length = 2 ∧ (∀ p ∈ c.procs, p.prog.ended = true) ∧
    ∃ a, c.world.sh.db.commands.find 11 = some a ∧ ∀ id b, c.world.sh.db.commands.find id = some b →
      b.deviceId = a.deviceId → b.idempotencyKey = a.idempotencyKey → id = 11 := by
  obtain ⟨c, hr, hc⟩ := played (P := demo) (c := demoStart) (t := sameKeyRun)
    (φ := fun c => c.procs.length == 2 && c.procs.all (·.prog.ended) && (c.world.sh.db.commands.find 11).isSome)
    (by decide +kernel)
  simp only [Bool.and_eq_true, beq_iff_eq, List.all_eq_true, Option.isSome_iff_exists] at hc
  obtain ⟨⟨hlen, hended⟩, a, ha⟩ := hc
  have h : Reachable demo c := Sys.Reachable.runs demo_reachable hr
  exact ⟨c, h, hlen, hended, a, ha, fun id b hb hdev hkey => (unique_keys h).1 id 11 b a hb ha hdev hkey⟩

/-- **The columns of a row agree** with each other in every reachable state. -/
theorem rows_consistent (h₀ : Initial Init c₀)
    (hdev : ∀ id r, c₀.world.sh.db.devices.find id = some r → (r.trustStatus = .revoked ↔ r.revokedAt.isSome))
    (hr : Runs P c₀ c) : c.world.sh.db.Consistent := by
  have hstart : c₀.world.sh.db.Consistent := by
    refine ⟨hdev, fun id a ha => ?_, fun o s hs => ?_⟩
    · rw [h₀.init.approvals] at ha
      cases ha
    · rw [h₀.init.stops] at hs
      cases hs
  have hreach : (sys P).Reachable (fun d x => Init d x ∧ d.Consistent) c :=
    Sys.Reachable.runs (.init ⟨h₀.procs, h₀.trace, h₀.locks, h₀.sess, h₀.init, hstart⟩) hr
  refine Sys.Reachable.rows (φ := Write.consistent) (fun d w hd hw => hd.apply hw)
    (fun d x hi => hi.2) (fun call => ?_) hreach
  exact Prog.All.mono (fun β s hs => by cases s <;> exact hs)
    (all_writing (ψ := fun _ f => ∀ d ws, d.Consistent → f d = .ok ws → ∀ w ∈ ws, w.consistent)
      (fun ks f hst d ws _ hf => puts_consistent (statement_puts hst hf)) call)

theorem demo_devices : ∀ id r, demoStart.world.sh.db.devices.find id = some r →
    (r.trustStatus = .revoked ↔ r.revokedAt.isSome) := by
  intro id r hr
  have hall : ∀ r ∈ demoStart.world.sh.db.devices.rows, (r.trustStatus = .revoked ↔ r.revokedAt.isSome) := by decide
  exact hall r (Table.mem_of_find hr)

theorem rows_consistent_ping : ∃ c a, Runs demo demoStart c ∧ c.world.sh.db.approvals.find 12 = some a ∧
    a.status = .pending ∧ c.world.sh.db.Consistent := by
  obtain ⟨c, hr, hc⟩ := played (P := demo) (c := demoStart)
    (t := .other (.call (.create (ping true) 7)) :: steps 0 27)
    (φ := fun c => (c.world.sh.db.approvals.find 12).any (·.status == .pending)) (by decide +kernel)
  obtain ⟨a, ha, hst⟩ := (Option.any_eq_true _ _).mp hc
  exact ⟨c, a, hr, ha, beq_iff_eq.mp hst, rows_consistent demo_initial demo_devices hr⟩

end

end Veyaan
