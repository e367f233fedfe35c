import Veyaan.Provenance

/-!
# Decisions

What becomes of an approval. `decide_approval` reads the row without a lock and
writes it by its key, so a decision is final only if the row that it commits on
is still the one that it has read. And what becomes of the command beside it: a
decision moves both, but either can also end alone.
-/

open Relation (ReflTransGen)

namespace Veyaan

open Sys

section
variable {P : Params} {c c' : Conf} {s : St} {i : Nat} {id : UUID}

/-- A step of the system leaves the store as it is, or commits a transaction
that the protocol allows there. -/
theorem step_tx (h : Reachable P c) (hs : (sys P).Step c c') : c'.world.sh.db = c.world.sh.db ∨
    ∃ i t s₁, c'.world.sh.trace = c.world.sh.trace ++ [(i, .committed t)] ∧ s₁.db = c.world.sh.db ∧ Inv P s₁ ∧
      Tx P s₁ i t c'.world.sh.db := by
  by_cases hd : c'.world.sh.db = c.world.sh.db
  · exact .inl hd
  · obtain ⟨i, _, _, _, _, _, s₁, t, _, _, _, ht, hdb, hg, _, htx⟩ := step_commit h hs hd
    obtain ⟨d, x, hi, hg₀⟩ := reachable_real h
    exact .inr ⟨i, t, s₁, ht, hdb, reach_inv ⟨d, x, hi, hg₀.trans hg⟩, htx⟩

/-- What a step of the system adds to the trace is true in the state before it. -/
theorem step_says (h : Reachable P c) (hs : (sys P).Step c c') {v : Ev}
    (ht : c'.world.sh.trace = c.world.sh.trace ++ [(i, v)]) : ∃ s₁ : St, s₁.trace = c.world.sh.trace ∧
      s₁.db = c.world.sh.db ∧ (SayOk P s₁ i v ∨ (∃ m e, v = .published m e ∧ Publishable s₁ i e m) ∨
        ∃ t, v = .committed t ∧ Tx P s₁ i t c'.world.sh.db) := by
  obtain ⟨s₁, s₂, -, ha, -, ht₁, hd₁, ht₂, hd₂⟩ := acts_growth (runs_acts h (.single hs)) ht
  rw [ht, ← ht₁] at ht₂
  refine ⟨s₁, ht₁, hd₁, (ha.says_new ht₂).imp_right (.imp_right ?_)⟩
  rintro ⟨t, hv, htx⟩
  exact ⟨t, hv, hd₂ ▸ htx⟩

/-- A commit that the trace reports was allowed in the state before it. -/
theorem step_commits (h : Reachable P c) (hs : (sys P).Step c c') {t : Tag}
    (ht : c'.world.sh.trace = c.world.sh.trace ++ [(i, .committed t)]) : ∃ s₁ : St, s₁.trace = c.world.sh.trace ∧
      s₁.db = c.world.sh.db ∧ Inv P s₁ ∧ Tx P s₁ i t c'.world.sh.db := by
  obtain ⟨s₁, s₂, hg, ha, -, ht₁, hd₁, ht₂, hd₂⟩ := acts_growth (runs_acts h (.single hs)) ht
  rw [ht, ← ht₁] at ht₂
  obtain ⟨d, x, hi, hg₀⟩ := reachable_real h
  refine ⟨s₁, ht₁, hd₁, reach_inv ⟨d, x, hi, hg₀.trans hg⟩, ?_⟩
  rcases ha.says_new ht₂ with hv | ⟨_, _, hv, -⟩ | ⟨t, hv, htx⟩
  · exact hv.elim
  · cases hv
  · cases hv
    exact hd₂ ▸ htx

/-! ## An approval is decided once -/

/-- The approval that a call of `decide_approval` commits on. -/
def Tag.decides : Tag → Option UUID
  | .decide x => some x.approvalId
  | .expireApproval id => some id
  | _ => none

/-- A step in which no call of `decide_approval` commits on the approval when it
is no longer pending. -/
structure Timely (P : Params) (id : UUID) (c c' : Conf) : Prop where
  step : (sys P).Step c c'
  pending : ∀ i t, c'.world.sh.trace = c.world.sh.trace ++ [(i, .committed t)] → t.decides = some id →
    ∃ a, c.world.sh.db.approvals.find id = some a ∧ a.status = .pending

def DB.audited (d : DB) (id : UUID) : Nat := d.audits.countP (·.approvalId == some id)

def DB.Undecided (d : DB) (id : UUID) : Prop := ∀ a, d.approvals.find id = some a → a.status = .pending

theorem Tag.Decides.status {t : Tag} {a a' : Approval} (h : t.Decides a a') : a'.status ≠ .pending := by
  cases t with
  | expire => rw [h.2]; simp
  | expireApproval => rw [h.2]; simp
  | decide x => rw [h.2]; split <;> simp
  | _ => exact h.elim

theorem Tag.Decides.only {t : Tag} {a a' : Approval} (h : t.Decides a a') (hp : a.status ≠ .pending) :
    t.decides = some a.id := by
  cases t with
  | expire => exact absurd h.1 hp
  | expireApproval => rw [h.1]; rfl
  | decide x => rw [h.1]; rfl
  | _ => exact h.elim

theorem Tx.keeps_decided {t : Tag} {d : DB} (h : Tx P s i t d) {a : Approval} (ha : s.db.approvals.find id = some a)
    (hs : a.status ≠ .pending) (ht : t.decides ≠ some id) : d.approvals.find id = some a := by
  cases h with
  | create h =>
    rcases h.form with ⟨-, -, -, b, hn, -, -, -, hb⟩ | ⟨-, -, hb, -⟩
    · rw [hb, Table.find_put_ne _ (by rintro rfl; rw [key_approval, hn] at ha; cases ha)]
      exact ha
    · rw [hb]; exact ha
  | @approve x _ _ _ _ b b' _ h =>
    have hb : b'.id = x.approvalId := h.sameApproval.id.trans (by simpa using Table.key_of_find h.approval)
    rw [h.approvals, Table.find_put_ne _ (by rintro rfl; exact ht (by rw [key_approval, hb]; rfl))]
    exact ha
  | chain h =>
    refine h.keeps (I := fun d => d.approvals.find id = some a) (fun d w hw hI => ?_) ha
    cases hw with
    | @approval b b' hb hsame hdec =>
      have hne : b'.id ≠ id := by
        rintro rfl
        rw [hb] at hI
        cases hI
        exact ht (by rw [hdec.only hs, hsame.id])
      simpa [Write.apply, Table.find_put, hne] using hI
    | _ => exact hI

structure Audited (id : UUID) (d : DB) : Prop where
  most : d.audited id ≤ 1
  none : d.Undecided id → d.audited id = 0

theorem Tx.keeps_undecided {t : Tag} {d : DB} (h : Tx P s i t d) (hu : d.Undecided id) : s.db.Undecided id := by
  intro a ha
  obtain ⟨b, hb, -⟩ := h.later.approval id a ha
  cases h with
  | create h =>
    rcases h.form with ⟨-, -, -, x, hn, -, -, -, hx⟩ | ⟨-, -, hx, -⟩
    · refine hu a ?_
      rw [hx, Table.find_put_ne _ (by rintro rfl; rw [key_approval, hn] at ha; cases ha)]
      exact ha
    · exact hu a (by rw [hx]; exact ha)
  | @approve x _ _ _ _ y y' _ h =>
    by_cases hid : y'.id = id
    · have := hu y' (by rw [h.approvals, ← hid]; exact Table.find_put_self ..)
      rw [h.decided] at this; cases this
    · exact hu a (by rw [h.approvals, Table.find_put_ne _ hid]; exact ha)
  | @chain _ ws h =>
    -- a write never makes an approval pending
    have hI : ∀ b, ((sys P).applyAll ws s.db).approvals.find id = some b → b.status = .pending → b = a := by
      refine h.keeps (I := fun d => ∀ b, d.approvals.find id = some b → b.status = .pending → b = a)
        (fun d w hw hI b hb hp => ?_) (fun b hb _ => by rw [ha] at hb; cases hb; rfl)
      cases hw with
      | @approval y y' _ _ hdec =>
        simp only [sys_apply, Write.apply, Table.find_put, key_approval] at hb
        split at hb
        · cases hb; exact absurd hp hdec.status
        · exact hI b hb hp
      | _ => exact hI b hb hp
    rw [← hI b hb (hu b hb)]
    exact hu b hb

/-- The audit rows that a transaction adds name the approval that it decides. -/
theorem Tx.audits {t : Tag} {d : DB} (h : Tx P s i t d) :
    (t.decides ≠ some id → d.audited id = s.db.audited id) ∧
    (t.decides = some id → d.audited id = s.db.audited id ∨
      d.audited id = s.db.audited id + 1 ∧ ¬ d.Undecided id) := by
  cases h with
  | create h =>
    have : d.audited id = s.db.audited id := by rw [DB.audited, h.audits]; rfl
    exact ⟨fun _ => this, fun _ => .inl this⟩
  | @approve x _ _ _ _ a a' _ h =>
    obtain ⟨r, hr, hid⟩ := h.audits
    have ha : a'.id = x.approvalId := h.sameApproval.id.trans (by simpa using Table.key_of_find h.approval)
    refine ⟨fun ht => ?_, fun ht => .inr ⟨?_, fun hu => ?_⟩⟩
    · have hne : x.approvalId ≠ id := fun he => ht (by rw [← he]; rfl)
      simp [DB.audited, hr, hid, hne]
    · have he : x.approvalId = id := Option.some.inj ht
      simp [DB.audited, hr, hid, he]
    · have he : x.approvalId = id := Option.some.inj ht
      have := hu a' (by rw [h.approvals, ← he, ← ha]; exact Table.find_put_self ..)
      rw [h.decided] at this; cases this
  | @chain t ws h hcl =>
    -- only a decision writes audit rows that name an approval
    have hother : t.audited ≠ some id → ((sys P).applyAll ws s.db).audited id = s.db.audited id := fun ht => by
      refine h.keeps (I := fun d => d.audited id = s.db.audited id) (fun d w hw hI => ?_) rfl
      cases hw with
      | @audit a ha =>
        have : (a.approvalId == some id) = false := by rw [ha]; simpa using ht
        simpa [Write.apply, DB.audited, this] using hI
      | _ => exact hI
    cases t with
    | decide x =>
      refine ⟨fun ht => hother ht, fun ht => .inr ⟨?_, fun hu => ?_⟩⟩
      · obtain ⟨r, hr, hid⟩ := hcl.audits
        have he : x.approvalId = id := Option.some.inj ht
        simp [DB.audited, hr, hid, he]
      · obtain ⟨a, a', -, -, ha', hst⟩ := hcl.approval
        have := hu a' (by rw [← Option.some.inj ht]; exact ha')
        rw [hst] at this; cases this
    | _ => exact ⟨fun _ => hother (by simp [Tag.audited]), fun _ => .inl (hother (by simp [Tag.audited]))⟩

theorem Timely.audited (h : Reachable P c) (hs : Timely P id c c') (ha : Audited id c.world.sh.db) :
    Audited id c'.world.sh.db := by
  rcases step_tx h hs.step with hd | ⟨i, t, s, ht, hd, -, htx⟩
  · rw [hd]; exact ha
  rw [← hd] at ha
  have hnone : c'.world.sh.db.Undecided id → s.db.audited id = 0 := fun hu => ha.none (htx.keeps_undecided hu)
  obtain ⟨hother, hown⟩ : (t.decides ≠ some id → _) ∧ (t.decides = some id → _) := htx.audits
  by_cases htd : t.decides = some id
  · -- the approval was pending, so no audit row named it
    obtain ⟨a, hf, hp⟩ := hs.pending i t ht htd
    have hzero : s.db.audited id = 0 := ha.none fun b hb => by rw [hd, hf] at hb; cases hb; exact hp
    rcases hown htd with he | ⟨he, hdec⟩
    · exact ⟨by rw [he, hzero]; exact Nat.zero_le 1, fun _ => by rw [he, hzero]⟩
    · exact ⟨Nat.le_of_eq (by rw [he, hzero]), fun hu => absurd hu hdec⟩
  · rw [← hother htd] at hnone
    exact ⟨by rw [hother htd]; exact ha.most, hnone⟩

theorem Timely.runs (h : Reachable P c) (hr : ReflTransGen (Timely P id) c c') : Reachable P c' := by
  induction hr with
  | refl => exact h
  | tail _ hs ih => exact .step ih hs.step

/-- **An approval is decided once** in every run in which `decide_approval` only
commits on a row that is still pending: whatever the interleaving, the decided
row stays as it is, and at most one audit row names it. -/
theorem decided_once {c₀ : Conf} (h₀ : Initial Init c₀) (h : ReflTransGen (Timely P id) c₀ c)
    (hr : ReflTransGen (Timely P id) c c') : c'.world.sh.db.audited id ≤ 1 ∧
    ∀ a, c.world.sh.db.approvals.find id = some a → a.status ≠ .pending →
      c'.world.sh.db.approvals.find id = some a := by
  have hc : Reachable P c := Timely.runs (.init h₀) h
  constructor
  · have haud : ∀ {x}, ReflTransGen (Timely P id) c₀ x → Audited id x.world.sh.db := fun hx => by
      induction hx with
      | refl => exact ⟨by simp [DB.audited, h₀.init.audits], fun _ => by simp [DB.audited, h₀.init.audits]⟩
      | tail hx hs ih => exact hs.audited (Timely.runs (.init h₀) hx) ih
    exact (haud (h.trans hr)).most
  · intro a ha hs
    induction hr with
    | refl => exact ha
    | @tail x y hx hxy ih =>
      rcases step_tx (Timely.runs hc hx) hxy.step with hd | ⟨i, t, s, ht, hd, -, htx⟩
      · rw [hd]; exact ih
      refine htx.keeps_decided (by rw [hd]; exact ih) hs fun htd => ?_
      obtain ⟨b, hb, hp⟩ := hxy.pending i t ht htd
      rw [ih] at hb
      cases hb
      exact hs hp

def timely (id : UUID) (c : Conf) : Turn Move → Bool
  | .run i _ => (nextTag c i).all fun t =>
      t.decides != some id || (c.world.sh.db.approvals.find id).any (·.status == .pending)
  | .other _ => true

theorem timely_step {u : Turn Move} (hu : timely id c u = true) (h : turn (moves P) c u = some c') :
    Timely P id c c' := by
  refine ⟨turn_step _ h, fun j t ht hid => ?_⟩
  obtain ⟨i, ch, rfl, hn⟩ := turn_committed h ht
  simp only [timely, hn, Option.all_some, hid, bne_self_eq_false, Bool.false_or,
    Option.any_eq_true, beq_iff_eq] at hu
  exact hu

theorem timely_runs {ts : List (Turn Move)} (h : playIf (moves P) (timely id) ts c = some c') :
    ReflTransGen (Timely P id) c c' :=
  playIf_runs _ (Q := Timely P id) timely_step h

def rejectedRun : List (Turn Move) :=
  .other (.call (.create (ping true) 7)) :: steps 0 27 ++
    .other (.call (.decide 12 7 false demoExt.token none)) :: steps 1 12

theorem decided_once_rejected : ∃ c₀ c c' a, Initial Init c₀ ∧ ReflTransGen (Timely demo 12) c₀ c ∧
    ReflTransGen (Timely demo 12) c c' ∧ c.world.sh.db.approvals.find 12 = some a ∧ a.status = .rejected ∧
    c'.world.sh.db.approvals.find 12 = some a ∧ c'.world.sh.db.audited 12 = 1 := by
  have hplay : (playIf (moves demo) (timely 12) rejectedRun demoStart).any (fun c =>
      (c.world.sh.db.approvals.find 12).any (·.status == .rejected) &&
        (playIf (moves demo) (timely 12) (.other (.call .tasks) :: steps 2 4) c).any fun c' =>
          c'.world.sh.db.audited 12 == 1) = true := by decide +kernel
  obtain ⟨c, hc, hφ⟩ := (Option.any_eq_true _ _).mp hplay
  simp only [Bool.and_eq_true, Option.any_eq_true, beq_iff_eq] at hφ
  obtain ⟨⟨a, ha, hst⟩, c', hc', hone⟩ := hφ
  have hr := timely_runs hc
  have hr' := timely_runs hc'
  exact ⟨demoStart, c, c', a, demo_initial, hr, hr', ha, hst,
    (decided_once demo_initial hr hr').2 a ha (by rw [hst]; simp), hone⟩

/-- Two rejections of one approval: the second reads it before the first commits,
and goes on after it. -/
def racingRun : List (Turn Move) :=
  .other (.call (.create (ping true) 7)) :: steps 0 27 ++
    .other (.call (.decide 12 7 false demoExt.token none)) ::
    .other (.call (.decide 12 7 false demoExt.token none)) :: steps 2 1 ++ steps 1 12

theorem decided_again : ∃ c c' a b, Reachable demo c ∧ Runs demo c c' ∧
    c.world.sh.db.approvals.find 12 = some a ∧ a.status = .rejected ∧ a.decidedAt = some 0 ∧
    c'.world.sh.db.approvals.find 12 = some b ∧ b.decidedAt = some 5 ∧ c'.world.sh.db.audited 12 = 2 := by
  obtain ⟨c, hr, hc⟩ := played (P := demo) (c := demoStart) (t := racingRun)
    (φ := fun c => (c.world.sh.db.approvals.find 12).any
      (fun a => a.status == .rejected && a.decidedAt == some 0) &&
      (play (moves demo) (.other (.clock 5) :: steps 2 11) c).any fun c' =>
        (c'.world.sh.db.approvals.find 12).any (·.decidedAt == some 5) && c'.world.sh.db.audited 12 == 2)
    (by decide +kernel)
  simp only [Bool.and_eq_true, Option.any_eq_true, beq_iff_eq] at hc
  obtain ⟨⟨a, ha, hst, hat⟩, c', hplay, ⟨b, hb, hbt⟩, htwo⟩ := hc
  exact ⟨c, c', a, b, Reachable.runs demo_reachable hr, play_runs _ hplay, ha, hst, hat, hb, hbt, htwo⟩

/-! ## Approvals and their commands -/

/-- The approvals after a chain of writes: as they were, expired, or decided. -/
theorem chain_approval {t : Tag} {ws : List Write} (h : (sys P).Chain (Write.Allowed i t s) s.db ws) {a' : Approval}
    (ha : ((sys P).applyAll ws s.db).approvals.find id = some a') :
    ∃ a, s.db.approvals.find id = some a ∧ a.Same a' ∧ (a'.status = a.status ∨ a'.status = .expired ∨
      ∃ x, t = .decide x ∧ id = x.approvalId ∧ a'.status = if x.approve then .approved else .rejected) := by
  refine h.keeps (I := fun d => ∀ a', d.approvals.find id = some a' →
    ∃ a, s.db.approvals.find id = some a ∧ a.Same a' ∧
    (a'.status = a.status ∨ a'.status = .expired ∨
      ∃ x, t = .decide x ∧ id = x.approvalId ∧ a'.status = if x.approve then .approved else .rejected))
    (fun d w hw hI a' ha => ?_) (fun a ha => ⟨a, ha, .refl a, .inl rfl⟩) a' ha
  cases hw with
  | @approval b b' hb hsame hdec =>
    simp only [sys_apply, Write.apply, Table.find_put, key_approval] at ha
    split at ha
    · rename_i hid
      cases ha
      subst hid
      obtain ⟨a, ha, hs, -⟩ := hI b hb
      refine ⟨a, ha, hs.trans hsame, .inr ?_⟩
      cases t with
      | expire => exact .inl (by rw [hdec.2])
      | expireApproval => exact .inl (by rw [hdec.2])
      | decide x => exact .inr ⟨x, rfl, hsame.id.trans hdec.1, hdec.2⟩
      | _ => exact hdec.elim
    · exact hI a' ha
  | _ => exact hI a' ha

theorem Tag.Moves.of_rejected {t : Tag} (h : t.Moves id .rejected) :
    ∃ z, t = .decide z ∧ id = z.read.commandId := by
  cases t with
  | decide z => exact ⟨z, rfl, h.2.1⟩
  | handle k p =>
    have h : CommandState.rejected = k.target p := h
    have := k.target_mem p
    rw [← h] at this
    simp at this
  | cancel => simp [Tag.Moves] at h
  | _ => cases h

theorem waiting_moves {x y : CommandState} (h : validateCommandStateTransition x y = true)
    (hx : x ∈ [.awaitingApproval, .cancelled, .expired]) (hy : y ≠ .approved) :
    y ∈ [.awaitingApproval, .cancelled, .expired] ∨ y = .rejected := by
  simp only [List.mem_cons, List.not_mem_nil, or_false] at hx
  rcases hx with rfl | rfl | rfl <;> cases y <;> simp_all [validateCommandStateTransition]

/-- A command that waits for its approval, or has ended without one, stays so
unless it is rejected. -/
theorem chain_waiting {t : Tag} {ws : List Write} (h : (sys P).Chain (Write.Allowed i t s) s.db ws) {x : Command}
    (hx : s.db.commands.find id = some x) (hst : x.state ∈ [.awaitingApproval, .cancelled, .expired]) {y : Command}
    (hy : ((sys P).applyAll ws s.db).commands.find id = some y) :
    y.state ∈ [.awaitingApproval, .cancelled, .expired] ∨ ∃ z, t = .decide z ∧ id = z.read.commandId := by
  refine h.keeps (I := fun d => ∀ y, d.commands.find id = some y →
    y.state ∈ [.awaitingApproval, .cancelled, .expired] ∨
    ∃ z, t = .decide z ∧ id = z.read.commandId) (fun d w hw hI y hy => ?_)
    (fun y hy => by rw [hx] at hy; cases hy; exact .inl hst) y hy
  obtain ⟨c, hc, -, hm⟩ := hw.command_find hy
  rcases hI c hc with hst | hz
  · rcases hm with hm | ⟨hm, -, hv⟩
    · rw [hm]; exact .inl hst
    · rcases waiting_moves hv hst hm.ne.2.2.1 with hst' | hrej
      · exact .inl hst'
      · exact .inr (Tag.Moves.of_rejected (hrej ▸ hm))
  · exact .inr hz

structure Coherent (d : DB) : Prop where
  unique : ∀ k k' a a', d.approvals.find k = some a → d.approvals.find k' = some a' →
    a.commandId = a'.commandId → k = k'
  pending : ∀ k a x, d.approvals.find k = some a → d.commands.find a.commandId = some x → a.status = .pending →
    x.state ∈ [.awaitingApproval, .cancelled, .expired]
  awaiting : ∀ k a x, d.approvals.find k = some a → d.commands.find a.commandId = some x →
    x.state = .awaitingApproval →
    a.status = .pending ∨ a.status = .expired

theorem Created.coherent {d : DB} {q : CreateCommandRequest} {x : Command} {r : Task} {o : UUID}
    (h : Created s i d q x r o) (hi : Inv P s) (hc : Coherent s.db) : Coherent d := by
  have hne : ∀ {k a}, s.db.approvals.find k = some a → a.commandId ≠ x.id := fun {k a} ha he => by
    obtain ⟨c, hc, -⟩ := hi.db.approval k a ha
    rw [he, h.new] at hc
    cases hc
  have hold : ∀ {k a}, s.db.approvals.find k = some a →
      d.commands.find a.commandId = s.db.commands.find a.commandId :=
    fun ha => by rw [h.commands, Table.find_put_ne _ (Ne.symm (hne ha))]
  rcases h.form with ⟨-, hst, -, b, hn, hb, -, hbp, hput⟩ | ⟨-, -, hput, -⟩
  · have hfind : ∀ {k a}, d.approvals.find k = some a → (k = b.id ∧ a = b) ∨ s.db.approvals.find k = some a :=
      fun {k a} ha => by
        rw [hput, Table.find_put] at ha
        split at ha
        · rename_i hk
          cases ha
          exact .inl ⟨hk.symm, rfl⟩
        · exact .inr ha
    have hown : d.commands.find b.commandId = some x := by rw [hb, h.commands]; exact Table.find_put_self ..
    refine ⟨fun k k' a a' ha ha' he => ?_, fun k a y ha hy hp => ?_, fun k a y ha hy hw => ?_⟩
    · rcases hfind ha with ⟨rfl, rfl⟩ | ha <;> rcases hfind ha' with ⟨rfl, rfl⟩ | ha'
      · rfl
      · exact absurd (he.symm.trans hb) (hne ha')
      · exact absurd (he.trans hb) (hne ha)
      · exact hc.unique k k' a a' ha ha' he
    · rcases hfind ha with ⟨rfl, rfl⟩ | ha
      · cases hown.symm.trans hy
        rw [hst]; simp
      · exact hc.pending k a y ha (hold ha ▸ hy) hp
    · rcases hfind ha with ⟨rfl, rfl⟩ | ha
      · exact .inl hbp
      · exact hc.awaiting k a y ha (hold ha ▸ hy) hw
  · rw [← hput] at hold
    refine ⟨by rw [hput]; exact hc.unique, fun k a y ha hy hp => ?_, fun k a y ha hy hw => ?_⟩
    · exact hc.pending k a y (hput ▸ ha) (hold ha ▸ hy) hp
    · exact hc.awaiting k a y (hput ▸ ha) (hold ha ▸ hy) hw

theorem Approved.coherent {x : Decision} {d : DB} {y y' : Command} {e : OutboxEvent} {a a' : Approval}
    (h : Approved P s i x d y y' e a a') (hc : Coherent s.db) : Coherent d := by
  have haid : a'.id = x.approvalId := h.sameApproval.id.trans (by simpa using Table.key_of_find h.approval)
  have hcmd : a'.commandId = x.read.commandId := h.sameApproval.commandId.trans h.read.commandId
  have hyid : y'.id = x.read.commandId := h.same.id.trans (by simpa using Table.key_of_find h.find)
  have hfind : ∀ {k b}, d.approvals.find k = some b → (k = x.approvalId ∧ b = a') ∨
      k ≠ x.approvalId ∧ s.db.approvals.find k = some b := fun {k b} hb => by
    rw [h.approvals, Table.find_put, key_approval, haid] at hb
    split at hb
    · rename_i hk
      cases hb
      exact .inl ⟨hk.symm, rfl⟩
    · rename_i hk
      exact .inr ⟨Ne.symm hk, hb⟩
  -- no other approval is of the command
  have hold : ∀ {k b}, k ≠ x.approvalId → s.db.approvals.find k = some b →
      d.commands.find b.commandId = s.db.commands.find b.commandId := fun {k b} hk hb => by
    rw [h.commands, Table.find_put_ne _ fun he => hk ?_]
    refine hc.unique k _ b a hb h.approval ?_
    rw [← he, key_command, hyid]
    exact h.read.commandId.symm
  refine ⟨fun k k' b b' hb hb' he => ?_, fun k b z hb hz hp => ?_, fun k b z hb hz hw => ?_⟩
  · have hback : ∀ {k b}, d.approvals.find k = some b → ∃ b₀, s.db.approvals.find k = some b₀ ∧
        b₀.commandId = b.commandId :=
      fun {k b} hb => by
        rcases hfind hb with ⟨rfl, rfl⟩ | ⟨-, hb⟩
        · exact ⟨a, h.approval, h.sameApproval.commandId.symm⟩
        · exact ⟨b, hb, rfl⟩
    obtain ⟨b₀, hb₀, h₀⟩ := hback hb
    obtain ⟨b₁, hb₁, h₁⟩ := hback hb'
    exact hc.unique k k' b₀ b₁ hb₀ hb₁ (h₀.trans (he.trans h₁.symm))
  · rcases hfind hb with ⟨rfl, rfl⟩ | ⟨hk, hb⟩
    · rw [h.decided] at hp; cases hp
    · exact hc.pending k b z hb (hold hk hb ▸ hz) hp
  · rcases hfind hb with ⟨rfl, rfl⟩ | ⟨hk, hb⟩
    · rw [hcmd, h.commands, ← hyid, show y'.id = key y' from rfl, Table.find_put_self] at hz
      cases hz
      rw [h.queued] at hw; cases hw
    · exact hc.awaiting k b z hb (hold hk hb ▸ hz) hw

theorem chain_coherent {t : Tag} {ws : List Write} (hch : (sys P).Chain (Write.Allowed i t s) s.db ws)
    (hcl : t.Closes P s i ((sys P).applyAll ws s.db)) (hi : Inv P s) (hc : Coherent s.db) :
    Coherent ((sys P).applyAll ws s.db) := by
  refine ⟨fun k k' a a' ha ha' he => ?_, fun k a y ha hy hp => ?_, fun k a y ha hy hw => ?_⟩
  · obtain ⟨b, hb, hs, -⟩ := chain_approval hch ha
    obtain ⟨b', hb', hs', -⟩ := chain_approval hch ha'
    exact hc.unique k k' b b' hb hb' (hs.commandId.symm.trans (he.trans hs'.commandId))
  · obtain ⟨b, hb, hs, hst⟩ := chain_approval hch ha
    have hbp : b.status = .pending := by
      rcases hst with hst | hst | ⟨x, -, -, hst⟩
      · exact hst.symm.trans hp
      · rw [hst] at hp; cases hp
      · rw [hst] at hp; split at hp <;> cases hp
    obtain ⟨x, hx, -⟩ := hi.db.approval k b hb
    rw [hs.commandId] at hy
    rcases chain_waiting hch hx (hc.pending k b x hb hx hbp) hy with hst | ⟨z, rfl, hz⟩
    · exact hst
    · -- the approval of this command is the one that has been rejected
      obtain ⟨b₀, b₁, hb₀, hread, hb₁, hrej⟩ := hcl.approval
      have hk : k = z.approvalId := hc.unique k _ b b₀ hb hb₀ (hz.trans hread.commandId.symm)
      rw [hk, hb₁] at ha
      cases ha
      rw [hrej] at hp; cases hp
  · have hx : ∃ x, s.db.commands.find a.commandId = some x ∧ x.state = .awaitingApproval := by
      rcases (Tx.chain hch hcl).command_find hy with ⟨x, hx, -, hst⟩ | ⟨⟨j, q, df, hm, -⟩, -⟩
      · refine ⟨x, hx, ?_⟩
        rcases hst with hst | hst | ⟨hm, -⟩
        · exact hst.symm.trans hw
        · rw [hst] at hw; cases hw
        · exact absurd hw hm.ne.2.2.2.1
      · cases List.mem_singleton.mp hm
        exact hcl.elim
    obtain ⟨x, hx, hxw⟩ := hx
    obtain ⟨b, hb, hs, hst⟩ := chain_approval hch ha
    rw [hs.commandId] at hx hy
    rcases hst with hst | hst | ⟨z, rfl, hk, -⟩
    · rw [hst]; exact hc.awaiting k b x hb hx hxw
    · exact .inr hst
    · -- a rejection has moved the command on
      obtain ⟨b₀, -, hb₀, hread, -, -⟩ := hcl.approval
      obtain ⟨y', hy', hne, -⟩ := hcl.command
      rw [hk, hb₀] at hb
      cases hb
      rw [hread.commandId, hy'] at hy
      cases hy
      exact absurd hw hne

/-- A pending approval belongs to a command that waits for it, or that has been
cancelled or has expired; and a command that waits has an approval that is pending
or has expired. -/
theorem approval_coherent (h : Reachable P c) {a : Approval} {cmd : Command}
    (ha : c.world.sh.db.approvals.find id = some a) (hc : c.world.sh.db.commands.find a.commandId = some cmd) :
    (a.status = .pending → cmd.state = .awaitingApproval ∨ cmd.state = .cancelled ∨ cmd.state = .expired) ∧
      (cmd.state = .awaitingApproval → a.status = .pending ∨ a.status = .expired) := by
  have hcoh : Coherent c.world.sh.db := by
    refine reach_induct (P := P) (I := fun s => Coherent s.db) (fun d x hi => ?_)
      (fun s s' hi hI hs => ?_) (reachable_real h)
    · refine ⟨?_, ?_, ?_⟩ <;> simp [hi.approvals]
    · rcases hs.store with hd | ⟨j, t, htx, -, -⟩
      · rw [hd]; exact hI
      · generalize s'.db = d at htx ⊢
        cases htx with
        | create hcr => exact hcr.coherent hi hI
        | approve _ happ => exact happ.coherent hI
        | chain hch hcl => exact chain_coherent hch hcl hi hI
  exact ⟨fun hp => by simpa using hcoh.pending id a cmd ha hc hp, fun hw => hcoh.awaiting id a cmd ha hc hw⟩

def awaitingRun : List (Turn Move) := .other (.call (.create (ping true) 7)) :: steps 0 27

theorem approval_coherent_ping : ∃ c a cmd, Reachable demo c ∧ c.world.sh.db.approvals.find 12 = some a ∧
    c.world.sh.db.commands.find a.commandId = some cmd ∧ a.status = .pending ∧
    (cmd.state = .awaitingApproval ∨ cmd.state = .cancelled ∨ cmd.state = .expired) := by
  obtain ⟨c, hr, hc⟩ := played (P := demo) (c := demoStart) (t := awaitingRun)
    (φ := fun c => (c.world.sh.db.approvals.find 12).any fun a =>
      a.status == .pending && (c.world.sh.db.commands.find a.commandId).isSome) (by decide +kernel)
  simp only [Option.any_eq_true, Bool.and_eq_true, beq_iff_eq] at hc
  obtain ⟨a, ha, hp, hsome⟩ := hc
  obtain ⟨cmd, hcmd⟩ := Option.isSome_iff_exists.mp hsome
  have h : Reachable demo c := Reachable.runs demo_reachable hr
  exact ⟨c, a, cmd, h, ha, hcmd, hp, (approval_coherent h ha hcmd).1 hp⟩

/-- The cancellation of a command leaves its approval pending. -/
theorem cancelled_approval_pending : ∃ c a cmd, (sys demo).Serial Init c ∧
    c.world.sh.db.approvals.find 12 = some a ∧
    c.world.sh.db.commands.find a.commandId = some cmd ∧ a.status = .pending ∧ cmd.state = .cancelled ∧
    ¬ (a.status = .pending ↔ cmd.state = .awaitingApproval) := by
  obtain ⟨c, hr, hc⟩ := played_serially (P := demo) (t := awaitingRun ++ .other (.call (.cancel 10 7)) :: steps 1 8)
    (φ := fun c => (c.world.sh.db.approvals.find 12).any fun a =>
      a.status == .pending && (c.world.sh.db.commands.find a.commandId).any (·.state == .cancelled)) demo_initial
    (by decide +kernel)
  simp only [Option.any_eq_true, Bool.and_eq_true, beq_iff_eq] at hc
  obtain ⟨a, ha, hp, cmd, hcmd, hst⟩ := hc
  refine ⟨c, a, cmd, hr, ha, hcmd, hp, hst, fun hiff => ?_⟩
  have := hiff.mp hp
  rw [hst] at this
  cases this

end

end Veyaan
