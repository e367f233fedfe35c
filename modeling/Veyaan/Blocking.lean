import Veyaan.Switches

/-!
# No command is queued under an active stop

`activate` blocks the commands that are queued when it selects them, and
`create_command` and `decide_approval` queue a command only after `is_active` has
answered that there is no stop. Neither looks again when it commits: a command
that is queued between the selection and the commit of the activation, or after
that commit by a call that had asked before, is queued under an active stop.
-/

open Relation (ReflTransGen)

namespace Veyaan

open Sys

def DB.Waits (d : DB) (o id : UUID) : Prop :=
  ∃ c, d.commands.find id = some c ∧ d.ownerOf c.deviceId = some o ∧ (c.state = .queued ∨ c.state = .approved)

def DB.Halted (d : DB) : Prop := ∀ o id, d.stopActive o = true → ¬ d.Waits o id

def Tag.Queues (d : DB) (o : UUID) : Tag → Prop
  | .create _ r => d.ownerOf r.deviceId = some o ∧
      ∀ df, commandRegistry r.commandType = some df → (df.requiresApproval || r.requiresApproval) = false
  | .decide x => x.approve = true ∧ x.ownerId = o
  | _ => False

structure Fenced (P : Params) (c c' : Conf) : Prop where
  step : (sys P).Step c c'
  queue : ∀ i t o, c'.world.sh.trace = c.world.sh.trace ++ [(i, .committed t)] → t.Queues c.world.sh.db o →
    c.world.sh.db.stopActive o = false
  activate : ∀ i o ids, c'.world.sh.trace = c.world.sh.trace ++ [(i, .committed (.activate o))] →
    Selected c.world.sh.trace i o ids → ∀ id, c.world.sh.db.Waits o id → id ∈ ids

section
variable {P : Params} {s : St} {i : Nat} {t : Tag} {d : DB} {o id : UUID}

/-- What waits after a transaction that queues nothing of the owner has waited
before. -/
theorem Tx.waits (h : Tx P s i t d) (hi : Inv P s) (ht : ¬ t.Queues s.db o)
    (hw : d.Waits o id) : s.db.Waits o id := by
  have hl := h.later
  obtain ⟨c, hc, ho, hst⟩ := hw
  -- a command that was there has kept its owner
  have hold : ∀ c₀, s.db.commands.find id = some c₀ → c₀.Same c → c.state = c₀.state → s.db.Waits o id := by
    intro c₀ hc₀ hs hstate
    obtain ⟨p, hp⟩ := hi.db.device id c₀ hc₀
    have := hl.ownerOf hp
    rw [← hs.deviceId, ho] at this
    cases this
    exact ⟨c₀, hc₀, hp, hstate ▸ hst⟩
  cases h with
  | @create _ q x r p h =>
    rw [h.commands, Table.find_put] at hc
    split at hc
    swap
    · exact hold c hc (.refl c) rfl
    cases hc
    rcases h.form with ⟨-, ha, -⟩ | ⟨hreq, -⟩
    · rw [ha] at hst
      rcases hst with hst | hst <;> cases hst
    · obtain ⟨df, hdf, hr⟩ := h.request
      rw [DB.ownerOf, h.devices, h.device] at ho
      refine absurd ⟨ho, fun df' hdf' => ?_⟩ ht
      rw [hdf] at hdf'
      cases hdf'
      rw [← hr, hreq]
  | @approve x _ y y' e a a' hx h =>
    rw [h.commands, Table.find_put] at hc
    split at hc
    swap
    · exact hold c hc (.refl c) rfl
    cases hc
    have := hl.ownerOf h.owner
    rw [← h.same.deviceId, ho] at this
    cases this
    exact absurd ⟨hx, rfl⟩ ht
  | chain hch =>
    have hkeep := hch.keeps (I := fun d => ∀ c, d.commands.find id = some c →
      c.state = .queued ∨ c.state = .approved →
      ∃ c₀, s.db.commands.find id = some c₀ ∧ c₀.Same c ∧ c.state = c₀.state) (fun d w hw hd c hc hst => by
        obtain ⟨c₁, hc₁, hs, hm⟩ := hw.command_find hc
        have hsame : c.state = c₁.state := by
          refine hm.resolve_right fun hm => ?_
          rcases hst with hst | hst
          · exact hm.1.ne.2.2.2.2 hst
          · exact hm.1.ne.2.2.1 hst
        obtain ⟨c₀, hc₀, hs₀, hst₀⟩ := hd c₁ hc₁ (hsame ▸ hst)
        exact ⟨c₀, hc₀, hs₀.trans hs, hsame.trans hst₀⟩) fun c hc _ => ⟨c, hc, .refl c, rfl⟩
    obtain ⟨c₀, hc₀, hs, hstate⟩ := hkeep c hc hst
    exact hold c₀ hc₀ hs hstate

theorem stopActive_of_frame {d' : DB} (h : StopFrame d d' o) : d'.stopActive o = d.stopActive o := by
  rw [DB.stopActive, h.stop]
  rfl

theorem Tx.blocked (h : Tx P s i (.activate o) d) : Blocked s i o d := by
  cases h with
  | chain _ hcl => exact hcl.2

theorem Tx.halted (h : Tx P s i t d) (hi : Inv P s) (hq : ∀ o, t.Queues s.db o → s.db.stopActive o = false)
    (ha : ∀ o ids, t = .activate o → Selected s.trace i o ids → ∀ id, s.db.Waits o id → id ∈ ids)
    (hh : s.db.Halted) : d.Halted := by
  intro o id hact hw
  by_cases ht : ∃ on, t.stop = some (o, on)
  · obtain ⟨on, ht⟩ := ht
    obtain ⟨r, hr, hon, -⟩ := (h.switched ht).row
    rw [DB.stopActive, hr] at hact
    obtain rfl : on = true := hon.symm.trans (by simpa using hact)
    cases t with
    | activate p =>
      cases ht
      have hw₀ := h.waits hi (fun hf => hf.elim) hw
      obtain ⟨ids, hsel, hblock⟩ := h.blocked
      obtain ⟨c, hc, -, hst | hst⟩ := hw
      · exact hblock id (ha _ ids rfl hsel id hw₀) c hc hst
      · exact (h.inv hi).db.live id c hc |>.2.2 hst
    | _ => cases ht
  · have hframe := stopActive_of_frame (h.stopFrame fun on hon => ht ⟨on, hon⟩)
    rw [hframe] at hact
    by_cases hQ : t.Queues s.db o
    · rw [hq o hQ] at hact
      cases hact
    · exact hh o id hact (h.waits hi hQ hw)

end

section
variable {P : Params} {c c' : Conf}

theorem Fenced.halted (h : Reachable P c) (hs : Fenced P c c') (hh : c.world.sh.db.Halted) :
    c'.world.sh.db.Halted := by
  rcases step_tx h hs.step with hd | ⟨i, t, _, ht, -⟩
  · rw [hd]
    exact hh
  obtain ⟨s₁, htr, hd, hi, htx⟩ := step_commits h hs.step ht
  refine htx.halted hi (fun o hq => ?_) (fun o ids he hsel id hw => ?_) (hd ▸ hh)
  · rw [hd] at hq ⊢
    exact hs.queue i t o ht hq
  · subst he
    exact hs.activate i o ids ht (htr ▸ hsel) id (hd ▸ hw)

/-- **No command is queued under an active stop** in a run in which no command is
queued while the owner's stop is active, and no stop becomes active after a command
of the owner was queued behind its selection. -/
theorem halted_under_stop {c₀ : Conf} (h₀ : Initial Init c₀) (h : ReflTransGen (Fenced P) c₀ c) :
    c.world.sh.db.Halted := by
  have : Reachable P c ∧ c.world.sh.db.Halted := by
    induction h with
    | refl =>
      refine ⟨.init h₀, fun o id _ hw => ?_⟩
      obtain ⟨x, hx, -⟩ := hw
      rw [h₀.init.commands] at hx
      cases hx
    | tail _ hs ih => exact ⟨.step ih.1 hs.step, hs.halted ih.1 ih.2⟩
  exact this.2

def fences (c : Conf) (i : Nat) : Tag → Bool
  | .create _ r => (c.world.sh.db.ownerOf r.deviceId).all fun o => !c.world.sh.db.stopActive o
  | .decide x => !c.world.sh.db.stopActive x.ownerId
  | .activate o => c.world.sh.trace.all fun
    | (j, .selected p ids) => j != i || p != o || (c.world.sh.db.blockable o).all fun id => decide (id ∈ ids)
    | _ => true
  | _ => true

def fenced (P : Params) (c : Conf) (u : Turn Move) : Bool :=
  (turn (moves P) c u).all fun c' => (c'.world.sh.trace.drop c.world.sh.trace.length).all fun
    | (i, .committed t) => fences c i t
    | _ => true

theorem DB.Waits.blockable {d : DB} {o id : UUID} (h : d.Waits o id) : id ∈ d.blockable o := by
  obtain ⟨x, hx, ho, hst⟩ := h
  have hid : x.id = id := by simpa using Table.key_of_find hx
  refine List.mem_map.mpr ⟨x, List.mem_filter.mpr ⟨Table.mem_of_find hx, ?_⟩, hid⟩
  rw [ho, Bool.and_eq_true, Bool.or_eq_true, beq_iff_eq, beq_iff_eq, beq_iff_eq]
  exact ⟨rfl, hst⟩

theorem fenced_step {u : Turn Move} (hu : fenced P c u = true) (h : turn (moves P) c u = some c') :
    Fenced P c c' := by
  have hcommit : ∀ i t, c'.world.sh.trace = c.world.sh.trace ++ [(i, .committed t)] → fences c i t = true := by
    intro i t ht
    rw [fenced, h, Option.all_some, ht, List.drop_left] at hu
    simpa using hu
  refine ⟨turn_step _ h, fun i t o ht hq => ?_, fun i o ids ht hsel id hw => ?_⟩
  · have hf := hcommit i t ht
    cases t with
    | create id r =>
      rw [fences, hq.1] at hf
      simpa using hf
    | decide x =>
      rw [fences, hq.2] at hf
      simpa using hf
    | _ => cases hq
  · have hf := hcommit i _ ht
    obtain ⟨l₁, l₂, hown, -⟩ := hsel
    have hm : (i, Ev.selected o ids) ∈ c.world.sh.trace := mem_own.mp (by rw [hown]; simp)
    have := List.all_eq_true.mp hf _ hm
    simp only [bne_self_eq_false, Bool.false_or, List.all_eq_true, decide_eq_true_eq] at this
    exact this id hw.blockable

/-- A ping is queued, and the stop that is activated afterwards blocks it. -/
theorem halted_under_stop_blocked : ∃ c₀ c cmd, Initial Init c₀ ∧ ReflTransGen (Fenced demo) c₀ c ∧
    c.world.sh.db.stopActive 7 = true ∧ c.world.sh.db.commands.find 10 = some cmd ∧
    c.world.sh.db.ownerOf cmd.deviceId = some 7 ∧ cmd.state ≠ .queued := by
  have hplay : (playIf (moves demo) (fenced demo) (.other (.call (.create (ping false) 7)) ::
      .other (.call (.activate 7 "x" 7)) :: steps 0 26 ++ steps 1 20) demoStart).any (fun c =>
        c.world.sh.db.stopActive 7 &&
          (c.world.sh.db.commands.find 10).any fun x => c.world.sh.db.ownerOf x.deviceId == some 7) = true := by
    decide +kernel
  obtain ⟨c, hc, hφ⟩ := (Option.any_eq_true _ _).mp hplay
  simp only [Bool.and_eq_true, Option.any_eq_true, beq_iff_eq] at hφ
  obtain ⟨hact, cmd, hcmd, ho⟩ := hφ
  have hr : ReflTransGen (Fenced demo) demoStart c := playIf_runs _ (Q := Fenced demo) fenced_step hc
  exact ⟨demoStart, c, cmd, demo_initial, hr, hact, hcmd, ho, fun hst =>
    halted_under_stop demo_initial hr 7 10 hact ⟨cmd, hcmd, ho, .inl hst⟩⟩

/-- `create_command` has asked `is_active`; the stop is activated; the command is
queued. -/
theorem queued_under_stop : ∃ c, Reachable demo c ∧ ¬ c.world.sh.db.Halted := by
  obtain ⟨c, hr, hφ⟩ := played (P := demo) (c := demoStart) (t := .other (.call (.create (ping false) 7)) ::
    .other (.call (.activate 7 "x" 7)) :: steps 0 5 ++ steps 1 15 ++ steps 0 21)
    (φ := fun c => c.world.sh.db.stopActive 7 && (c.world.sh.db.commands.find 10).any fun x =>
      c.world.sh.db.ownerOf x.deviceId == some 7 && x.state == .queued) (by decide +kernel)
  simp only [Bool.and_eq_true, Option.any_eq_true, beq_iff_eq] at hφ
  obtain ⟨hact, cmd, hcmd, ho, hst⟩ := hφ
  exact ⟨c, Reachable.runs demo_reachable hr, fun hh => hh 7 10 hact ⟨cmd, hcmd, ho, .inl hst⟩⟩

end

end Veyaan
