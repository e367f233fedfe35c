import Veyaan.Lib.Matched
import Veyaan.Serial.Sessions

/-!
# Device sessions

What the four lifecycle consumers make of the messages about one queued command,
in the order of their publication or in any other: a message that comes out of
its turn is lost, or raises and is delivered again.
-/

namespace Veyaan

open Sys

/-! ## Sessions in order -/

inductive InOrder (P : Params) : DB → List (Lifecycle × UUID × LifecyclePayload) → DB → Prop
  | nil {d} : InOrder P d [] d
  | cons {d d₁ d' k id p res ms} : Consumed P d k p res d₁ → InOrder P d₁ ms d' → InOrder P d ((k, id, p) :: ms) d'

theorem inOrder_exists (P : Params) : ∀ (ms : List (Lifecycle × UUID × LifecyclePayload)) (d : DB),
    ∃ d', InOrder P d ms d'
  | [], d => ⟨d, .nil⟩
  | (k, id, p) :: ms, d => by
    obtain ⟨res, d₁, h⟩ := consumed_exists P d k p
    obtain ⟨d', h'⟩ := inOrder_exists P ms d₁
    exact ⟨d', .cons h h'⟩

section
variable {P : Params} {r : Report} {c₀ : Command} {t₀ : Task} {d d' : DB} {j : Nat}

theorem Report.says_opening {dev id : UUID} {m : Lifecycle × UUID × LifecyclePayload} (h : m ∈ r.opening dev id) :
    r.Says dev id m.1 m.2.2 := by
  simp only [Report.opening, Frame.message, List.filterMap_cons, List.filterMap_nil,
    List.mem_cons, List.not_mem_nil, or_false] at h
  rcases h with rfl | rfl
  · exact ⟨rfl, rfl, fun hk => (by cases hk), fun hk => (by cases hk)⟩
  · exact ⟨rfl, rfl, fun _ => ⟨rfl, rfl⟩, fun hk => (by cases hk)⟩

theorem Report.says_messages {dev id : UUID} {m : Lifecycle × UUID × LifecyclePayload} (h : m ∈ r.messages dev id) :
    r.Says dev id m.1 m.2.2 := by
  rcases List.mem_append.mp h with h | h
  · exact says_opening h
  obtain ⟨f, hf, hm⟩ := List.mem_filterMap.mp h
  simp only [Report.frames, List.mem_append, List.mem_map, List.mem_singleton] at hf
  rcases hf with ⟨s, -, rfl⟩ | rfl
  · cases hm
    exact ⟨rfl, rfl, nofun, nofun⟩
  · cases hm
    exact ⟨rfl, rfl, nofun, fun _ => ⟨rfl, rfl, rfl, rfl⟩⟩

theorem Report.kinds_messages (dev id : UUID) : (r.messages dev id).map Prod.fst =
    [.delivered, .acknowledged] ++ List.replicate r.progress.length .progress ++ [.result] := by
  have hp : ∀ l : List (Option Int × Option String), ((l.map fun s => Frame.progress id s.1 s.2).filterMap
      (Frame.message dev)).map Prod.fst = List.replicate l.length .progress := fun l => by
    induction l with
    | nil => rfl
    | cons s l ih => simpa [Frame.message, List.replicate_succ] using ih
  simp only [Report.messages, Report.frames, Report.opening, List.filterMap_append, List.map_append, hp]
  rfl

theorem At.inOrder {ms : List (Lifecycle × UUID × LifecyclePayload)} (hd : InOrder P d ms d') (h : At r c₀ t₀ d j)
    (hs : ∀ m ∈ ms, r.Says c₀.deviceId c₀.id m.1 m.2.2) :
    At r c₀ t₀ d' (j + matched (r.chain.drop j) (ms.map Prod.fst)) := by
  induction hd generalizing j with
  | nil => simpa using h
  | @cons d d₁ d' k id p res ms hk _ ih =>
    have := ih (h.consume (hs _ (List.mem_cons_self ..)) hk) fun m hm => hs m (List.mem_cons_of_mem _ hm)
    rw [matched_step] at this
    exact this

theorem queued_at {c : Conf} (h : Reachable P c) {id : UUID} {cmd : Command}
    (hc : c.world.sh.db.commands.find id = some cmd) (hq : cmd.state = .queued) (r : Report) :
    ∃ t, c.world.sh.db.tasks.find id = some t ∧ At r cmd t c.world.sh.db 0 := by
  have hi := (reachable_inv h).db
  have hid : cmd.id = id := by simpa using Table.key_of_find hc
  obtain ⟨t, ht⟩ := hi.task id cmd hc
  refine ⟨t, ht, ⟨cmd, hid ▸ hc, hq, rfl, rfl⟩, ⟨t, hid ▸ ht, rfl⟩, reachable_fits h, fun k _ => ?_, Nat.zero_le _⟩
  refine ⟨fun _ => Nat.zero_le _, fun _ => List.filter_eq_nil_iff.mpr fun e he hk => ?_⟩
  simp only [Bool.and_eq_true, beq_iff_eq] at hk
  obtain ⟨x, hx, -, hne⟩ := hi.dedup e he (by rw [hk.2]; rfl)
  rw [hk.1, hid, hc] at hx
  cases hx
  exact hne hq

def Report.Recorded (r : Report) (d : DB) (id : UUID) : Prop :=
  ∃ c t, d.commands.find id = some c ∧ d.tasks.find id = some t ∧
    if r.accepted then
      if r.success then c.state = .succeeded ∧ c.resultData = r.resultData ∧ t.state = .succeeded
      else c.state = .failed ∧ c.errorCode = r.errorCode ∧ c.errorMessage = r.errorMessage ∧ t.state = .failed
    else c.state = .failed ∧ c.errorMessage = r.rejectionReason ∧ t.state = .failed

theorem stateAt_of_ended {s : CommandState} (h : r.stateAt j = s) (hs : s = .succeeded ∨ s = .failed) : 4 ≤ j := by
  refine Nat.le_of_not_lt fun hlt => ?_
  have hj : j = 0 ∨ j = 1 ∨ j = 2 ∨ j = 3 := by omega
  rcases hj with rfl | rfl | rfl | rfl <;> rcases hs with rfl | rfl <;> cases h

theorem At.recorded (h : At r c₀ t₀ d j) : r.Recorded d c₀.id ↔ j = 4 := by
  have hlen := r.length_chain
  have hj := h.length
  obtain ⟨c, hc, hst, -, hcols⟩ := h.command
  obtain ⟨t, ht, htst⟩ := h.task
  constructor
  · rintro ⟨c', t', hc', -, hrec⟩
    cases hc.symm.trans hc'
    have : 4 ≤ j := by
      split at hrec
      · split at hrec
        · exact stateAt_of_ended (hst.symm.trans hrec.1) (.inl rfl)
        · exact stateAt_of_ended (hst.symm.trans hrec.1) (.inr rfl)
      · exact stateAt_of_ended (hst.symm.trans hrec.1) (.inr rfl)
    omega
  · rintro rfl
    have hacc : r.accepted = true := by
      cases hb : r.accepted with
      | true => rfl
      | false => have := hlen.2.1 hb; omega
    refine ⟨c, t, hc, ht, ?_⟩
    rw [if_pos hacc]
    cases hb : r.success with
    | true =>
      simp only [Report.columnsAt, Nat.lt_irrefl, if_false, hb, if_true, Prod.mk.injEq] at hcols
      simp only [if_true]
      exact ⟨by rw [hst, stateAt_end, if_pos hb], hcols.1, by rw [htst, taskAt_end, if_pos hb]⟩
    | false =>
      simp only [Report.columnsAt, Nat.lt_irrefl, if_false, hb, Bool.false_eq_true, Prod.mk.injEq] at hcols
      simp only [Bool.false_eq_true, if_false]
      exact ⟨by rw [hst, stateAt_end, if_neg (by simp [hb])], hcols.2.1, hcols.2.2,
        by rw [htst, taskAt_end, if_neg (by simp [hb])]⟩

theorem Report.chain_full (hacc : r.accepted = true) (hf : r.fits = true) :
    r.chain = [.delivered, .acknowledged, .progress, .result] := by
  simp [Report.chain, hacc, hf]

theorem Report.matched_session (dev id : UUID) : matched r.chain ((r.session dev id).map Prod.fst) = 4 ↔
    r.accepted = true ∧ r.progress ≠ [] ∧ r.fits = true := by
  have hlen := r.length_chain
  have hle := matched_le_length r.chain ((r.session dev id).map Prod.fst)
  constructor
  · intro hm
    have hacc : r.accepted = true := by
      cases hb : r.accepted with
      | true => rfl
      | false => have := hlen.2.1 hb; omega
    have hf : r.fits = true := by
      cases hb : r.fits with
      | true => rfl
      | false => have := hlen.2.2 hb; omega
    refine ⟨hacc, fun hp => ?_, hf⟩
    rw [Report.chain_full hacc hf, Report.session, if_pos hacc, kinds_messages, hp] at hm
    revert hm
    decide
  · rintro ⟨hacc, hp, hf⟩
    obtain ⟨x, l, hl⟩ := List.exists_cons_of_ne_nil hp
    have hsub : r.chain.Sublist ((r.session dev id).map Prod.fst) := by
      rw [Report.chain_full hacc hf, Report.session, if_pos hacc, kinds_messages, hl,
        List.length_cons, List.replicate_succ]
      refine .cons_cons _ (.cons_cons _ (.cons_cons _ ?_))
      exact List.sublist_append_right ..
    have := (matched_append r.chain [] _ (by simp)).mpr hsub
    rw [List.append_nil] at this
    rw [this, Report.chain_full hacc hf]
    rfl

theorem says_session {dev id : UUID} {m : Lifecycle × UUID × LifecyclePayload} (h : m ∈ r.session dev id) :
    r.Says dev id m.1 m.2.2 := by
  unfold Report.session at h
  split at h
  · exact Report.says_messages h
  · exact Report.says_opening h

theorem recorded_iff_matched {c : Conf} (h : Reachable P c) {id : UUID} {cmd : Command}
    (hc : c.world.sh.db.commands.find id = some cmd) (hq : cmd.state = .queued) (r : Report)
    (hd : InOrder P c.world.sh.db (r.session cmd.deviceId id) d') :
    r.Recorded d' id ↔ r.accepted = true ∧ r.progress ≠ [] ∧ r.fits = true := by
  have hid : cmd.id = id := by simpa using Table.key_of_find hc
  subst hid
  obtain ⟨t, -, hat⟩ := queued_at h hc hq r
  have hend := hat.inOrder hd fun m hm => says_session hm
  rw [Nat.zero_add, List.drop_zero] at hend
  rw [hend.recorded, Report.matched_session]

end

def pong (progress : List (Option Int × Option String)) : Report where
  accepted := true
  rejectionReason := none
  progress := progress
  success := true
  resultData := some (.obj [])
  errorCode := none
  errorMessage := none

/-- What has not been acknowledged: the payloads of each subject, in order, with the
number of times that they have been delivered. -/
abbrev Backlog := Lifecycle → List (LifecyclePayload × Nat)

def backlog (ms : List (Lifecycle × UUID × LifecyclePayload)) : Backlog := fun k =>
  (ms.filter (·.1 = k)).map fun m => (m.2.2, 0)

def Backlog.set (q : Backlog) (k : Lifecycle) (l : List (LifecyclePayload × Nat)) : Backlog := fun k' =>
  if k' = k then l else q k'

/-- `max_deliver` of the subscriptions. -/
def maxDeliver : Nat := 5

def redeliver (p : LifecyclePayload) (n : Nat) (rest : List (LifecyclePayload × Nat)) :
    List (LifecyclePayload × Nat) :=
  if n + 1 < maxDeliver then (p, n + 1) :: rest else rest

inductive Served (P : Params) : DB → Backlog → List Lifecycle → DB → Prop
  | done {d q} : (∀ k, q k = []) → Served P d q [] d
  | ack {d d₁ d' q k p n rest ks} : q k = (p, n) :: rest → Consumed P d k p (.ok ()) d₁ →
      Served P d₁ (q.set k rest) ks d' → Served P d q (k :: ks) d'
  | nak {d d₁ d' q k p n rest ks e} : q k = (p, n) :: rest → Consumed P d k p (.error e) d₁ →
      Served P d₁ (q.set k (redeliver p n rest)) ks d' → Served P d q (k :: ks) d'

section
variable {P : Params} {r : Report} {c₀ : Command} {t₀ : Task} {d d' : DB} {j : Nat}
    {q : Backlog} {ks : List Lifecycle}

def serve (P : Params) : List Lifecycle → DB → Backlog → Option DB
  | [], d, q => if [.delivered, .acknowledged, .progress, .result].all fun k => (q k).isEmpty then some d else none
  | k :: ks, d, q =>
    match q k with
    | [] => none
    | (p, n) :: rest =>
      match (sys P).finish 0 (handler k p) (fresh d demoExt).world with
      | none => none
      | some (.ok _, w) => serve P ks w.sh.db (q.set k rest)
      | some (.error _, w) => serve P ks w.sh.db (q.set k (redeliver p n rest))

theorem serve_served : ∀ {ks : List Lifecycle} {d : DB} {q : Backlog}, serve P ks d q = some d' → Served P d q ks d'
  | [], d, q, h => by
    simp only [serve] at h
    split at h <;> cases h
    rename_i hq
    simp only [List.all_cons, List.all_nil, Bool.and_true, Bool.and_eq_true, List.isEmpty_iff] at hq
    exact .done fun k => by cases k <;> simp [hq]
  | k :: ks, d, q, h => by
    simp only [serve] at h
    split at h
    · cases h
    rename_i p n rest hq
    split at h
    · cases h
    · rename_i w he
      exact .ack hq ⟨_, _, w, finish_alone he, rfl⟩ (serve_served h)
    · rename_i e w he
      exact .nak hq ⟨_, _, w, finish_alone he, rfl⟩ (serve_served h)

theorem Backlog.mem_set {k k' : Lifecycle} {l : List (LifecyclePayload × Nat)} {e : LifecyclePayload × Nat}
    (h : e ∈ q.set k l k') : k' = k ∧ e ∈ l ∨ e ∈ q k' := by
  unfold Backlog.set at h
  split at h
  · exact .inl ⟨‹_›, h⟩
  · exact .inr h

theorem mem_redeliver {p : LifecyclePayload} {n : Nat} {rest : List (LifecyclePayload × Nat)}
    {e : LifecyclePayload × Nat} (h : e ∈ redeliver p n rest) : e.1 = p ∨ e ∈ rest := by
  unfold redeliver at h
  split at h
  · rcases List.mem_cons.mp h with rfl | h
    · exact .inl rfl
    · exact .inr h
  · exact .inr h

/-- Whatever the order, the messages take effect one after the other. -/
theorem At.served (hd : Served P d q ks d') (h : At r c₀ t₀ d j)
    (hs : ∀ k, ∀ e ∈ q k, r.Says c₀.deviceId c₀.id k e.1) : At r c₀ t₀ d' (j + matched (r.chain.drop j) ks) := by
  induction hd generalizing j with
  | done => simpa using h
  | @ack d d₁ d' q k p n rest ks hq hk _ ih =>
    have := ih (h.consume (hs k (p, n) (by rw [hq]; exact List.mem_cons_self ..)) hk) fun k' e he => by
      rcases Backlog.mem_set he with ⟨rfl, hm⟩ | hm
      · exact hs _ e (by rw [hq]; exact List.mem_cons_of_mem _ hm)
      · exact hs k' e hm
    rw [matched_step] at this
    exact this
  | @nak d d₁ d' q k p n rest ks e hq hk _ ih =>
    have hp : r.Says c₀.deviceId c₀.id k p := hs k (p, n) (by rw [hq]; exact List.mem_cons_self ..)
    have := ih (h.consume hp hk) fun k' e he => by
      rcases Backlog.mem_set he with ⟨rfl, hm⟩ | hm
      · rcases mem_redeliver hm with hm | hm
        · rw [hm]; exact hp
        · exact hs _ e (by rw [hq]; exact List.mem_cons_of_mem _ hm)
      · exact hs k' e hm
    rw [matched_step] at this
    exact this

theorem Served.mem (h : Served P d q ks d') (k : Lifecycle) : k ∈ ks ↔ q k ≠ [] := by
  induction h with
  | done hq => simp [hq k]
  | @ack d d₁ d' q k' p n rest ks hq _ _ ih =>
    by_cases hk : k = k'
    · subst hk; simp [hq]
    · rw [List.mem_cons, ih, Backlog.set, if_neg hk]; simp [hk]
  | @nak d d₁ d' q k' p n rest ks e hq _ _ ih =>
    by_cases hk : k = k'
    · subst hk; simp [hq]
    · rw [List.mem_cons, ih, Backlog.set, if_neg hk]; simp [hk]

def DB.outcome (d : DB) (id : UUID) :
    Option (CommandState × Option Json × Option String × Option String) × Option TaskState :=
  ((d.commands.find id).map fun c => (c.state, c.resultData, c.errorCode, c.errorMessage),
    (d.tasks.find id).map Task.state)

theorem At.outcome (h : At r c₀ t₀ d j) :
    d.outcome c₀.id = (some (r.stateAt j, r.columnsAt c₀ j), some (r.taskAt t₀.state j)) := by
  obtain ⟨c, hc, hst, -, hcols⟩ := h.command
  obtain ⟨t, ht, htst⟩ := h.task
  rw [DB.outcome, hc, ht, ← hcols, ← hst, ← htst]
  rfl

theorem stateAt_inj {j' : Nat} (hj : j ≤ 4) (hj' : j' ≤ 4) (h : r.stateAt j = r.stateAt j') : j = j' := by
  have hcases : ∀ {n : Nat}, n ≤ 4 → n = 0 ∨ n = 1 ∨ n = 2 ∨ n = 3 ∨ n = 4 := fun h => by omega
  have hend := stateAt_end r
  rcases hcases hj with rfl | rfl | rfl | rfl | rfl <;> rcases hcases hj' with rfl | rfl | rfl | rfl | rfl <;>
    first
      | rfl
      | cases h
      | (rw [hend] at h; split at h <;> cases h)

theorem At.outcome_eq_iff {j' : Nat} (h : At r c₀ t₀ d j) (h' : At r c₀ t₀ d' j') :
    d.outcome c₀.id = d'.outcome c₀.id ↔ j = j' := by
  have hlen := r.length_chain.1
  rw [h.outcome, h'.outcome]
  constructor
  · intro he
    simp only [Prod.mk.injEq, Option.some.injEq] at he
    exact stateAt_inj (Nat.le_trans h.length hlen) (Nat.le_trans h'.length hlen) he.1.1
  · rintro rfl; rfl

/-- The messages that have to be handled in this order. -/
def Report.needed (r : Report) : List Lifecycle :=
  if r.accepted then
    if r.progress = [] then [.delivered, .acknowledged]
    else [.delivered, .acknowledged, .progress] ++ if r.fits then [.result] else []
  else [.delivered]

theorem backlog_messages (dev id : UUID) (k : Lifecycle) :
    backlog (r.messages dev id) k ≠ [] ↔ (k = .progress → r.progress ≠ []) := by
  have : backlog (r.messages dev id) k ≠ [] ↔ k ∈ (r.messages dev id).map Prod.fst := by
    simp only [backlog, ne_eq, List.map_eq_nil_iff, List.filter_eq_nil_iff, List.mem_map]
    grind
  rw [this, Report.kinds_messages]
  cases k <;> cases r.progress <;> simp

theorem matched_needed (hks : .progress ∈ ks ↔ r.progress ≠ []) :
    matched r.chain ks = r.needed.length ↔ r.needed.Sublist ks := by
  unfold Report.chain Report.needed
  cases r.accepted with
  | false =>
    have := matched_append [Lifecycle.delivered] [] ks (by simp)
    simpa using this
  | true =>
    simp only [if_true]
    by_cases hp : r.progress = []
    · simp only [hp, if_true]
      have hnot : .progress ∉ ks := fun h => hks.mp h hp
      exact matched_append [Lifecycle.delivered, .acknowledged] (.progress :: if r.fits then [.result] else []) _
        (by rintro a ⟨rfl⟩; exact hnot)
    · simp only [hp, if_false]
      generalize ([Lifecycle.delivered, .acknowledged, .progress] ++ if r.fits then [.result] else []) = l
      have := matched_append l [] ks (by simp)
      rwa [List.append_nil] at this

/-- In the order of publication all the messages take effect that can. -/
theorem needed_sublist (hpub : ks.Pairwise (·.rank ≤ ·.rank))
    (hks : ∀ k, k ∈ ks ↔ (k = .progress → r.progress ≠ [])) :
    r.needed.Sublist ks := by
  refine sublist_of_sorted (f := Lifecycle.rank) (fun _ _ => rank_inj) ?_ hpub fun k hk => (hks k).mpr ?_
  · unfold Report.needed
    cases r.accepted <;> cases r.fits <;> by_cases hp : r.progress = [] <;> simp [hp, Lifecycle.rank]
  · rintro rfl hp
    unfold Report.needed at hk
    revert hk
    cases r.accepted <;> simp [hp]

/-- The outcome does not depend on the order, just when these messages are handled
in their order. -/
theorem confluent_iff {c : Conf} (h : Reachable P c) {id : UUID} {cmd : Command}
    (hc : c.world.sh.db.commands.find id = some cmd) (hq : cmd.state = .queued) (r : Report)
    {pub : List Lifecycle} {d₀ : DB} (hpub : pub.Pairwise (·.rank ≤ ·.rank))
    (h₀ : Served P c.world.sh.db (backlog (r.messages cmd.deviceId id)) pub d₀)
    (h₁ : Served P c.world.sh.db (backlog (r.messages cmd.deviceId id)) ks d') :
    d'.outcome id = d₀.outcome id ↔ r.needed.Sublist ks := by
  have hid : cmd.id = id := by simpa using Table.key_of_find hc
  subst hid
  obtain ⟨t, -, hat⟩ := queued_at h hc hq r
  have hsaid : ∀ k, ∀ e ∈ backlog (r.messages cmd.deviceId cmd.id) k,
      r.Says cmd.deviceId cmd.id k e.1 := fun k e he => by
    obtain ⟨m, hm, rfl⟩ := List.mem_map.mp he
    obtain ⟨hm, hk⟩ := List.mem_filter.mp hm
    rw [decide_eq_true_eq] at hk
    exact hk ▸ Report.says_messages hm
  have hmem : ∀ {l d}, Served P c.world.sh.db (backlog (r.messages cmd.deviceId cmd.id)) l d →
      ∀ k, k ∈ l ↔ (k = .progress → r.progress ≠ []) := fun hl k => (hl.mem k).trans (backlog_messages ..)
  have hend := hat.served h₁ hsaid
  have hend₀ := hat.served h₀ hsaid
  rw [Nat.zero_add, List.drop_zero] at hend hend₀
  have hall : matched r.chain pub = r.needed.length :=
    (matched_needed (by simpa using hmem h₀ .progress)).mpr (needed_sublist hpub (hmem h₀))
  rw [hall] at hend₀
  rw [hend.outcome_eq_iff hend₀]
  exact matched_needed (by simpa using hmem h₁ .progress)

end

theorem pong_served (ks : List Lifecycle) {φ : DB → DB → Bool}
    (h : (play (moves demo) publishedRun demoStart).any (fun c => (c.world.sh.db.commands.find 10).any fun cmd =>
      cmd.state == .queued &&
        (serve demo [.delivered, .acknowledged, .progress, .result] c.world.sh.db
          (backlog ((pong [(none, none)]).messages cmd.deviceId 10))).any fun d₀ =>
        (serve demo ks c.world.sh.db (backlog ((pong [(none, none)]).messages cmd.deviceId 10))).any
        fun d => φ d₀ d) = true) :
    ∃ c cmd d₀ d, Reachable demo c ∧ c.world.sh.db.commands.find 10 = some cmd ∧ cmd.state = .queued ∧
      Served demo c.world.sh.db (backlog ((pong [(none, none)]).messages cmd.deviceId 10))
        [.delivered, .acknowledged, .progress, .result] d₀ ∧
      Served demo c.world.sh.db (backlog ((pong [(none, none)]).messages cmd.deviceId 10)) ks d ∧
      φ d₀ d = true := by
  obtain ⟨c, hr, hc⟩ := played (P := demo) (c := demoStart) h
  simp only [Option.any_eq_true, Bool.and_eq_true, beq_iff_eq] at hc
  obtain ⟨cmd, hcmd, hst, d₀, h₀, d, hd, hφ⟩ := hc
  exact ⟨c, cmd, d₀, d, Reachable.runs demo_reachable hr, hcmd, hst, serve_served h₀, serve_served hd, hφ⟩

theorem confluent_in_turn : ∃ c cmd d₀ d, Reachable demo c ∧ c.world.sh.db.commands.find 10 = some cmd ∧
    cmd.state = .queued ∧
    Served demo c.world.sh.db (backlog ((pong [(none, none)]).messages cmd.deviceId 10))
      [.delivered, .acknowledged, .progress, .result] d₀ ∧
    Served demo c.world.sh.db (backlog ((pong [(none, none)]).messages cmd.deviceId 10))
      [.delivered, .acknowledged, .progress, .result] d ∧ d.outcome 10 = d₀.outcome 10 := by
  obtain ⟨c, cmd, d₀, d, hr, hcmd, hst, h₀, hd, -⟩ := pong_served [.delivered, .acknowledged, .progress, .result]
    (φ := fun _ _ => true) (by decide +kernel)
  exact ⟨c, cmd, d₀, d, hr, hcmd, hst, h₀, hd, (confluent_iff hr hcmd hst _ (by decide) h₀ hd).mpr (by decide)⟩

/-- The acknowledgement overtakes the delivery. -/
theorem overtaken : ∃ c cmd d₀ d, Reachable demo c ∧
    c.world.sh.db.commands.find 10 = some cmd ∧ cmd.state = .queued ∧
    Served demo c.world.sh.db (backlog ((pong [(none, none)]).messages cmd.deviceId 10))
      [.delivered, .acknowledged, .progress, .result] d₀ ∧
    Served demo c.world.sh.db (backlog ((pong [(none, none)]).messages cmd.deviceId 10))
      [.acknowledged, .delivered, .progress, .result] d ∧ d.outcome 10 ≠ d₀.outcome 10 := by
  obtain ⟨c, cmd, d₀, d, hr, hcmd, hst, h₀, hd, hφ⟩ := pong_served [.acknowledged, .delivered, .progress, .result]
    (φ := fun d₀ d => (d₀.commands.find 10).map Command.state != (d.commands.find 10).map Command.state)
    (by decide +kernel)
  refine ⟨c, cmd, d₀, d, hr, hcmd, hst, h₀, hd, fun he => ?_⟩
  have := congrArg (fun o => o.1.map Prod.fst) he
  simp only [DB.outcome, Option.map_map, Function.comp_def] at this
  rw [bne_iff_ne] at hφ
  exact hφ this.symm

end Veyaan
