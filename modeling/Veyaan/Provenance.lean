import Veyaan.Code
import Veyaan.Refine.Sound
import Veyaan.Schedule

/-!
# Where the states of a command come from

The ownership check is made in the gateway, the transitions in another process
behind the stream. What ties them together is an invariant of the messages in
flight: each lifecycle message names its connection's device as the device of
its command.
-/

open Relation (ReflTransGen)

namespace Veyaan

open Sys

def Reported (t : List (Nat × Ev)) (conn : DeviceConnection) (id : UUID) : CommandState → Prop
  | .delivered => ∃ i m, (i, Ev.sent conn m) ∈ t ∧ m.commandId = id
  | .acknowledged => ∃ i reason, (i, Ev.received conn (.acknowledge id true reason)) ∈ t
  | .running => ∃ i percent stage, (i, Ev.received conn (.progress id percent stage)) ∈ t
  | .succeeded => ∃ i data code msg, (i, Ev.received conn (.result id true data code msg)) ∈ t
  | .failed => (∃ i reason, (i, Ev.received conn (.acknowledge id false reason)) ∈ t) ∨
      ∃ i data code msg, (i, Ev.received conn (.result id false data code msg)) ∈ t
  | _ => True

theorem Reported.mono {t t' : List (Nat × Ev)} {conn : DeviceConnection} {id : UUID} {st : CommandState}
    (h : Reported t conn id st) (ht : ∀ x ∈ t, x ∈ t') : Reported t' conn id st := by
  cases st with
  | delivered => obtain ⟨i, m, hm, he⟩ := h; exact ⟨i, m, ht _ hm, he⟩
  | acknowledged => obtain ⟨i, r, hm⟩ := h; exact ⟨i, r, ht _ hm⟩
  | running => obtain ⟨i, p, st, hm⟩ := h; exact ⟨i, p, st, ht _ hm⟩
  | succeeded => obtain ⟨i, d, c, m, hm⟩ := h; exact ⟨i, d, c, m, ht _ hm⟩
  | failed =>
    rcases h with ⟨i, r, hm⟩ | ⟨i, d, c, m, hm⟩
    · exact .inl ⟨i, r, ht _ hm⟩
    · exact .inr ⟨i, d, c, m, ht _ hm⟩
  | _ => trivial

def Caused (t : List (Nat × Ev)) (conn : DeviceConnection) (k : Lifecycle) (id : UUID)
    (p : LifecyclePayload) : Prop :=
  match k with
  | .delivered => ∃ i m, (i, Ev.sent conn m) ∈ t ∧ m.commandId = id
  | _ => ∃ i f, (i, Ev.received conn f) ∈ t ∧ f.message conn.deviceId = some (k, id, p)

theorem Caused.mono {t t' : List (Nat × Ev)} {conn : DeviceConnection} {k : Lifecycle} {id : UUID}
    {p : LifecyclePayload} (h : Caused t conn k id p) (ht : ∀ x ∈ t, x ∈ t') : Caused t' conn k id p := by
  cases k with
  | delivered => obtain ⟨i, m, hm, he⟩ := h; exact ⟨i, m, ht _ hm, he⟩
  | _ => obtain ⟨i, f, hm, he⟩ := h; exact ⟨i, f, ht _ hm, he⟩

structure Origin (s : St) (conn : DeviceConnection) (k : Lifecycle) (id : UUID) (p : LifecyclePayload) : Prop where
  auth : conn ∈ s.ext.conns
  owns : s.db.Owns conn id
  commandId : p.commandId = some id
  deviceId : p.deviceId = some conn.deviceId
  cause : Caused s.trace conn k id p

theorem DB.Owns.later {d d' : DB} {conn : DeviceConnection} {id : UUID} (h : d.Owns conn id) (hl : d.Later d') :
    d'.Owns conn id := by
  obtain ⟨c, hc, hd⟩ := h
  obtain ⟨c', hc', hs⟩ := hl.command id c hc
  exact ⟨c', hc', hs.deviceId.trans hd⟩

theorem Origin.later {s s' : St} {conn : DeviceConnection} {k : Lifecycle} {id : UUID} {p : LifecyclePayload}
    (h : Origin s conn k id p) (hl : Later s s') : Origin s' conn k id p :=
  ⟨hl.conns _ h.auth, h.owns.later hl.db, h.commandId, h.deviceId, h.cause.mono fun _ hx => hl.trace.subset hx⟩

theorem message_payload {f : Frame} {dev : UUID} {k : Lifecycle} {id : UUID} {p : LifecyclePayload}
    (h : f.message dev = some (k, id, p)) : p.commandId = some id ∧ p.deviceId = some dev ∧ k ≠ .delivered := by
  cases f with
  | acknowledge => cases h; exact ⟨rfl, rfl, by simp⟩
  | progress => cases h; exact ⟨rfl, rfl, by simp⟩
  | result => cases h; exact ⟨rfl, rfl, by simp⟩
  | _ => cases h

theorem Caused.reported {t : List (Nat × Ev)} {conn : DeviceConnection} {k : Lifecycle} {id : UUID}
    {p : LifecyclePayload} (h : Caused t conn k id p) : Reported t conn id (k.target p) := by
  cases k with
  | delivered => exact h
  | acknowledged =>
    obtain ⟨i, f, hm, hf⟩ := h
    cases f with
    | acknowledge c acc reason =>
      cases hf
      cases acc
      · exact .inl ⟨i, reason, hm⟩
      · exact ⟨i, reason, hm⟩
    | _ => cases hf
  | progress =>
    obtain ⟨i, f, hm, hf⟩ := h
    cases f with
    | progress c percent stage => cases hf; exact ⟨i, percent, stage, hm⟩
    | _ => cases hf
  | result =>
    obtain ⟨i, f, hm, hf⟩ := h
    cases f with
    | result c success data code msg =>
      cases hf
      cases success
      · exact .inr ⟨i, data, code, msg, hm⟩
      · exact ⟨i, data, code, msg, hm⟩
    | _ => cases hf

/-! ## The invariant -/

structure Sourced (s : St) : Prop where
  sent : ∀ i conn m, (i, Ev.sent conn m) ∈ s.trace → conn ∈ s.ext.conns
  received : ∀ i conn f, (i, Ev.received conn f) ∈ s.trace → conn ∈ s.ext.conns
  message : ∀ k id p, .lifecycle k id p ∈ s.ext.stream → ∃ conn, Origin s conn k id p
  state : ∀ id c, s.db.commands.find id = some c →
    c.state ∈ [.delivered, .acknowledged, .running, .succeeded, .failed] →
    ∃ conn ∈ s.ext.conns, conn.deviceId = c.deviceId ∧ Reported s.trace conn id c.state

section
variable {P : Params} {s s' : St}

theorem Sourced.origin (h : Sourced s) {i : Nat} {e : Option OutboxEvent} {k : Lifecycle} {id : UUID}
    {p : LifecyclePayload} (hp : Publishable s i e (.lifecycle k id p)) : ∃ conn, Origin s conn k id p := by
  cases k with
  | delivered =>
    obtain ⟨⟨conn, m, hm, hid, rfl, ho⟩, -⟩ := hp
    exact ⟨conn, h.sent i conn m hm, ho, rfl, rfl, i, m, hm, hid⟩
  | _ =>
    obtain ⟨⟨conn, f, hm, hf, ho⟩, -⟩ := hp
    have := message_payload hf
    exact ⟨conn, h.received i conn f hm, ho, this.1, this.2.1, i, f, hm, hf⟩

/-- A lifecycle transaction is about the command of its message, and the message
came about on a connection of the command's device. -/
theorem Sourced.touched (h : Sourced s) {i : Nat} {k : Lifecycle} {p : LifecyclePayload} {id : UUID} {d : DB}
    (hc : (Tag.handle k p).Closes P s i d) (ht : (Tag.handle k p).Touches id) : ∃ conn, Origin s conn k id p := by
  obtain ⟨id', hm⟩ := hc
  obtain ⟨conn, ho⟩ := h.message k id' p hm
  have : id' = id := Option.some.inj (ho.commandId.symm.trans ht)
  exact ⟨conn, this ▸ ho⟩

theorem Act.sourced (ha : Act P s s') (h : Sourced s) : Sourced s' := by
  have hl := ha.later
  constructor
  case sent =>
    intro i conn m hm
    rcases ha.entry hm with hm | hm | ⟨_, _, hv, -⟩ | ⟨_, hv, -⟩
    · exact hl.conns _ (h.sent i conn m hm)
    · exact hl.conns _ hm.1
    · cases hv
    · cases hv
  case received =>
    intro i conn f hm
    rcases ha.entry hm with hm | hm | ⟨_, _, hv, -⟩ | ⟨_, hv, -⟩
    · exact hl.conns _ (h.received i conn f hm)
    · exact hl.conns _ hm
    · cases hv
    · cases hv
  case message =>
    intro k id p hm
    rcases ha.message hm with hm | ⟨i, e, hp⟩
    · obtain ⟨conn, ho⟩ := h.message k id p hm
      exact ⟨conn, ho.later hl⟩
    · obtain ⟨conn, ho⟩ := h.origin hp
      exact ⟨conn, ho.later hl⟩
  case state =>
    intro id c hc hst
    have hold : ∀ c₀, s.db.commands.find id = some c₀ → c₀.Same c → c.state = c₀.state →
        ∃ conn ∈ s'.ext.conns, conn.deviceId = c.deviceId ∧ Reported s'.trace conn id c.state := by
      intro c₀ hc₀ hs he
      obtain ⟨conn, hm, hd, hrep⟩ := h.state id c₀ hc₀ (he ▸ hst)
      refine ⟨conn, hl.conns _ hm, hd.trans hs.deviceId.symm, ?_⟩
      rw [he]; exact hrep.mono fun _ hx => hl.trace.subset hx
    rcases ha.store with hd | ⟨i, t, htx, -, -⟩
    · rw [hd] at hc; exact hold c hc (.refl c) rfl
    rcases htx.command_find hc with ⟨c₀, hc₀, hs, he | hq | ⟨hmv, htch, hcl⟩⟩ | ⟨-, hst' | hst'⟩
    · exact hold c₀ hc₀ hs he
    · rw [hq] at hst; simp at hst
    · -- only a lifecycle message leads to these states
      cases t with
      | handle k p =>
        obtain ⟨conn, ho⟩ := h.touched hcl htch
        obtain ⟨c₁, hc₁, hd₁⟩ := ho.owns
        rw [hc₀] at hc₁; cases hc₁
        refine ⟨conn, hl.conns _ ho.auth, hd₁.symm.trans hs.deviceId.symm, ?_⟩
        rw [show c.state = k.target p from hmv]
        exact (ho.cause.mono fun _ hx => hl.trace.subset hx).reported
      | cancel => rw [hmv.2] at hst; simp at hst
      | decide => rw [hmv.2.2] at hst; simp at hst
      | activate => rw [show c.state = .blockedByEmergencyStop from hmv] at hst; simp at hst
      | batch => rw [show c.state = .blockedByEmergencyStop from hmv] at hst; simp at hst
      | expire => rw [show c.state = .expired from hmv] at hst; simp at hst
      | _ => exact hmv.elim
    · rw [hst'] at hst; simp at hst
    · rw [hst'] at hst; simp at hst

theorem reach_sourced (h : Reach (Act P) Init s) : Sourced s := by
  refine reach_induct (fun d x hi => ?_) (fun s s' _ h ha => ha.sourced h) h
  exact ⟨by simp, by simp, by simp [hi.stream], by simp [hi.commands]⟩

/-! ## Isolation -/

def DB.about (d : DB) (id : UUID) : Option Command × Option Task × List CommandStateEvent :=
  (d.commands.find id, d.tasks.find id, d.events.filter (·.commandId == id))

theorem Write.Allowed.about {i : Nat} {k : Lifecycle} {p : LifecyclePayload} {d : DB} {w : Write} {id : UUID}
    (h : w.Allowed i (.handle k p) s d) (hid : p.commandId ≠ some id) : (w.apply d).about id = d.about id := by
  have hne : ∀ {x}, (Tag.handle k p).Touches x → x ≠ id := by rintro x hx rfl; exact hid hx
  cases h with
  | command hf _ ht hm => simp [Write.apply, DB.about, Table.find_put, (Tag.Moves.flushed hf hm).1, hne ht]
  | task _ ht => simp [Write.apply, DB.about, Table.find_put, hne ht]
  | event _ ht _ => simp [Write.apply, DB.about, hne ht]
  | _ => rfl

/-- A lifecycle transaction changes nothing of other commands. -/
theorem Tx.about {i : Nat} {k : Lifecycle} {p : LifecyclePayload} {d : DB} {id : UUID}
    (h : Tx P s i (.handle k p) d) (hid : p.commandId ≠ some id) : d.about id = s.db.about id := by
  cases h with
  | chain hc _ =>
    exact hc.keeps (I := fun d => d.about id = s.db.about id) (fun d w hw hd => (hw.about hid).trans hd) rfl

theorem Tx.closes {i : Nat} {k : Lifecycle} {p : LifecyclePayload} {d : DB} (h : Tx P s i (.handle k p) d) :
    (Tag.handle k p).Closes P s i d := by
  cases h with
  | chain _ hcl => exact hcl

theorem step_commit {c c' : Conf} (h : Reachable P c) (hs : (sys P).Step c c')
    (hd : c'.world.sh.db ≠ c.world.sh.db) :
    ∃ i call β, ∃ (q : Stmt β) (k : Except Err β → Op Unit) (l : Label) (s₁ : St) (t : Tag),
      c.procs[i]? = some ⟨call, .op q k⟩ ∧ q.commits = some (some l) ∧
      l.see true c.world.sh.db c.world.sh.ext = .committed t ∧
      c'.world.sh.trace = c.world.sh.trace ++ [(i, .committed t)] ∧ s₁.db = c.world.sh.db ∧
      ReflTransGen (Act P) c.world.sh s₁ ∧ ReflTransGen (Act P) s₁ c'.world.sh ∧ Tx P s₁ i t c'.world.sh.db := by
  have hg := runs_acts h (.single hs)
  cases hs with
  | @run w w' ps i call β q k ch r hp he =>
    rcases exec_store he with hsame | ⟨t, hq, ht⟩
    · exact absurd hsame hd
    cases t with
    | none => exact absurd (acts_quiet hg (by simpa using ht)).1 hd
    | some l =>
      rcases acts_one hg ht with hsame | ⟨s₁, t, hv, hd₁, hg₁, hg₂, htx⟩
      · exact absurd hsame hd
      · exact ⟨i, call, β, q, k, l, s₁, t, hp, hq, hv, hv ▸ ht, hd₁, hg₁, hg₂, htx⟩
  | start => exact absurd rfl hd
  | env => exact absurd rfl hd

theorem consume_commits {c : Conf} (h : Reachable P c) {i : Nat} {k : Lifecycle} {cid : UUID} {p : LifecyclePayload}
    {β : Type} {q : Stmt β} {f : Except Err β → Op Unit} {l : Label}
    (hp : c.procs[i]? = some ⟨.consume k cid p, .op q f⟩) (hq : q.commits = some (some l)) :
    l = .commit (.handle k p) := by
  have hall := Reachable.prog (Ψ := fun (call : Call) (q : Op Unit) => ∀ k cid p, call = Call.consume k cid p →
    q.All (Commits [none, some (.commit (.handle k p))]))
    (fun call k cid p hc => by subst hc; exact commits_consume) (fun r hΨ k cid p hc => (hΨ k cid p hc).2 r) h hp
  have := (hall k cid p rfl).1 _ hq
  simpa using this

theorem frame_commits {c : Conf} (h : Reachable P c) {i : Nat} {conn : DeviceConnection} {f : Frame} {β : Type}
    {q : Stmt β} {g : Except Err β → Op Unit} {t : Option Label}
    (hp : c.procs[i]? = some ⟨.frame conn f, .op q g⟩) : q.commits ≠ some t := by
  have hall := Reachable.prog (Ψ := fun (call : Call) (q : Op Unit) => ∀ conn f, call = Call.frame conn f →
    q.All (Commits []))
    (fun call conn f hc => by subst hc; exact commits_frame) (fun r hΨ conn f hc => (hΨ conn f hc).2 r) h hp
  intro hq
  have := (hall conn f rfl).1 _ hq
  simp at this

/-- **Provenance and isolation.** The states that devices bring about were
reported on a connection of the command's own device. And whatever changes a
command, its task or its events is a commit, of no frame's process; if it is a
lifecycle consumer's, then its message came about on a connection of the
command's device, and on no other device's. -/
theorem provenance {c : Conf} (h : Reachable P c) :
    (∀ id cmd, c.world.sh.db.commands.find id = some cmd →
      cmd.state ∈ [.delivered, .acknowledged, .running, .succeeded, .failed] →
      ∃ conn ∈ c.world.sh.ext.conns, conn.deviceId = cmd.deviceId ∧ Reported c.world.sh.trace conn id cmd.state) ∧
    ∀ c' id cmd, (sys P).Step c c' → c.world.sh.db.commands.find id = some cmd →
      c'.world.sh.db.about id ≠ c.world.sh.db.about id → ∃ i call q t, c.procs[i]? = some ⟨call, q⟩ ∧
        c'.world.sh.trace = c.world.sh.trace ++ [(i, .committed t)] ∧ (∀ conn f, call ≠ .frame conn f) ∧
        ∀ k cid p, call = .consume k cid p → t = .handle k p ∧
          (∃ conn ∈ c'.world.sh.ext.conns, conn.deviceId = cmd.deviceId ∧ Caused c'.world.sh.trace conn k id p) ∧
          ∀ j conn f, (j, Ev.received conn f) ∈ c'.world.sh.trace → f.message conn.deviceId = some (k, id, p) →
            conn.deviceId = cmd.deviceId := by
  refine ⟨(reach_sourced (reachable_real h)).state, fun c' id cmd hs hc hne => ?_⟩
  obtain ⟨i, call, β, q, g, l, s₁, t, hp, hq, hv, ht, hd₁, hg₁, hg₂, htx⟩ :=
    step_commit h hs (fun hd => hne (by rw [hd]))
  refine ⟨i, call, _, t, hp, ht, fun conn f hcall => ?_, fun k cid p hcall => ?_⟩
  · subst hcall
    exact frame_commits h hp hq
  · subst hcall
    obtain rfl := consume_commits h hp hq
    cases hv
    have hsrc : Sourced s₁ := by
      obtain ⟨d, x, hi, hg⟩ := reachable_real h
      exact reach_sourced ⟨d, x, hi, hg.trans hg₁⟩
    have htch : p.commandId = some id := by
      refine Classical.byContradiction fun hid => hne ?_
      rw [htx.about hid, hd₁]
    obtain ⟨conn, ho⟩ := hsrc.touched htx.closes htch
    have hdev : conn.deviceId = cmd.deviceId := by
      obtain ⟨x, hx, hxd⟩ := ho.owns
      rw [hd₁, hc] at hx; cases hx; exact hxd.symm
    have ho' := ho.later (acts_later hg₂)
    refine ⟨rfl, ⟨conn, ho'.auth, hdev, ho'.cause⟩, fun j conn' f hj hf => ?_⟩
    have := (message_payload hf).2.1
    rw [ho.deviceId] at this
    exact (Option.some.inj this).symm.trans hdev

end

theorem provenance_ping : ∃ c cmd, Reachable demo c ∧ c.world.sh.db.commands.find 10 = some cmd ∧
    cmd.state = .acknowledged ∧ ∃ conn ∈ c.world.sh.ext.conns, conn.deviceId = cmd.deviceId ∧
      Reported c.world.sh.trace conn 10 .acknowledged := by
  obtain ⟨c, hr, hc⟩ := played (P := demo) (c := demoStart) (t := acknowledgedRun)
    (φ := fun c => (c.world.sh.db.commands.find 10).any (·.state == .acknowledged)) (by decide +kernel)
  obtain ⟨cmd, hcmd, hst⟩ := (Option.any_eq_true _ _).mp hc
  have hst : cmd.state = .acknowledged := by simpa using hst
  have h : Reachable demo c := Reachable.runs demo_reachable hr
  refine ⟨c, cmd, h, hcmd, hst, ?_⟩
  rw [← hst]
  exact (provenance h).1 10 cmd hcmd (by rw [hst]; decide)

end Veyaan
