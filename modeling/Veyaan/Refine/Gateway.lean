import Veyaan.Refine.Base

/-!
# The gateway follows the protocol

A round of `nats_listener` ends with an acknowledgement or a negative one. What
it has traced by then says which way it took (`Listened`).
-/

open Relation (ReflTransGen)

namespace Veyaan

open Sys

/-- The row is no longer one that `_pre_delivery_check` lets pass at time `t`. -/
def Undeliverable (row : Option Command) (deviceId : UUID) (t : Time) : Prop :=
  ∀ c ∈ row, c.deviceId ≠ deviceId ∨ c.state ≠ .queued ∨ ∃ e, c.expiresAt = some e ∧ e < t

theorem Undeliverable.mono {row : Option Command} {deviceId : UUID} {t t' : Time} (h : Undeliverable row deviceId t)
    (ht : t ≤ t') : Undeliverable row deviceId t' := by
  intro c hc
  rcases h c hc with h | h | ⟨e, he, hlt⟩
  · exact .inl h
  · exact .inr (.inl h)
  · exact .inr (.inr ⟨e, he, Nat.lt_of_lt_of_le hlt ht⟩)

def deliveredMsg (conn : DeviceConnection) (commandId : UUID) : Msg :=
  .lifecycle .delivered commandId { commandId := some commandId, deviceId := some conn.deviceId }

/-- What a round of the listener traces once it knows that there is no stop, or
that there is one. -/
inductive Listened (conn : DeviceConnection) (p : ReadyPayload) (now : Time) : List Ev → Prop
  | stopped : Listened conn p now [.nacked (.commandReady conn.deviceId p)]
  | refused {row t ok} : (ok = true → Undeliverable row conn.deviceId now) → Listened conn p now
      [.preDelivery p.commandId conn.deviceId row t ok, .acked (.commandReady conn.deviceId p)]
  | invalid {row t} : Listened conn p now
      [.preDelivery p.commandId conn.deviceId row t true, .nacked (.commandReady conn.deviceId p)]
  | sendFailed {row t x} : Listened conn p now
      [.preDelivery p.commandId conn.deviceId row t true, .sendFailed conn x,
        .nacked (.commandReady conn.deviceId p)]
  | publishFailed {row t x} : Listened conn p now
      [.preDelivery p.commandId conn.deviceId row t true, .sent conn x,
        .publishFailed (deliveredMsg conn p.commandId) none, .nacked (.commandReady conn.deviceId p)]
  | delivered {row t x} : x.commandId = p.commandId → Listened conn p now
      [.preDelivery p.commandId conn.deviceId row t true, .sent conn x,
        .published (deliveredMsg conn p.commandId) none, .acked (.commandReady conn.deviceId p)]

/-- The events `t` of a round: the message was fetched, `is_active` asked, and
the events `rest` followed. -/
structure Round (conn : DeviceConnection) (p : ReadyPayload) (t rest : List Ev) : Prop where
  split : ∃ s, t = .fetched conn (.commandReady conn.deviceId p) :: s ++ rest ∧
    ∀ v ∈ s, (∃ r, v = .stopRead .deliver conn.ownerId r) ∨ v = .cacheFailed (some .deliver) conn.ownerId

theorem Round.append {conn : DeviceConnection} {p : ReadyPayload} {t rest : List Ev} (h : Round conn p t rest)
    (vs : List Ev) : Round conn p (t ++ vs) (rest ++ vs) := by
  obtain ⟨s, rfl, hs⟩ := h.split
  exact ⟨s, by simp, hs⟩

def RoundEnd (conn : DeviceConnection) (p : ReadyPayload) (i : Nat) (w : Wd) : Prop :=
  ∃ rest, Round conn p (own i w.sh.trace) rest ∧ Listened conn p w.sh.ext.clock rest

theorem Listened.mono {conn : DeviceConnection} {p : ReadyPayload} {now now' : Time} {vs : List Ev}
    (h : Listened conn p now vs) (hn : now ≤ now') : Listened conn p now' vs := by
  cases h with
  | stopped => exact .stopped
  | refused h => exact .refused fun ho => (h ho).mono hn
  | invalid => exact .invalid
  | sendFailed => exact .sendFailed
  | publishFailed => exact .publishFailed
  | delivered h => exact .delivered h

section
variable {P : Params} {i : Nat} {w w' : Wd} {conn : DeviceConnection} {p : ReadyPayload}

theorem RoundEnd.rely (h : RoundEnd conn p i w) (hr : (sys P).Rely (Act P) i w w') : RoundEnd conn p i w' := by
  obtain ⟨rest, ht, hl⟩ := h
  exact ⟨rest, by rw [hr.trace]; exact ht, hl.mono (acts_later hr.shared).clock⟩

/-! ## The check -/

structure Passed (conn : DeviceConnection) (commandId : UUID) (row : Command) (t : Time) (w : Wd) : Prop where
  device : row.deviceId = conn.deviceId
  queued : row.state = .queued
  inTime : ∀ e, row.expiresAt = some e → ¬ e < t
  owns : w.sh.db.Owns conn commandId

theorem wps_preDeliveryCheck {α : Type} {Q : Except Err α → Wd → Prop} {id : UUID} {f : Bool → Op α}
    (h : Holds P i w [] [])
    (hF : ∀ w' row t ok, After P i [.preDelivery id conn.deviceId row t ok] w w' → Holds P i w' [] [] →
      (ok = true → Undeliverable row conn.deviceId w'.sh.ext.clock) → wps P i (f false) Q w')
    (hT : ∀ w' row t, After P i [.preDelivery id conn.deviceId (some row) t true] w w' → Holds P i w' [] [] →
      Passed conn id row t w' → wps P i (f true) Q w') :
    wps P i ((preDeliveryCheck id conn.deviceId).bind f) Q w := by
  unfold preDeliveryCheck
  simp only [Prog.bind_eq, Prog.bind_assoc]
  refine wp_bind (wp_attempt ?_)
  unfold deliverable
  refine wp_fresh h (fun w₁ w₂ s₁ hsh h₂ => ?_) fun w₁ w₂ s₁ hsh h₂ => ?_
  · have hg : ReflTransGen (Act P) w₁.sh w₂.sh :=
      say_act (v := .preDelivery id conn.deviceId (w₁.sh.db.commands.find id) w₁.sh.ext.clock false) ⟨rfl, rfl⟩ hsh
    exact ⟨hg, hF w₂ _ _ false (s₁.act hg (by rw [hsh]; rfl)) h₂ (by simp)⟩
  have hg : ReflTransGen (Act P) w₁.sh w₂.sh :=
    say_act (v := .preDelivery id conn.deviceId (w₁.sh.db.commands.find id) w₁.sh.ext.clock true) ⟨rfl, rfl⟩ hsh
  have s₂ : After P i [.preDelivery id conn.deviceId (w₁.sh.db.commands.find id) w₁.sh.ext.clock true] w w₂ :=
    s₁.act hg (by rw [hsh]; rfl)
  have hdb : w₂.sh.db = w₁.sh.db := by rw [hsh]; rfl
  have hclock : w₂.sh.ext.clock = w₁.sh.ext.clock := by rw [hsh]; rfl
  refine ⟨hg, ?_⟩
  cases hf : w₁.sh.db.commands.find id with
  | none =>
    rw [hf] at s₂
    exact hF w₂ none _ true s₂ h₂ fun _ c hc => by cases hc
  | some c =>
    rw [hf] at s₂
    have howns : w₂.sh.db.Owns conn id ∨ c.deviceId ≠ conn.deviceId := by
      by_cases hd : c.deviceId = conn.deviceId
      · exact .inl ⟨c, by rw [hdb]; exact hf, hd⟩
      · exact .inr hd
    dsimp only
    split
    · rename_i hd
      exact hF w₂ (some c) _ true s₂ h₂ fun _ x hx => by cases hx; exact .inl hd
    split
    · rename_i hq
      exact hF w₂ (some c) _ true s₂ h₂ fun _ x hx => by cases hx; exact .inr (.inl hq)
    rename_i hd hq
    simp only [not_not] at hd hq
    have howns := howns.resolve_right (fun h => h hd)
    split
    · rename_i he
      exact hT w₂ c _ s₂ h₂ ⟨hd, hq, by simp [he], howns⟩
    · rename_i e he
      refine wps_now h₂ fun w₃ s₃ h₃ => ?_
      have s₃' : After P i [.preDelivery id conn.deviceId (some c) w₁.sh.ext.clock true] w w₃ := by
        simpa using s₂.trans s₃
      by_cases hlt : e < w₃.sh.ext.clock
      · simp only [hlt, decide_true, Bool.not_true]
        exact hF w₃ (some c) _ true s₃' h₃ fun _ x hx => by cases hx; exact .inr (.inr ⟨e, he, hlt⟩)
      · simp only [hlt, decide_false, Bool.not_false]
        refine hT w₃ c _ s₃' h₃ ⟨hd, hq, fun e' he' hlt' => ?_, ?_⟩
        · rw [he] at he'; cases he'
          have hle := (After.later s₃).clock
          rw [hclock] at hle
          exact hlt (Nat.lt_of_lt_of_le hlt' hle)
        · obtain ⟨x, hx, hxd⟩ := howns
          obtain ⟨y, hy, hs⟩ := (After.later s₃).db.command id x hx
          exact ⟨y, hy, hs.deviceId.trans hxd⟩

/-! ## The send -/

theorem wps_sendJson {α : Type} {Q : Except Err α → Wd → Prop} {m : CommandRequestMessage} {f : Bool → Op α}
    (h : Holds P i w [] []) (hv : ∀ w', After P i [] w w' → SayOk P w'.sh i (.sent conn m))
    (hF : ∀ w', After P i [.sendFailed conn m] w w' → Holds P i w' [] [] → wps P i (f false) Q w')
    (hT : ∀ w', After P i [.sent conn m] w w' → Holds P i w' [] [] → wps P i (f true) Q w') :
    wps P i ((effect (.sendJson conn m)).bind f) Q w := by
  refine wp_eff h fun w' w'' ch hs _ hsh h' => ?_
  cases ch with
  | false =>
    have hg : ReflTransGen (Act P) w'.sh w''.sh := say_act (v := .sendFailed conn m) trivial (by rw [hsh]; rfl)
    exact ⟨hg, hF w'' (hs.act hg (by rw [hsh]; rfl)) h'⟩
  | true =>
    have hg : ReflTransGen (Act P) w'.sh w''.sh := say_act (hv w' hs) (by rw [hsh]; rfl)
    exact ⟨hg, hT w'' (hs.act hg (by rw [hsh]; rfl)) h'⟩

def Trying (P : Params) (conn : DeviceConnection) (p : ReadyPayload) (i : Nat)
    (r : Except Err Unit) (w : Wd) : Prop :=
  Holds P i w [] [] ∧ ∃ rest, Round conn p (own i w.sh.trace) rest ∧ match r with
    | .ok _ => Listened conn p w.sh.ext.clock rest
    | .error _ => Listened conn p w.sh.ext.clock (rest ++ [.nacked (.commandReady conn.deviceId p)])

theorem wps_last {Q : Except Err Unit → Wd → Prop} {e : Eff Unit} {v : Ev} {rest : List Ev}
    (he : ∀ ch x, Eff.handle ch e x = (.ok (), x, [v]))
    (hv : v = .acked (.commandReady conn.deviceId p) ∨ v = .nacked (.commandReady conn.deviceId p))
    (h : Holds P i w [] []) (hr : Round conn p (own i w.sh.trace) rest)
    (hl : Listened conn p w.sh.ext.clock (rest ++ [v]))
    (hQ : ∀ w', Holds P i w' [] [] → RoundEnd conn p i w' → Q (.ok ()) w') : wps P i (effect e) Q w := by
  rw [← Prog.bind_ret (effect e)]
  refine wps_say he h (fun _ _ _ => by rcases hv with rfl | rfl <;> trivial) fun w₁ s₁ h₁ => ?_
  exact hQ w₁ h₁ ⟨rest ++ [v], by rw [s₁.trace]; exact hr.append _, hl.mono (After.later s₁).clock⟩

theorem trying_ok (h : Holds P i w [] []) (hr : RoundEnd conn p i w) : Trying P conn p i (.ok ()) w := ⟨h, hr⟩

theorem wps_sendCommand {row : Command} {t : Time} (h : Holds P i w [] []) (hconn : conn ∈ w.sh.ext.conns)
    (hstop : (i, Ev.stopRead .deliver conn.ownerId (some false)) ∈ w.sh.trace)
    (hr : Round conn p (own i w.sh.trace) [.preDelivery p.commandId conn.deviceId (some row) t true])
    (hp : Passed conn p.commandId row t w) : wps P i (sendCommand conn p) (Trying P conn p i) w := by
  unfold sendCommand
  refine wps_uuid4 h fun w₁ trace s₁ h₁ => ?_
  have hr₁ : Round conn p (own i w₁.sh.trace) [.preDelivery p.commandId conn.deviceId (some row) t true] := by
    rw [s₁.trace]; exact hr.append []
  split
  · exact ⟨h₁, _, hr₁, .invalid⟩
  rename_i e he
  refine wps_sendJson h₁ (fun w₂ s₂ =>
      ⟨(After.later (s₁.then s₂)).conns _ hconn, (After.later (s₁.then s₂)).trace.subset hstop, ?_⟩)
        (fun w₂ s₂ h₂ => ?_)
    fun w₂ s₂ h₂ => ?_
  · obtain ⟨s, hs, -⟩ := hr₁.split
    refine ⟨p, row, t, rfl, ?_, hp.device, hp.queued, hp.inTime⟩
    rw [s₂.trace, hs]
    simp
  · have hr₂ := hr₁.append [.sendFailed conn ⟨p.commandId, p.commandType, p.parameters, e, p.riskLevel, trace⟩]
    rw [← s₂.trace] at hr₂
    exact wps_last (fun _ _ => rfl) (.inr rfl) h₂ hr₂ .sendFailed fun _ => trying_ok
  · have hr₂ := hr₁.append [.sent conn ⟨p.commandId, p.commandType, p.parameters, e, p.riskLevel, trace⟩]
    rw [← s₂.trace] at hr₂
    refine wps_publishJs h₂ (fun w₃ s₃ _ => ⟨⟨conn,
      ⟨p.commandId, p.commandType, p.parameters, e, p.riskLevel, trace⟩, ?_, rfl, rfl, ?_⟩, rfl⟩)
      (fun w₃ s₃ h₃ => ?_)
      fun w₃ s₃ h₃ => ?_
    · refine (After.later s₃).trace.subset (mem_own.mp ?_)
      rw [s₂.trace]; exact List.mem_append_right _ (List.mem_singleton.mpr rfl)
    · obtain ⟨x, hx, hxd⟩ := hp.owns
      obtain ⟨y, hy, hs⟩ := (After.later (s₁.trans (s₂.trans s₃))).db.command _ x hx
      exact ⟨y, hy, hs.deviceId.trans hxd⟩
    · exact ⟨h₃, _, by rw [s₃.trace]; exact hr₂.append _, .publishFailed⟩
    · have hr₃ := hr₂.append [.published (deliveredMsg conn p.commandId) none]
      have s₃ : After P i [.published (deliveredMsg conn p.commandId) none] w₂ w₃ := s₃
      rw [← s₃.trace] at hr₃
      exact wps_last (fun _ _ => rfl) (.inl rfl) h₃ hr₃ (.delivered rfl) fun _ => trying_ok

theorem wps_deliverChecked {stopped : Bool} (h : Holds P i w [] []) (hconn : conn ∈ w.sh.ext.conns)
    (hstop : stopped = false → (i, Ev.stopRead .deliver conn.ownerId (some false)) ∈ w.sh.trace)
    (hr : Round conn p (own i w.sh.trace) []) :
    wps P i (deliverChecked conn p stopped) (Trying P conn p i) w := by
  unfold deliverChecked
  cases stopped with
  | true => exact wps_last (fun _ _ => rfl) (.inr rfl) h hr .stopped fun _ => trying_ok
  | false =>
    refine wps_preDeliveryCheck h (fun w₁ row t ok s₁ h₁ hu => ?_) fun w₁ row t s₁ h₁ hp => ?_
    · exact wps_last (fun _ _ => rfl) (.inl rfl) h₁ (by rw [s₁.trace]; exact hr.append _) (.refused hu)
        fun _ => trying_ok
    · exact wps_sendCommand h₁ ((After.later s₁).conns _ hconn) ((After.later s₁).trace.subset (hstop rfl))
        (by rw [s₁.trace]; exact hr.append _) hp

theorem refines_natsListener (hreal : Real P w) (h : Holds P i w [] []) (hconn : conn ∈ w.sh.ext.conns)
    (hm : .commandReady conn.deviceId p ∈ w.sh.ext.stream) (hnil : own i w.sh.trace = []) :
    wps P i (natsListener conn p) (fun _ w' => RoundEnd conn p i w') w := by
  unfold natsListener
  refine wps_say (v := .fetched conn (.commandReady conn.deviceId p)) (fun _ _ => rfl) h
    (fun w' s' _ => ⟨(After.later s').conns _ hconn, (After.later s').stream _ hm⟩) fun w₁ s₁ h₁ => ?_
  have hr₁ : own i w₁.sh.trace = [.fetched conn (.commandReady conn.deviceId p)] := by rw [s₁.trace, hnil]; rfl
  -- the events of `is_active`
  have hround : ∀ {w₂ vs}, After P i vs w₁ w₂ → (∀ v ∈ vs, (∃ r, v = .stopRead .deliver conn.ownerId r) ∨
      v = .cacheFailed (some .deliver) conn.ownerId) →
      Round conn p (own i w₂.sh.trace) [] := by
    intro w₂ vs s₂ hvs
    exact ⟨vs, by rw [s₂.trace, hr₁]; simp, hvs⟩
  refine wp_bind (wp_attempt (wp_mono (Q := Trying P conn p i) (fun r w₂ h₂ => ?_) ?_))
  · obtain ⟨h₂, rest, hr₂, hl⟩ := h₂
    cases r with
    | ok _ => exact ⟨rest, hr₂, hl⟩
    | error e => exact wps_last (fun _ _ => rfl) (.inr rfl) h₂ hr₂ hl fun _ _ hend => hend
  · refine wps_isActive (After.real s₁ hreal) h₁ (fun w₂ vs x hvs s₂ h₂ => ?_) (fun w₂ vs s₂ hvs h₂ => ?_)
      fun w₂ s₂ h₂ => ?_
    · exact ⟨h₂, [], hround s₂ (by rcases hvs with rfl | rfl | rfl <;> simp), .stopped⟩
    · exact wps_deliverChecked h₂ ((After.later (s₁.trans s₂)).conns _ hconn) (by simp)
        (hround s₂ (by rcases hvs with rfl | rfl <;> simp))
    · refine wps_deliverChecked h₂ ((After.later (s₁.trans s₂)).conns _ hconn) (fun _ => ?_) (hround s₂ (by simp))
      rw [← mem_own, s₂.trace]; simp

/-! ## Frames -/

theorem wps_publish {α : Type} {Q : Except Err α → Wd → Prop} {m : Msg} {f : Unit → Op α} (h : Holds P i w [] [])
    (hm : ∀ w', After P i [] w w' → Publishable w'.sh i none m)
    (hfail : ∀ w', Holds P i w' [] [] → Q (.error .nats) w')
    (hk : ∀ w', Holds P i w' [] [] → wps P i (f ()) Q w') : wps P i ((effect (.publish m)).bind f) Q w := by
  refine wp_eff h fun w' w'' ch hs _ hsh h' => ?_
  cases ch with
  | false => exact ⟨say_act (v := .publishFailed m none) (by intro _ h; cases h) (by rw [hsh]; rfl), hfail w'' h'⟩
  | true => exact ⟨by rw [hsh]; exact .single (.publish (hm w' hs)), hk w'' h'⟩

theorem wps_commandBelongsToDevice {α : Type} {Q : Except Err α → Wd → Prop} {id : UUID} {f : Bool → Op α}
    (h : Holds P i w [] []) (hF : ∀ w', After P i [] w w' → Holds P i w' [] [] → wps P i (f false) Q w')
    (hT : ∀ w', After P i [] w w' → Holds P i w' [] [] → w'.sh.db.Owns conn id → wps P i (f true) Q w') :
    wps P i ((commandBelongsToDevice id conn.deviceId).bind f) Q w := by
  unfold commandBelongsToDevice
  simp only [Prog.bind_eq, Prog.bind_assoc]
  refine wp_bind (wp_attempt ?_)
  rw [← Prog.bind_ret (Prog.call _)]
  refine wp_freshQuiet h (fun w₁ s₁ h₁ => hF w₁ s₁ h₁) fun w₁ s₁ h₁ => ?_
  cases hf : w₁.sh.db.commands.find id with
  | none => exact hF w₁ s₁ h₁
  | some c =>
    show wps P i (f (c.deviceId == conn.deviceId)) Q w₁
    by_cases hd : c.deviceId = conn.deviceId
    · rw [beq_iff_eq.mpr hd]; exact hT w₁ s₁ h₁ ⟨c, hf, hd⟩
    · rw [beq_eq_false_iff_ne.mpr hd]; exact hF w₁ s₁ h₁

theorem message_publishable {s : St} {f : Frame} {k : Lifecycle} {id : UUID} {q : LifecyclePayload}
    (hf : f.message conn.deviceId = some (k, id, q))
    (ht : (i, Ev.received conn f) ∈ s.trace) (ho : s.db.Owns conn id) :
    Publishable s i none (.lifecycle k id q) := by
  have hq : k ≠ .delivered := by
    intro hk
    cases f <;> simp_all [Frame.message]
  cases k with
  | delivered => exact absurd rfl hq
  | _ => exact ⟨⟨conn, f, ht, hf, ho⟩, rfl⟩

theorem refines_handleDeviceMessage {f : Frame} (h : Holds P i w [] []) (hconn : conn ∈ w.sh.ext.conns) :
    wps P i (handleDeviceMessage conn f) (fun _ w' => Holds P i w' [] []) w := by
  unfold handleDeviceMessage
  refine wps_say (v := .received conn f) (fun _ _ => rfl) h (fun w' s' _ => (After.later s').conns _ hconn)
    fun w₁ s₁ h₁ => ?_
  have ht : (i, Ev.received conn f) ∈ w₁.sh.trace := by rw [← mem_own, s₁.trace]; simp
  refine wp_bind (wp_attempt (wp_mono (Q := fun _ w' => Holds P i w' [] []) (fun r w₂ h₂ => h₂) ?_))
  unfold handleFrame
  split
  · rename_i k id q hf
    refine wps_commandBelongsToDevice h₁ (fun w₂ _ h₂ => h₂) fun w₂ s₂ h₂ ho => ?_
    simp only [if_true]
    rw [← Prog.bind_ret (effect _)]
    refine wps_publish h₂ (fun w₃ s₃ => ?_) (fun _ h => h) fun _ h => h
    refine message_publishable hf ((After.later (s₂.then s₃)).trace.subset ht) ?_
    obtain ⟨x, hx, hxd⟩ := ho
    obtain ⟨y, hy, hs⟩ := (After.later s₃).db.command _ x hx
    exact ⟨y, hy, hs.deviceId.trans hxd⟩
  · split
    · rw [← Prog.bind_ret (effect _)]
      exact wps_setPresence h₁ (fun _ _ h₂ => h₂) fun _ _ h₂ => h₂
    · rw [← Prog.bind_ret (effect _)]
      exact wps_publish h₁ (fun _ _ ev hev => by cases hev) (fun _ h => h) fun _ h => h
    · exact h₁

end

end Veyaan
