import Veyaan.Authenticity

/-!
# Revocation and open connections

`device_lifecycle_callback` closes the connection that a revoked device has at
that moment. A handshake that has read the device before its revocation goes on
to register a connection, which nothing closes any more.
-/

open Relation (ReflTransGen)

namespace Veyaan

/-! ## The notice of a revocation -/

def DB.Notified (d : DB) : Prop :=
  ∀ k e dev st o, d.outbox.find k = some e → e.msg = .deviceLifecycle dev st o → d.Revoked dev

theorem DB.KeepsDevices.revoked {d d' : DB} (h : d.KeepsDevices d') {dev : UUID}
    (hr : d.Revoked dev) : d'.Revoked dev := by
  obtain ⟨r, hf, hr⟩ := hr
  obtain ⟨r', hf', hs⟩ := h dev r hf
  exact ⟨r', hf', hs.revoked hr⟩

theorem Write.Allowed.notified {i : Nat} {t : Tag} {s : St} {d : DB} {w : Write} (h : w.Allowed i t s d)
    (hd : d.Notified) : (w.apply d).Notified := by
  intro k e dev st o he hm
  have hl : d.KeepsDevices (w.apply d) := h.later.device
  have hold : ∀ x, d.outbox.find k = some x → x.Same e → (w.apply d).Revoked dev := by
    intro x hx hs
    exact hl.revoked (hd k x dev st o hx (by rw [← hs.msg, hm]))
  cases h with
  | @notice x hf hx _ _ hr =>
    simp only [Write.apply, Table.find_put, key_outbox] at he
    split at he
    · cases he
      exact hl.revoked (hr dev st o hm)
    · exact hold e he (.refl e)
  | @outbox x x' hf hs _ =>
    simp only [Write.apply, Table.find_put, key_outbox] at he
    split at he
    · rename_i hid
      cases he
      exact hold x (hid ▸ hf) hs
    · exact hold e he (.refl e)
  | _ => exact hold e he (.refl e)

theorem Tx.notified {P : Params} {s : St} {i : Nat} {t : Tag} {d : DB} (h : Tx P s i t d) (hd : s.db.Notified) :
    d.Notified := by
  have hl : s.db.KeepsDevices d := h.later.device
  cases h with
  | @create _ q c r o h =>
    intro k e dev st o' he hm
    rcases h.form with ⟨-, -, ho, -⟩ | ⟨-, -, -, x, -, -, -, -, hx, ho⟩
    · rw [ho] at he
      exact hl.revoked (hd k e dev st o' he hm)
    · rw [ho, Table.find_put] at he
      split at he
      · cases he
        rw [hx] at hm
        cases hm
      · exact hl.revoked (hd k e dev st o' he hm)
  | @approve x _ c c' v a a' _ h =>
    intro k e dev st o he hm
    rw [h.outbox, Table.find_put] at he
    split at he
    · cases he
      rw [h.msg] at hm
      cases hm
    · exact hl.revoked (hd k e dev st o he hm)
  | chain hc _ => exact hc.keeps (fun d w hw hi => hw.notified hi) hd

/-- When `process_batch` has published the notice of a revocation, the device is
revoked. -/
theorem revoked_of_published {P : Params} {c : Conf} (h : Reachable P c) {i : Nat} {dev : UUID} {st : String}
    {o : Option UUID} {e : OutboxEvent}
    (hp : (i, .published (.deviceLifecycle dev st o) (some e)) ∈ c.world.sh.trace) :
    c.world.sh.db.Revoked dev := by
  suffices hall : c.world.sh.db.Notified ∧ ∀ i dev st o e,
      (i, .published (.deviceLifecycle dev st o) (some e)) ∈ c.world.sh.trace → c.world.sh.db.Revoked dev from
    hall.2 i dev st o e hp
  refine reach_induct (I := fun s => s.db.Notified ∧ ∀ i dev st o e,
    (i, .published (.deviceLifecycle dev st o) (some e)) ∈ s.trace →
    s.db.Revoked dev) (fun d x hi => ⟨?_, fun i dev st o e hm => ?_⟩)
    (fun s s' _ hs ha => ⟨?_, fun i dev st o e hm => ?_⟩) (reachable_real h)
  · intro k e dev st o he
    rw [hi.outbox] at he
    cases he
  · cases hm
  · rcases ha.store with hd | ⟨i, t, htx, -, -⟩
    · rw [hd]; exact hs.1
    · exact htx.notified hs.1
  · have hl : s.db.KeepsDevices s'.db := ha.later.db.device
    rcases ha.entry hm with hm | hm | ⟨m, x, hv, hpub⟩ | ⟨t, hv, -⟩
    · exact hl.revoked (hs.2 i dev st o e hm)
    · exact hm.elim
    · cases hv
      obtain ⟨hf, hmsg, -⟩ := hpub.event
      exact hl.revoked (hs.1 _ e dev st o hf hmsg)
    · cases hv

namespace Ws

variable {C : Params} {dev : UUID} {x : Ext} {c c' : Conf}

/-! ## The effects -/

def Unregistering (dev : UUID) : (β : Type) → Stmt β → Prop
  | _, .eff (.setActive conn) => conn.deviceId ≠ dev
  | _, _ => True

theorem handle_db {β : Type} (e : Eff β) (ch : Bool) : (e.handle C ch x).2.1.db = x.db := by
  cases e <;> simp only [Eff.handle, raising] <;> (repeat' split) <;> rfl

theorem handle_deviceRead {β : Type} {e : Eff β} {ch : Bool} {r : Device}
    (h : .deviceRead dev (some r) ∈ (e.handle C ch x).2.2) : x.db.devices.find dev = some r := by
  cases e with
  | getDevice id =>
    simp only [Eff.handle] at h
    have := List.mem_singleton.mp (raising_entries h)
    simp only [Ev.deviceRead.injEq] at this
    rw [this.1, ← this.2]
  | _ =>
    simp only [Eff.handle, raising] at h
    (repeat' split at h) <;> simp at h

theorem handle_closed {β : Type} (e : Eff β) (ch : Bool) {id : UUID} (h : id ∈ x.closed) :
    id ∈ (e.handle C ch x).2.1.closed := by
  cases e with
  | closeConnection conn => exact List.mem_cons_of_mem _ h
  | _ =>
    simp only [Eff.handle, raising]
    (repeat' split) <;> exact h

/-- A connection of the device appears only by `setActive`. -/
theorem handle_active (dev : UUID) {β : Type} (e : Eff β) (ch : Bool) :
    (e.handle C ch x).2.1.activeConnections dev = x.activeConnections dev ∨
    (e.handle C ch x).2.1.activeConnections dev = none ∨
    ¬ Unregistering dev β (.eff e) ∧ ∃ conn, conn.deviceId = dev ∧ .registered conn ∈ (e.handle C ch x).2.2 := by
  cases e with
  | setActive conn =>
    by_cases hd : conn.deviceId = dev
    · exact .inr (.inr ⟨fun h => h hd, conn, hd, List.mem_singleton.mpr rfl⟩)
    · exact .inl (if_neg (Ne.symm hd))
  | delActive id k =>
    by_cases hd : dev = id
    · subst hd
      cases ha : x.activeConnections dev with
      | none => exact .inl (by simp [Eff.handle, ha])
      | some conn =>
        by_cases hk : conn.connectionId = k
        · exact .inr (.inl (by simp [Eff.handle, ha, hk]))
        · exact .inl (by simp [Eff.handle, ha, hk])
    · exact .inl (if_neg hd)
  | _ => exact .inl (by simp only [Eff.handle, raising] <;> (repeat' split) <;> rfl)

/-! ## After the revocation -/

/-- The device is revoked. Of the handshakes that found it trusted, all of them
before `t₀` ended, none registers any more. -/
structure Barred (dev : UUID) (t₀ : List (Nat × Ev)) (c : Conf) : Prop where
  revoked : c.world.sh.ext.db.Revoked dev
  old : ∀ e ∈ t₀, e ∈ c.world.sh.trace
  reads : ∀ j r, (j, .deviceRead dev (some r)) ∈ c.world.sh.trace →
    (j, .deviceRead dev (some r)) ∈ t₀ ∨ r.trustStatus = .revoked
  progs : ∀ j r p, (j, .deviceRead dev (some r)) ∈ t₀ → r.trustStatus = .trusted → c.procs[j]? = some p →
    p.prog.All (Unregistering dev)

variable {t₀ : List (Nat × Ev)}

theorem Barred.step (h : Reachable C c) (hb : Barred dev t₀ c) (hs : (sys C).Step c c') : Barred dev t₀ c' := by
  have hrows : ∀ (x : Ext) r, x.db.Revoked dev → x.db.devices.find dev = some r → r.trustStatus = .revoked := by
    rintro x r ⟨r', hf, hr⟩ hf'
    rw [hf] at hf'
    cases hf'
    exact hr
  cases hs with
  | @run w w' ps i call _ s k ch r hp he =>
    have hprogs : ∀ j r' p, (j, .deviceRead dev (some r')) ∈ t₀ → r'.trustStatus = .trusted →
        (ps.set i ⟨call, k r⟩)[j]? = some p → p.prog.All (Unregistering dev) := by
      intro j r' p hj ht hq
      by_cases hij : i = j
      · subst hij
        rw [List.getElem?_set_self (List.getElem?_eq_some_iff.mp hp).1] at hq
        cases hq
        exact (hb.progs i r' _ hj ht hp).2 r
      · rw [List.getElem?_set_ne hij] at hq
        exact hb.progs j r' p hj ht hq
    rcases Sys.exec_ext he with ⟨e, -, hx, ht⟩ | ⟨hx, u, ht, hv⟩
    · refine ⟨?_, fun v hv => ?_, fun j r' hj => ?_, hprogs⟩
      · rw [hx]
        exact (handle_db e ch).symm ▸ hb.revoked
      · rw [ht]
        exact List.mem_append_left _ (hb.old v hv)
      · rw [ht] at hj
        rcases List.mem_append.mp hj with hj | hj
        · exact hb.reads j r' hj
        · obtain ⟨v, hv, hvj⟩ := List.mem_map.mp hj
          cases hvj
          exact .inr (hrows _ r' hb.revoked (handle_deviceRead hv))
    · refine ⟨hx ▸ hb.revoked, fun v hv => ?_, fun j r' hj => ?_, hprogs⟩
      · rw [ht]
        exact List.mem_append_left _ (hb.old v hv)
      · rw [ht] at hj
        rcases List.mem_append.mp hj with hj | hj
        · exact hb.reads j r' hj
        · obtain ⟨v, hm, hvj⟩ := List.mem_map.mp hj
          cases hvj
          rcases hv _ hm with ⟨e, he⟩ | ⟨l, -⟩
          · cases he
          · exact l.elim
  | @start w ps call =>
    refine ⟨hb.revoked, hb.old, hb.reads, fun j r p hj ht hp => ?_⟩
    rcases Nat.lt_or_ge j ps.length with hlt | hge
    · rw [List.getElem?_append_left hlt] at hp
      exact hb.progs j r p hj ht hp
    · -- a process that has not started has read nothing
      have := mem_own.mpr (hb.old _ hj)
      rw [h.unborn hge] at this
      cases this
  | env hx =>
    refine ⟨?_, hb.old, hb.reads, hb.progs⟩
    cases hx with
    | store hd => exact hd.revoked hb.revoked
    | _ => exact hb.revoked

/-- No connection of the device appears, and none is opened again. -/
theorem Barred.active (h : Reachable C c) (hb : Barred dev t₀ c) (hs : (sys C).Step c c') :
    (c'.world.sh.ext.activeConnections dev = c.world.sh.ext.activeConnections dev ∨
      c'.world.sh.ext.activeConnections dev = none) ∧
    ∀ id ∈ c.world.sh.ext.closed, id ∈ c'.world.sh.ext.closed := by
  have hb' := hb.step h hs
  have hsound := reachable_sound (.step h hs)
  cases hs with
  | @run w w' ps i call _ s k ch r hp he =>
    rcases Sys.exec_ext he with ⟨e, rfl, hx, ht⟩ | ⟨hx, -⟩
    · refine ⟨?_, fun id hid => ?_⟩
      · rw [hx]
        rcases handle_active (C := C) (x := w.sh.ext) dev e ch with ha | ha | ⟨hreg, conn, rfl, hm⟩
        · exact .inl ha
        · exact .inr ha
        · -- the handshake has read the device as trusted, so before the revocation
          have hm : (i, .registered conn) ∈ w'.sh.trace := by
            rw [ht]
            exact List.mem_append_right _ (List.mem_map_of_mem hm)
          obtain ⟨_, _, device, _, ha⟩ := (hsound i).registered conn (mem_own.mpr hm)
          rcases hb'.reads i device (mem_own.mp ha.read) with hj | hr
          · exact absurd (hb.progs i device _ hj ha.trusted hp).1 hreg
          · rw [ha.trusted] at hr
            cases hr
      · rw [hx]
        exact handle_closed e ch hid
    · rw [hx]
      exact ⟨.inl rfl, fun _ hid => hid⟩
  | start => exact ⟨.inl rfl, fun _ hid => hid⟩
  | env hx =>
    cases hx with
    | @unregister id =>
      refine ⟨?_, fun _ hid => hid⟩
      by_cases hd : dev = id
      · exact .inr (if_pos hd)
      · exact .inl (if_neg hd)
    | closed => exact ⟨.inl rfl, fun _ hid => List.mem_cons_of_mem _ hid⟩
    | _ => exact ⟨.inl rfl, fun _ hid => hid⟩

/-! ## The callback -/

def Connected (x : Ext) (dev : UUID) : Prop :=
  ∃ conn, x.activeConnections dev = some conn ∧ conn.connectionId ∉ x.closed

inductive Phase (dev : UUID) (i : Nat) (c : Conf) : Prop
  | look {call k} : c.procs[i]? = some ⟨call, .op (.eff (.getActive dev)) k⟩ →
      (∀ conn, ∃ k', k (.ok (some conn)) = .op (.eff (.closeConnection conn 4002 "Device revoked")) k') →
      Phase dev i c
  | close {call conn k} : c.procs[i]? = some ⟨call, .op (.eff (.closeConnection conn 4002 "Device revoked")) k⟩ →
      (∀ conn', c.world.sh.ext.activeConnections dev = some conn' → conn' = conn) → Phase dev i c
  | gone : ¬ Connected c.world.sh.ext dev → Phase dev i c

theorem Phase.step {i : Nat} (h : Reachable C c) (hb : Barred dev t₀ c)
    (hs : (sys C).Step c c') (hp : Phase dev i c) : Phase dev i c' := by
  obtain ⟨hact, hclosed⟩ := hb.active h hs
  cases hp with
  | look hi hk =>
    cases hs.seen hi with
    | other hi' _ => exact .look hi' hk
    | self hop he _ _ hi' =>
      cases hop
      simp only [Sys.exec] at he
      obtain ⟨hr, hw⟩ := Prod.mk.inj (Option.some.inj he)
      have hext : c'.world.sh.ext = c.world.sh.ext := by rw [← hw]; rfl
      cases ha : c.world.sh.ext.activeConnections dev with
      | none =>
        refine .gone ?_
        rintro ⟨conn, hc, -⟩
        rw [hext, ha] at hc
        cases hc
      | some conn =>
        obtain ⟨k', hk'⟩ := hk conn
        have hr : _ = Except.ok (some conn) := hr.symm.trans (congrArg Except.ok ha)
        rw [hr, hk'] at hi'
        refine .close hi' fun conn' hc => ?_
        rw [hext, ha] at hc
        exact (Option.some.inj hc).symm
  | @close call conn k hi hc =>
    cases hs.seen hi with
    | other hi' _ =>
      refine .close hi' fun conn' hc' => ?_
      rcases hact with ha | ha
      · exact hc conn' (ha ▸ hc')
      · rw [ha] at hc'
        cases hc'
    | self hop he _ _ hi' =>
      cases hop
      simp only [Sys.exec] at he
      obtain ⟨hr, hw⟩ := Prod.mk.inj (Option.some.inj he)
      refine .gone ?_
      rintro ⟨conn', hc', ho⟩
      rw [← hw] at hc' ho
      cases hc conn' hc'
      exact ho (List.mem_cons_self ..)
  | gone hn =>
    refine .gone ?_
    rintro ⟨conn, hc, ho⟩
    rcases hact with ha | ha
    · exact hn ⟨conn, ha ▸ hc, fun hm => ho (hclosed _ hm)⟩
    · rw [ha] at hc
      cases hc

theorem Phase.ended {i : Nat} {p : Sys.Proc Unit Empty Empty Empty Call Err Eff} (h : Phase dev i c)
    (hi : c.procs[i]? = some p) (hp : p.prog.ended = true) : ¬ Connected c.world.sh.ext dev := by
  cases h with
  | look hi' =>
    rw [hi'] at hi
    cases hi
    cases hp
  | close hi' =>
    rw [hi'] at hi
    cases hi
    cases hp
  | gone hn => exact hn

def Registering (c : Conf) (dev : UUID) : Prop :=
  ∃ i p r, c.procs[i]? = some p ∧ (i, .deviceRead dev (some r)) ∈ c.world.sh.trace ∧ r.trustStatus = .trusted ∧
    ¬ p.prog.All (Unregistering dev)

def notify (C : Params) (c : Conf) (data : Option Json) : Conf :=
  ⟨c.world, c.procs ++ [⟨.lifecycle data, deviceLifecycleCallback C data⟩]⟩

/-- If no handshake is about to register when the callback for the revocation of a
device starts, the device has no open connection from the end of the callback on. -/
theorem revocation_disconnects {data : Option Json} (h : Reachable C c) (hrev : c.world.sh.ext.db.Revoked dev)
    (hdata : revokedDevice C data = some dev) (hfree : ¬ Registering c dev)
    (hr : ReflTransGen (sys C).Step (notify C c data) c') {p : Sys.Proc Unit Empty Empty Empty Call Err Eff}
    (hi : c'.procs[c.procs.length]? = some p) (hp : p.prog.ended = true) : ¬ Connected c'.world.sh.ext dev := by
  have hadm : (sys C).admits c.world.sh.db c.world.sh.ext (.lifecycle data) := trivial
  have hstart : (sys C).Step c (notify C c data) := .start hadm
  have hb : Barred dev c.world.sh.trace c := by
    refine ⟨hrev, fun _ he => he, fun _ _ hm => .inl hm, fun j r p hm ht hj => ?_⟩
    by_contra hn
    exact hfree ⟨j, p, r, hj, hm, ht, hn⟩
  have hphase : Phase dev c.procs.length (notify C c data) := by
    have hprog : ∃ k, deviceLifecycleCallback C data = .op (.eff (.getActive dev)) k ∧
        ∀ conn, ∃ k', k (.ok (some conn)) = .op (.eff (.closeConnection conn 4002 "Device revoked")) k' := by
      unfold deviceLifecycleCallback
      rw [hdata]
      exact ⟨_, rfl, fun conn => ⟨_, rfl⟩⟩
    obtain ⟨k, hprog, hk⟩ := hprog
    have hproc : (notify C c data).procs[c.procs.length]? =
        some ⟨.lifecycle data, .op (.eff (.getActive dev)) k⟩ := by
      rw [← hprog]
      exact List.getElem?_concat_length ..
    exact .look hproc hk
  suffices hall : Reachable C c' ∧ Barred dev c.world.sh.trace c' ∧ Phase dev c.procs.length c' from
    hall.2.2.ended hi hp
  clear hi hp
  induction hr with
  | refl => exact ⟨.step h hstart, hb.step h hstart, hphase⟩
  | tail _ hs ih => exact ⟨.step ih.1 hs, ih.2.1.step ih.1 hs, ih.2.2.step ih.1 ih.2.1 hs⟩

/-! ## Two revocations -/

/-- The payload of the event that `revoke_device` adds for device `5` of owner `7`. -/
def demoNotice : Json :=
  .obj [("device_id", .str "00000000-0000-0000-0000-000000000005"), ("state", .str "revoked"),
  ("owner_id", .str "00000000-0000-0000-0000-000000000007")]

def demoEmpty : Conf := ⟨⟨⟨(), demoSocket, []⟩, fun _ => none, fun _ => ⟨[], false⟩⟩, []⟩

theorem demoEmpty_reachable : Reachable demoParams demoEmpty :=
  .init ⟨rfl, rfl, fun _ => rfl, fun _ => rfl, trivial⟩

def connected5 (x : Ext) : Bool :=
  (x.activeConnections 5).any fun conn => !x.closed.contains conn.connectionId

theorem connected5_iff {x : Ext} : connected5 x = true ↔ Connected x 5 := by
  simp [connected5, Connected, Option.any_eq_true]

/-- The device is revoked after `before`. Its callback, process `1`, has ended at the end
of `after`. -/
def revokes (before after : List (Turn Move)) (φ : Conf → Conf → Bool) : Bool :=
  (Sys.play (moves demoParams) before demoEmpty).any fun c =>
    (c.world.sh.ext.db.devices.find 5).any (·.trustStatus == .revoked) && c.procs.length == 1 &&
    (Sys.play (moves demoParams) after (notify demoParams c (some demoNotice))).any fun c' =>
      c'.procs[1]?.any (·.prog.ended) && φ c c'

theorem revokes_run (before after : List (Turn Move)) {φ : Conf → Conf → Bool} (h : revokes before after φ = true) :
    ∃ c c' p, Reachable demoParams c ∧ c.world.sh.ext.db.Revoked 5 ∧
      revokedDevice demoParams (some demoNotice) = some 5 ∧
      ReflTransGen (sys demoParams).Step (notify demoParams c (some demoNotice)) c' ∧
      c'.procs[c.procs.length]? = some p ∧ p.prog.ended = true ∧ φ c c' = true := by
  obtain ⟨c, hc, h⟩ := (Option.any_eq_true _ _).mp h
  simp only [Bool.and_eq_true, Option.any_eq_true, beq_iff_eq] at h
  obtain ⟨⟨⟨r, hr, ht⟩, hlen⟩, c', hc', ⟨p, hp, hend⟩, hφ⟩ := h
  exact ⟨c, c', p, demoEmpty_reachable.runs (Sys.play_runs _ hc), ⟨r, hr, ht⟩,
    by decide +kernel, Sys.play_runs _ hc', hlen ▸ hp, hend, hφ⟩

/-- The device is revoked when its handshake is over. -/
theorem revocation_disconnects_registered : ∃ c c', Reachable demoParams c ∧ c.world.sh.ext.db.Revoked 5 ∧
    Connected c.world.sh.ext 5 ∧ ReflTransGen (sys demoParams).Step (notify demoParams c (some demoNotice)) c' ∧
    ¬ Connected c'.world.sh.ext 5 := by
  obtain ⟨c, c', p, hc, hrev, hdata, hr, hi, hp, hφ⟩ := revokes_run (demoRun ++ [.other (.revoke 5)])
    (List.replicate 6 (.run 1 true)) (φ := fun c _ => connected5 c.world.sh.ext && c.procs.all (·.prog.ended))
    (by decide +kernel)
  rw [Bool.and_eq_true, List.all_eq_true] at hφ
  refine ⟨c, c', hc, hrev, connected5_iff.mp hφ.1, hr, revocation_disconnects hc hrev hdata ?_ hr hi hp⟩
  rintro ⟨i, q, r, hq, -, -, hn⟩
  have hend := hφ.2 q (List.mem_of_getElem? hq)
  cases hprog : q.prog with
  | op s k =>
    rw [hprog] at hend
    cases hend
  | _ => exact hn (by rw [hprog]; trivial)

/-- The device is revoked, and the callback runs, between the check of its trust and
its registration. -/
theorem revoked_connects : ∃ c c' p, Reachable demoParams c ∧ c.world.sh.ext.db.Revoked 5 ∧
    revokedDevice demoParams (some demoNotice) = some 5 ∧
    ReflTransGen (sys demoParams).Step (notify demoParams c (some demoNotice)) c' ∧
    c'.procs[c.procs.length]? = some p ∧ p.prog.ended = true ∧ Connected c'.world.sh.ext 5 := by
  obtain ⟨c, c', p, hc, hrev, hdata, hr, hi, hp, hφ⟩ := revokes_run
    (.other (.connect (.connect "v1" "1.0.0")) :: List.replicate 7 (.run 0 true) ++
      [.other (.inbox (.frame demoAnswer)), .run 0 true, .run 0 true, .other (.revoke 5)])
    (.run 1 true :: List.replicate 9 (.run 0 true)) (φ := fun _ c' => connected5 c'.world.sh.ext)
    (by decide +kernel)
  exact ⟨c, c', p, hc, hrev, hdata, hr, hi, hp, connected5_iff.mp hφ⟩

end Ws

end Veyaan
