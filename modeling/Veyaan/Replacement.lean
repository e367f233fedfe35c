import Veyaan.ConnectionManager

/-!
# One live connection for each device

`register` closes the connection it finds, and then sets its own and writes it
to Valkey. In between other calls take their turns. When all registrations of
a device are done, the others of its connections are closed and Valkey names the
entry, unless two registrations have overlapped, or a connection was removed open
or before its record was written.
-/

open Relation (ReflTransGen)

namespace Veyaan

namespace Manager

def toWrite (d : UUID) (p : Process) : Bool :=
  match p.call, p.prog with
  | .register .., .op (.eff (.expire ..)) _ => false
  | .register _ conn, .op _ _ => conn.deviceId == d
  | _, _ => false

def removing (d id : UUID) (p : Process) : Bool :=
  match p.prog with
  | .op (.eff (.delete (.presence e) id')) _ => e == d && id' == id
  | .op (.eff (.removeEntry _ e id')) _ => e == d && id' == id
  | _ => false

def replacing (p : Process) : Option UUID :=
  match p.prog with
  | .op (.eff (.install _ _ old)) _ => some old.connectionId
  | _ => none

def hasInstalled (p : Process) : Bool :=
  match p.prog with
  | .op (.eff (.lookUp ..)) _ => false
  | .op (.eff (.close ..)) _ => false
  | .op (.eff (.install ..)) _ => false
  | _ => true

/-- The record `v` of `d` is that of the entry, or some registration other than that of
process `i` has still to write its own. -/
def Agrees (g : GatewayId) (d : UUID) (c : Conf) (i : Nat) (v : Option UUID) : Prop :=
  (∀ r, v = some r → ∃ e, c.world.sh.ext.activeConnections g d = some e ∧ e.connectionId = r) ∨
    ∃ j p, j ≠ i ∧ c.procs[j]? = some p ∧ toWrite d p = true

def Fine (g : GatewayId) (d : UUID) (c : Conf) (i : Nat) : Ev → Prop
  -- the entry is the one `register` saw and closed, or its socket has ended
  | .installed h conn old => h = g → conn.deviceId = d → ∀ e, c.world.sh.ext.activeConnections g d = some e →
      old = some e ∨ e.connectionId ∈ c.world.sh.ext.closed
  -- the connection is the entry, and no `unregister` of it has looked at the record before
  | .wrote key id => key = .connection d → Agrees g d c i (some id) ∧ ∀ p ∈ c.procs, removing d id p = false
  | .writeFailed key => key = .connection d → Agrees g d c i (c.world.sh.ext.hashes (.connection d))
  | .removed h e conn => h = g → e = d → conn.connectionId ∈ c.world.sh.ext.closed
  | _ => True

abbrev Ordered (g : GatewayId) (d : UUID) : Conf → Conf → Prop := Reporting (Fine g d)

def OneLive (g : GatewayId) (d : UUID) (c : Conf) : Prop :=
  (∀ p ∈ c.procs, ∀ conn, p.call = .register g conn → conn.deviceId = d →
    c.world.sh.ext.activeConnections g d = some conn ∨ conn.connectionId ∈ c.world.sh.ext.closed) ∧
  ∀ r, c.world.sh.ext.hashes (.connection d) = some r →
    ∃ e, c.world.sh.ext.activeConnections g d = some e ∧ e.connectionId = r

structure Kept (g : GatewayId) (d : UUID) (c : Conf) : Prop where
  replaced : ∀ p ∈ c.procs, ∀ id, replacing p = some id → id ∈ c.world.sh.ext.closed
  live : ∀ p ∈ c.procs, ∀ conn, p.call = .register g conn → conn.deviceId = d → hasInstalled p = true →
    c.world.sh.ext.activeConnections g d = some conn ∨ conn.connectionId ∈ c.world.sh.ext.closed
  unwritten : ∀ p ∈ c.procs, ∀ id, removing d id p = true → c.world.sh.ext.hashes (.connection d) ≠ some id
  record : (∀ r, c.world.sh.ext.hashes (.connection d) = some r →
    ∃ e, c.world.sh.ext.activeConnections g d = some e ∧ e.connectionId = r) ∨ ∃ p ∈ c.procs, toWrite d p = true

section
variable {g : GatewayId} {d : UUID} {c c' : Conf} {i : Nat} {call : Call} {ph ph' : Phase}
    {x x' : Ext} {vs : List Ev}

/-- A registration that writes its record was one that had to. -/
theorem toWrite_goes (ha : At call ph) (hg : Goes x ph x' vs ph') (h : toWrite d ⟨call, ph.prog⟩ = true) :
    toWrite d ⟨call, ph'.prog⟩ = true ∨ ∃ id ttl, ph = .hset (.connection d) id ttl := by
  cases ha with
  | lookUp => cases hg <;> exact .inl h
  | closeOld => cases hg; exact .inl h
  | install => cases hg; exact .inl h
  | hset =>
    have hd := eq_of_beq h
    exact .inr ⟨_, _, by rw [hd]⟩
  | ask hu => cases call <;> first | cases h | exact hu.elim
  | deleteConnection hu => cases call <;> first | cases h | exact hu.elim
  | deletePresence hu => cases call <;> first | cases h | exact hu.elim
  | remove hu => cases call <;> first | cases h | exact hu.elim
  | ended => cases hg
  | _ => cases h

theorem closed_goes (hg : Goes x ph x' vs ph') {id : UUID} (h : id ∈ x.closed) : id ∈ x'.closed := by
  cases hg with
  | closeOld => exact List.mem_cons_of_mem _ h
  | closeFound => exact List.mem_cons_of_mem _ h
  | _ => exact h

theorem mem_moved {ps : List Process} {p q : Process} (h : p ∈ ps.set i q) : p = q ∨ p ∈ ps :=
  (List.mem_or_eq_of_mem_set h).symm

section
variable (hk : Kept g d c) (ha : At call ph) (hg : Goes c.world.sh.ext ph x' vs ph') {p : Process}
  (h : p ∈ c.procs.set i ⟨call, ph'.prog⟩)
include hk hg h

theorem replaced_goes {id : UUID} (hr : replacing p = some id) : id ∈ x'.closed := by
  rcases mem_moved h with rfl | hq
  · cases hg with
    | closeOld => cases hr; exact List.mem_cons_self
    | @expire _ _ r => cases r <;> cases hr
    | _ => cases hr
  · exact closed_goes hg (hk.replaced p hq id hr)

include ha

theorem live_goes (hi : c.procs[i]? = some ⟨call, ph.prog⟩)
    (hf : ∀ v, vs = [v] → Fine g d c i v) {conn : DeviceConnection}
    (hc : p.call = .register g conn) (hd : conn.deviceId = d) (hr : hasInstalled p = true) :
    x'.activeConnections g d = some conn ∨ conn.connectionId ∈ x'.closed := by
  rcases mem_moved h with rfl | hq
  · -- the mover has just set its entry, or had set it before
    cases hc
    cases ha with
    | lookUp =>
      cases hg with
      | alone => exact .inl (by simp [hd])
      | found => cases hr
    | closeOld => cases hg; cases hr
    | install => cases hg; exact .inl (by simp [hd])
    | hset =>
      have hl := hk.live _ (List.mem_of_getElem? hi) conn rfl hd rfl
      cases hg <;> exact hl
    | expire =>
      have hl := hk.live _ (List.mem_of_getElem? hi) conn rfl hd rfl
      cases hg; exact hl
    | ask hu => exact hu.elim
    | deleteConnection hu => exact hu.elim
    | deletePresence hu => exact hu.elim
    | remove hu => exact hu.elim
    | ended => cases hg
  · have hl := hk.live p hq conn hc hd hr
    cases hg with
    | @alone k new hn =>
      by_cases he : g = k ∧ d = new.deviceId
      · obtain ⟨rfl, rfl⟩ := he
        rw [hn] at hl
        exact hl.imp_left fun h => by cases h
      · simpa [he] using hl
    | @install k new old =>
      by_cases he : g = k ∧ d = new.deviceId
      · obtain ⟨rfl, rfl⟩ := he
        refine .inr (hl.elim (fun hl => ?_) id)
        rcases hf _ rfl rfl rfl conn hl with ho | hc
        · cases ho
          exact hk.replaced _ (List.mem_of_getElem? hi) _ rfl
        · exact hc
      · simpa [he] using hl
    | closeOld => exact hl.imp_right (List.mem_cons_of_mem _)
    | closeFound => exact hl.imp_right (List.mem_cons_of_mem _)
    | @removed k e _ gone hn =>
      by_cases he : g = k ∧ d = e
      · obtain ⟨rfl, rfl⟩ := he
        refine .inr (hl.elim (fun hl => ?_) id)
        rw [hn] at hl
        cases hl
        exact hf _ rfl rfl rfl
      · simpa [he] using hl
    | _ => exact hl

omit ha in
theorem unwritten_goes (hf : ∀ v, vs = [v] → Fine g d c i v) (hi : c.procs[i]? = some ⟨call, ph.prog⟩) {id : UUID}
    (hr : removing d id p = true) : x'.hashes (.connection d) ≠ some id := by
  rcases mem_moved h with rfl | hq
  · cases hg with
    | other hn =>
      obtain ⟨hd, hid⟩ := Bool.and_eq_true_iff.mp hr
      rw [eq_of_beq hd, eq_of_beq hid] at hn
      exact hn
    | deleteConnection =>
      obtain ⟨hd, -⟩ := Bool.and_eq_true_iff.mp hr
      simp [eq_of_beq hd]
    | deletePresence => simpa using hk.unwritten _ (List.mem_of_getElem? hi) id hr
    | @expire _ _ r => cases r <;> cases hr
    | _ => cases hr
  · have hu := hk.unwritten p hq id hr
    cases hg with
    | @wrote key new _ =>
      by_cases hkey : key = .connection d
      · intro he
        simp only [Ext.setHash_hashes, hkey, if_true, Option.some.injEq] at he
        have := (hf _ rfl hkey).2 p hq
        rw [he, hr] at this
        cases this
      · simpa [Ne.symm hkey] using hu
    | @deleteConnection _ e _ =>
      by_cases he : d = e
      · simp [he]
      · simpa [he] using hu
    | deletePresence => simpa using hu
    | _ => exact hu

end

/-- The record agrees with the entry, or it will be written anew, after a step too. -/
theorem record_goes (hk : Kept g d c) (ha : At call ph) (hg : Goes c.world.sh.ext ph x' vs ph')
    (hi : c.procs[i]? = some ⟨call, ph.prog⟩) (hf : ∀ v, vs = [v] → Fine g d c i v) :
    (∀ r, x'.hashes (.connection d) = some r → ∃ e, x'.activeConnections g d = some e ∧ e.connectionId = r) ∨
      ∃ p ∈ c.procs.set i ⟨call, ph'.prog⟩, toWrite d p = true := by
  have hself : (⟨call, ph'.prog⟩ : Process) ∈ c.procs.set i ⟨call, ph'.prog⟩ :=
    List.mem_set (List.getElem?_eq_some_iff.mp hi).1 _
  have hothers : ∀ j p, j ≠ i → c.procs[j]? = some p → p ∈ c.procs.set i ⟨call, ph'.prog⟩ := by
    intro j p hj hp
    exact List.mem_of_getElem? (by rw [List.getElem?_set_ne (Ne.symm hj)]; exact hp)
  -- a registration that had to write its record still has to, if it does not write now
  have hkeep : (∀ id ttl, ph ≠ .hset (.connection d) id ttl) → (∃ p ∈ c.procs, toWrite d p = true) →
      ∃ p ∈ c.procs.set i ⟨call, ph'.prog⟩, toWrite d p = true := by
    rintro hne ⟨p, hp, hw⟩
    obtain ⟨j, hj⟩ := List.getElem?_of_mem hp
    by_cases hij : j = i
    · subst hij
      rw [hi] at hj
      cases hj
      rcases toWrite_goes ha hg hw with hw | ⟨id, ttl, hph⟩
      · exact ⟨_, hself, hw⟩
      · exact absurd hph (hne id ttl)
    · exact ⟨p, hothers j p hij hj, hw⟩
  have hagrees : ∀ {v}, Agrees g d c i v → (∀ r, v = some r → ∃ e, c.world.sh.ext.activeConnections g d = some e ∧
      e.connectionId = r) ∨ ∃ p ∈ c.procs.set i ⟨call, ph'.prog⟩, toWrite d p = true :=
    fun h => h.imp_right fun ⟨j, p, hj, hp, hw⟩ => ⟨p, hothers j p hj hp, hw⟩
  cases hg with
  | @alone k new hn =>
    cases ha
    by_cases hd : new.deviceId = d
    · exact .inr ⟨_, hself, beq_of_eq hd⟩
    · refine hk.record.imp (fun h => ?_) (hkeep (by simp))
      simpa [Ne.symm hd] using h
  | @install k new old =>
    cases ha
    by_cases hd : new.deviceId = d
    · exact .inr ⟨_, hself, beq_of_eq hd⟩
    · refine hk.record.imp (fun h => ?_) (hkeep (by simp))
      simpa [Ne.symm hd] using h
  | @wrote key id ttl =>
    by_cases hkey : key = .connection d
    · simpa [hkey] using hagrees (hf _ rfl hkey).1
    · refine hk.record.imp (fun h => ?_) (hkeep (by simp [hkey]))
      simpa [Ne.symm hkey] using h
  | @writeFailed key id ttl =>
    by_cases hkey : key = .connection d
    · exact hagrees (hf _ rfl hkey)
    · exact hk.record.imp_right (hkeep (by simp [hkey]))
  | @deleteConnection _ e _ =>
    refine hk.record.imp (fun h r hr => ?_) (hkeep (by simp))
    by_cases he : d = e
    · simp [he] at hr
    · exact h r (by simpa [he] using hr)
  | deletePresence =>
    refine hk.record.imp (fun h r hr => ?_) (hkeep (by simp))
    exact h r (by simpa using hr)
  | @removed k e id conn hn hid =>
    refine hk.record.imp (fun h r hr => ?_) (hkeep (by simp))
    by_cases he : g = k ∧ d = e
    · -- the record of the connection that goes has gone before
      obtain ⟨rfl, rfl⟩ := he
      obtain ⟨e, hentry, rfl⟩ := h r hr
      rw [hn] at hentry
      cases hentry
      refine absurd hr (hk.unwritten _ (List.mem_of_getElem? hi) _ ?_)
      simp [removing, Phase.prog, effect, Prog.call, hid]
    · simpa [he] using h r hr
  | _ => exact hk.record.imp_right (hkeep (by simp))

theorem Kept.step (hk : Kept g d c) (hm : Moved c c')
    (hf : ∀ i v, c'.world.sh.trace = c.world.sh.trace ++ [(i, v)] → Fine g d c i v) : Kept g d c' := by
  cases hm with
  | @run i call ph vs ph' hi ha hg hp ht =>
    have hf' : ∀ v, vs = [v] → Fine g d c i v := fun v hv => hf i v (by rw [ht, hv]; rfl)
    exact {
      replaced p h id hr := replaced_goes hk hg (hp ▸ h) hr
      live p h conn hc hd hr := live_goes hk ha hg (hp ▸ h) hi hf' hc hd hr
      unwritten p h id hr := unwritten_goes hk hg (hp ▸ h) hf' hi hr
      record := hp ▸ record_goes hk ha hg hi hf' }
  | @start call _ hp hw =>
    have hnew : ∀ p ∈ c'.procs, p = ⟨call, call.first.prog⟩ ∨ p ∈ c.procs := by
      intro p h
      rw [hp] at h
      exact (List.mem_append.mp h).symm.imp_left List.mem_singleton.mp
    obtain ⟨w', ps⟩ := c'
    cases hw
    exact {
      replaced := by
        intro p h id hr
        rcases hnew p h with rfl | h
        · cases call <;> cases hr
        · exact hk.replaced p h id hr
      live := by
        intro p h conn hc hd hr
        rcases hnew p h with rfl | h
        · cases hc; cases hr
        · exact hk.live p h conn hc hd hr
      unwritten := by
        intro p h id hr
        rcases hnew p h with rfl | h
        · cases call <;> cases hr
        · exact hk.unwritten p h id hr
      record := hk.record.imp_right fun ⟨p, h, hr⟩ => ⟨p, hp ▸ List.mem_append_left _ h, hr⟩ }
  | env hx hp _ =>
    obtain ⟨hactive, hclosed, hhash, -⟩ := hx.keeps
    exact {
      replaced p h id hr := hclosed id (hk.replaced p (hp ▸ h) id hr)
      live p h conn hc hd hr := hactive ▸ (hk.live p (hp ▸ h) conn hc hd hr).imp_right (hclosed _)
      unwritten p h id hr he := hk.unwritten p (hp ▸ h) id hr (hhash _ _ he)
      record := by
        rw [hp, hactive]
        exact hk.record.imp_left fun h r hr => h r (hhash _ _ hr) }

theorem Kept.initial (h : Sys.Initial Init c) : Kept g d c where
  replaced := by simp [h.procs]
  live := by simp [h.procs]
  unwritten := by simp [h.procs]
  record := .inl (by simp [h.init.2.1])

end

/-- When no registration of the device is under way. -/
theorem one_live_connection {g : GatewayId} {d : UUID} {c₀ c : Conf} (h₀ : Sys.Initial Init c₀)
    (hr : ReflTransGen (Ordered g d) c₀ c)
    (hq : ∀ p ∈ c.procs, ∀ h conn, p.call = .register h conn → conn.deviceId = d → p.prog.ended = true) :
    OneLive g d c := by
  have hk : Kept g d c := Reporting.keeps h₀ hr (.initial h₀) fun hk hm hf => hk.step hm hf
  constructor
  · intro p hp conn hc hd
    refine hk.live p hp conn hc hd ?_
    have he := hq p hp g conn hc hd
    cases hprog : p.prog with
    | op => rw [hprog] at he; cases he
    | _ => simp [hasInstalled, hprog]
  · refine hk.record.resolve_right ?_
    rintro ⟨⟨call, prog⟩, hp, hw⟩
    cases call with
    | register h conn =>
      cases prog with
      | op s k =>
        simp only [toWrite] at hw
        split at hw
        · cases hw
        · rename_i he _
          cases he
          cases hq _ hp _ _ rfl (eq_of_beq hw)
        · cases hw
      | _ => cases hw
    | _ => cases hw

/-! ## Runs -/

def fine (g : GatewayId) (d : UUID) (c : Conf) (_ : Nat) : Ev → Bool
  | .installed h conn old => h != g || conn.deviceId != d || (c.world.sh.ext.activeConnections g d).all fun e =>
      old == some e || c.world.sh.ext.closed.contains e.connectionId
  | .wrote key id => key != .connection d ||
      (c.world.sh.ext.activeConnections g d).any (·.connectionId == id) && c.procs.all (!removing d id ·)
  | .writeFailed key => key != .connection d
  | .removed h e conn => h != g || e != d || c.world.sh.ext.closed.contains conn.connectionId
  | _ => true

theorem fine_sound (g : GatewayId) (d : UUID) (c : Conf) (i : Nat) (v : Ev) (h : fine g d c i v = true) :
    Fine g d c i v := by
  cases v with
  | installed k conn old =>
    intro hk hd e he
    simpa [fine, hk, hd, he] using h
  | wrote key id =>
    intro hkey
    simp only [fine, hkey, bne_self_eq_false, Bool.false_or, Bool.and_eq_true,
      List.all_eq_true, Bool.not_eq_true'] at h
    obtain ⟨e, he, hid⟩ := (Option.any_eq_true _ _).mp h.1
    exact ⟨.inl fun r hr => ⟨e, he, by cases hr; exact eq_of_beq hid⟩, h.2⟩
  | writeFailed key =>
    intro hkey
    simp [fine, hkey] at h
  | removed k e conn =>
    intro hk he
    simpa [fine, hk, he] using h
  | _ => trivial

def replacedRun : List (Turn Move) :=
  .other (.call (.register 0 ⟨5, 7, 1⟩)) :: List.replicate 3 (.run 0 true) ++
    .other (.call (.register 0 ⟨5, 7, 2⟩)) :: List.replicate 5 (.run 1 true) ++
    .other (.call (.unregister 0 5 1)) :: List.replicate 2 (.run 2 true)

theorem one_live_connection_replaced : ∃ c₀ c, Sys.Initial Init c₀ ∧ ReflTransGen (Ordered 0 5) c₀ c ∧
    c.world.sh.ext.activeConnections 0 5 = some ⟨5, 7, 2⟩ ∧ OneLive 0 5 c := by
  have hplay : (Sys.playIf moves (passes (fine 0 5)) replacedRun gatewayStart).any (fun c =>
      c.world.sh.ext.activeConnections 0 5 == some ⟨5, 7, 2⟩ && c.procs.all (·.prog.ended)) = true := by
    decide +kernel
  obtain ⟨c, hc, hφ⟩ := (Option.any_eq_true _ _).mp hplay
  simp only [Bool.and_eq_true, List.all_eq_true, beq_iff_eq] at hφ
  have hr : ReflTransGen (Ordered 0 5) gatewayStart c :=
    Sys.playIf_runs _ (Q := Ordered 0 5) (passes_reporting (fine_sound 0 5)) hc
  exact ⟨_, c, gatewayStart_initial, hr, hφ.1,
    one_live_connection gatewayStart_initial hr fun p hp _ _ _ _ => hφ.2 p hp⟩

/-- Two registrations see the same connection, close it, and set their own. -/
def overlappingRun : List (Turn Move) :=
  .other (.call (.register 0 ⟨5, 7, 1⟩)) :: List.replicate 3 (.run 0 true) ++
    .other (.call (.register 0 ⟨5, 7, 2⟩)) :: List.replicate 2 (.run 1 true) ++
    .other (.call (.register 0 ⟨5, 7, 3⟩)) :: List.replicate 2 (.run 2 true) ++
    List.replicate 3 (.run 1 true) ++ List.replicate 3 (.run 2 true)

theorem second_connection_left_open : ∃ c, sys.Reachable Init c ∧ (∀ p ∈ c.procs, p.call.gateway = 0) ∧
    (registrations 5 c).Nodup ∧ (∀ p ∈ c.procs, p.prog.ended = true) ∧ ¬ OneLive 0 5 c := by
  have hplay : (Sys.play moves overlappingRun gatewayStart).any (fun c =>
      c.procs.all (fun p => p.call.gateway == 0 && p.prog.ended) && registrations 5 c == [1, 2, 3] &&
      c.world.sh.ext.activeConnections 0 5 == some ⟨5, 7, 3⟩ && !c.world.sh.ext.closed.contains 2) = true := by
    decide +kernel
  obtain ⟨c, hc, hφ⟩ := (Option.any_eq_true _ _).mp hplay
  simp only [Bool.and_eq_true, List.all_eq_true, beq_iff_eq, Bool.not_eq_true', List.contains_eq_mem,
    decide_eq_false_iff_not] at hφ
  obtain ⟨⟨⟨hall, hids⟩, hentry⟩, hopen⟩ := hφ
  refine ⟨c, (Sys.Reachable.init gatewayStart_initial).runs (Sys.play_runs _ hc),
    fun p hp => (hall p hp).1, by simp [hids], fun p hp => (hall p hp).2, fun hl => ?_⟩
  obtain ⟨p, hp, h, conn, hcall, hd, hid⟩ := mem_registrations.mp (by rw [hids]; simp : 2 ∈ registrations 5 c)
  have hg := (hall p hp).1
  rw [hcall] at hg
  cases hg
  rcases hl.1 p hp conn hcall hd with he | he
  · rw [hentry] at he
    cases he
    cases hid
  · exact hopen (hid ▸ he)

end Manager

end Veyaan
