import Veyaan.ConnectionManager

/-!
# An old disconnect and a newer presence

`unregister` asks Valkey whether the record of the device is still its own, and then
deletes two hashes, one request after the other. Gateways share Valkey, so a newer
connection of the device can register and report in between. Unless one does, what
`unregister` deletes is not newer than the connection it is about.
-/

open Relation (ReflTransGen)

namespace Veyaan

namespace Manager

def Newer (d : UUID) (c : Conf) (k old : UUID) : Prop := [old, k].Sublist (registrations d c)

instance (d : UUID) (c : Conf) (k old : UUID) : Decidable (Newer d c k old) :=
  inferInstanceAs (Decidable ([old, k].Sublist (registrations d c)))

/-- An `unregister` of `old` that has found its own record, and has still to delete `key`. -/
def owes (key : HashKey) (old : UUID) (p : Process) : Bool :=
  match p.prog with
  | .op (.eff (.delete (.connection d) id)) _ => (key == .connection d || key == .presence d) && id == old
  | .op (.eff (.delete (.presence d) id)) _ => key == .presence d && id == old
  | _ => false

def Erases (c c' : Conf) (key : HashKey) (old k : UUID) : Prop :=
  sys.Step c c' ∧ ∃ i, c'.world.sh.trace = c.world.sh.trace ++ [(i, .deleted key old (some k))]

def Careful (d : UUID) (c : Conf) (_ : Nat) : Ev → Prop
  -- nothing newer is written where an `unregister` is about to delete
  | .wrote key k => key.deviceId = d → ∀ p ∈ c.procs, ∀ old, owes key old p = true → ¬ Newer d c k old
  -- no newer connection has reported its presence beside the record of an older one
  | .asked e old valkeyConn => e = d → valkeyConn = some old → ∀ k, c.world.sh.ext.hashes (.presence d) = some k →
      ¬ Newer d c k old
  | _ => True

section
variable {d : UUID} {c c' : Conf} {k old : UUID}

theorem not_newer_self (hn : (registrations d c).Nodup) : ¬ Newer d c old old := by
  intro h
  simpa using h.nodup hn

theorem newer_of_append {l : List UUID} (hl : registrations d c' = registrations d c ++ l)
    (hn : (registrations d c').Nodup)
    (hk : k ∈ registrations d c) (h : Newer d c' k old) : Newer d c k old := by
  rw [hl] at hn
  rw [Newer, hl] at h
  obtain ⟨l₁, l₂, he, h₁, h₂⟩ := List.sublist_append_iff.mp h
  have hne : k ∉ l₂ := fun hm => (List.disjoint_of_nodup_append hn) hk (h₂.subset hm)
  -- `k` comes last of the two, and is none of the new ones
  rcases l₁ with _ | ⟨a, _ | ⟨b, t⟩⟩
  · cases he
    exact absurd (by simp) hne
  · cases he
    exact absurd (by simp) hne
  · simp only [List.cons_append, List.cons.injEq, List.nil_eq, List.append_eq_nil_iff] at he
    obtain ⟨rfl, rfl, rfl, -⟩ := he
    exact h₁

structure Guarded (d : UUID) (c : Conf) : Prop where
  safe : ∀ key, key.deviceId = d → ∀ p ∈ c.procs, ∀ old, owes key old p = true →
    ∀ k, c.world.sh.ext.hashes key = some k → ¬ Newer d c k old
  known : ∀ key, key.deviceId = d → ∀ k, c.world.sh.ext.hashes key = some k → k ∈ registrations d c
  registered : ∀ conn ∈ c.world.sh.ext.registered, conn.deviceId = d → conn.connectionId ∈ registrations d c
  beating : ∀ p ∈ c.procs, ∀ g conn, p.call = .heartbeat g conn → conn ∈ c.world.sh.ext.registered

theorem Guarded.initial (h : Sys.Initial Init c) : Guarded d c where
  safe := by simp [h.procs]
  known := by simp [h.init.2.1]
  registered := by simp [h.init.2.2]
  beating := by simp [h.procs]

section
variable {i : Nat} {call : Call} {ph ph' : Phase} {x' : Ext} {vs : List Ev} (hk : Guarded d c) (ha : At call ph)
  (hg : Goes c.world.sh.ext ph x' vs ph') (hi : c.procs[i]? = some ⟨call, ph.prog⟩)
  (hf : ∀ v, vs = [v] → Careful d c i v)
include hk hg hf

theorem safe_goes (hn : (registrations d c).Nodup) (hi : c.procs[i]? = some ⟨call, ph.prog⟩) {p : Process}
    (h : p ∈ c.procs.set i ⟨call, ph'.prog⟩) {key : HashKey} (hkey : key.deviceId = d) {old k : UUID}
    (ho : owes key old p = true) (hh : x'.hashes key = some k) : ¬ Newer d c k old := by
  rcases List.mem_or_eq_of_mem_set h with hq | rfl
  · have hs := hk.safe key hkey p hq old ho
    cases hg with
    | @wrote key' new _ =>
      by_cases he : key = key'
      · simp only [Ext.setHash_hashes, he, if_true, Option.some.injEq] at hh
        subst he hh
        exact hf _ rfl hkey p hq old ho
      · exact hs k (by simpa [he] using hh)
    | @deleteConnection _ e _ =>
      by_cases he : key = .connection e
      · simp [he] at hh
      · exact hs k (by simpa [he] using hh)
    | @deletePresence _ e _ =>
      by_cases he : key = .presence e
      · simp [he] at hh
      · exact hs k (by simpa [he] using hh)
    | _ => exact hs k hh
  · cases hg with
    | @own _ e id hown =>
      obtain ⟨hor, hid⟩ := Bool.and_eq_true_iff.mp ho
      cases eq_of_beq hid
      rcases Bool.or_eq_true_iff.mp hor with hc | hp
      · cases eq_of_beq hc
        rw [hown] at hh
        cases hh
        exact not_newer_self hn
      · cases eq_of_beq hp
        cases hkey
        exact hf _ rfl rfl rfl k hh
    | @deleteConnection _ e id =>
      obtain ⟨hp, hid⟩ := Bool.and_eq_true_iff.mp ho
      cases eq_of_beq hid
      cases eq_of_beq hp
      refine hk.safe _ hkey _ (List.mem_of_getElem? hi) _ ?_ k (by simpa using hh)
      simp [owes, Phase.prog, effect, Prog.call]
    | @expire _ _ r => cases r <;> cases ho
    | _ => cases ho

omit hf
include ha hi

theorem known_goes {key : HashKey} (hkey : key.deviceId = d) (hh : x'.hashes key = some k) :
    k ∈ registrations d c := by
  have hs := hk.known key hkey k
  cases hg with
  | @wrote key' new _ =>
    by_cases he : key = key'
    · simp only [Ext.setHash_hashes, he, if_true, Option.some.injEq] at hh
      subst he hh
      cases ha with
      | @hset g conn => exact mem_registrations.mpr ⟨_, List.mem_of_getElem? hi, g, conn, rfl, hkey, rfl⟩
      | @heartbeat g conn => exact hk.registered conn (hk.beating _ (List.mem_of_getElem? hi) g conn rfl) hkey
    · exact hs (by simpa [he] using hh)
  | @deleteConnection _ e _ =>
    by_cases he : key = .connection e
    · simp [he] at hh
    · exact hs (by simpa [he] using hh)
  | @deletePresence _ e _ =>
    by_cases he : key = .presence e
    · simp [he] at hh
    · exact hs (by simpa [he] using hh)
  | _ => exact hs hh

theorem registered_goes {conn : DeviceConnection} (h : conn ∈ x'.registered) (hd : conn.deviceId = d) :
    conn.connectionId ∈ registrations d c := by
  have hs := hk.registered conn
  have hput : ∀ g new, call = .register g new → conn ∈ new :: c.world.sh.ext.registered →
      conn.connectionId ∈ registrations d c := by
    intro g new hc hm
    rcases List.mem_cons.mp hm with rfl | hm
    · exact mem_registrations.mpr ⟨_, List.mem_of_getElem? hi, g, _, hc, hd, rfl⟩
    · exact hs hm hd
  cases hg with
  | alone => cases ha; exact hput _ _ rfl h
  | install => cases ha; exact hput _ _ rfl h
  | _ => exact hs h hd

end

theorem registered_grows {ph ph' : Phase} {x x' : Ext} {vs : List Ev}
    (hg : Goes x ph x' vs ph') {conn : DeviceConnection} (h : conn ∈ x.registered) : conn ∈ x'.registered := by
  cases hg with
  | alone => exact List.mem_cons_of_mem _ h
  | install => exact List.mem_cons_of_mem _ h
  | _ => exact h

theorem Guarded.step (hk : Guarded d c) (hm : Moved c c')
    (hf : ∀ i v, c'.world.sh.trace = c.world.sh.trace ++ [(i, v)] → Careful d c i v)
    (hn : (registrations d c').Nodup) : Guarded d c' := by
  obtain ⟨l, hl, -⟩ := registrations_moved d hm
  have hsub : ∀ {id}, id ∈ registrations d c → id ∈ registrations d c' := fun h => hl ▸ List.mem_append_left _ h
  have hnc : (registrations d c).Nodup := (List.nodup_append.mp (hl ▸ hn)).1
  cases hm with
  | @run i call ph vs ph' hi ha hg hp ht =>
    have hf' : ∀ v, vs = [v] → Careful d c i v := fun v hv => hf i v (by rw [ht, hv]; rfl)
    have hknown : ∀ key, key.deviceId = d → ∀ k, c'.world.sh.ext.hashes key = some k → k ∈ registrations d c :=
      fun key hkey k hh => known_goes hk ha hg hi hkey hh
    exact {
      safe key hkey p h old ho k hh hw :=
        safe_goes hk hg hf' hnc hi (hp ▸ h) hkey ho hh (newer_of_append hl hn (hknown key hkey k hh) hw)
      known key hkey k hh := hsub (hknown key hkey k hh)
      registered conn h hd := hsub (registered_goes hk ha hg hi h hd)
      beating := by
        intro p h g conn hc
        rw [hp] at h
        refine registered_grows hg ?_
        rcases List.mem_or_eq_of_mem_set h with hq | rfl
        · exact hk.beating p hq g conn hc
        · exact hk.beating _ (List.mem_of_getElem? hi) g conn hc }
  | @start call hadm hp hw =>
    have hnew : ∀ p ∈ c'.procs, p = ⟨call, call.first.prog⟩ ∨ p ∈ c.procs := by
      intro p h
      rw [hp] at h
      exact (List.mem_append.mp h).symm.imp_left List.mem_singleton.mp
    rw [← hw] at hadm
    exact {
      safe := by
        intro key hkey p h old ho k hh hnw
        rw [hw] at hh
        rcases hnew p h with rfl | h
        · cases call <;> cases ho
        · exact hk.safe key hkey p h old ho k hh (newer_of_append hl hn (hk.known key hkey k hh) hnw)
      known key hkey k hh := hsub (hk.known key hkey k (hw ▸ hh))
      registered conn h hd := hsub (hk.registered conn (hw ▸ h) hd)
      beating := by
        intro p h g conn hc
        rcases hnew p h with rfl | h
        · cases hc
          exact hadm
        · exact hw ▸ hk.beating p h g conn hc }
  | env hx hp _ =>
    obtain ⟨-, -, hhash, hreg⟩ := hx.keeps
    exact {
      safe key hkey p h old ho k hh hnw :=
        hk.safe key hkey p (hp ▸ h) old ho k (hhash _ _ hh)
          (newer_of_append hl hn (hk.known key hkey k (hhash _ _ hh)) hnw)
      known key hkey k hh := hsub (hk.known key hkey k (hhash _ _ hh))
      registered conn h hd := hsub (hk.registered conn (hreg ▸ h) hd)
      beating p h g conn hc := hreg ▸ hk.beating p (hp ▸ h) g conn hc }

end

/-- What `unregister` deletes is not newer than the connection it is about. -/
theorem newer_records_survive {d : UUID} {c₀ c c' : Conf} {key : HashKey} {old k : UUID} (h₀ : Sys.Initial Init c₀)
    (hr : ReflTransGen (Reporting (Careful d)) c₀ c) (hn : (registrations d c).Nodup) (hkey : key.deviceId = d)
    (he : Erases c c' key old k) : ¬ Newer d c k old := by
  have hk : (registrations d c).Nodup → Guarded d c := by
    refine Reporting.keeps (K := fun b => (registrations d b).Nodup → Guarded d b) h₀ hr (fun _ => .initial h₀) ?_
    intro a b hk hm hf hnb
    obtain ⟨l, hl, -⟩ := registrations_moved d hm
    exact (hk (List.nodup_append.mp (hl ▸ hnb)).1).step hm hf hnb
  obtain ⟨hs, i, ht⟩ := he
  cases moved (Reporting.reachable h₀ hr) hs with
  | @run j call ph vs ph' hi ha hg _ ht' =>
    rw [ht] at ht'
    have hvs := List.append_cancel_left ht'
    generalize c'.world.sh.ext = x' at hg
    cases hg with
    | @deleteConnection g e id =>
      simp only [List.map_cons, List.map_nil, List.cons.injEq, Prod.mk.injEq, Ev.deleted.injEq, and_true] at hvs
      obtain ⟨-, rfl, rfl, hh⟩ := hvs
      refine (hk hn).safe _ hkey _ (List.mem_of_getElem? hi) _ ?_ k hh.symm
      simp [owes, Phase.prog, effect, Prog.call]
    | @deletePresence g e id =>
      simp only [List.map_cons, List.map_nil, List.cons.injEq, Prod.mk.injEq, Ev.deleted.injEq, and_true] at hvs
      obtain ⟨-, rfl, rfl, hh⟩ := hvs
      refine (hk hn).safe _ hkey _ (List.mem_of_getElem? hi) _ ?_ k hh.symm
      simp [owes, Phase.prog, effect, Prog.call]
    | _ => simp at hvs
  | start _ _ hw => simp [hw] at ht
  | env _ _ ht' => simp [ht'] at ht

/-! ## Runs -/

def careful (d : UUID) (c : Conf) (_ : Nat) : Ev → Bool
  | .wrote key k => key.deviceId != d || c.procs.all fun p =>
      (registrations d c).all fun old => !owes key old p || !decide (Newer d c k old)
  | .asked e old valkeyConn => e != d || valkeyConn != some old ||
      (c.world.sh.ext.hashes (.presence d)).all fun k => !decide (Newer d c k old)
  | _ => true

theorem careful_sound (d : UUID) (c : Conf) (i : Nat) (v : Ev) (h : careful d c i v = true) : Careful d c i v := by
  cases v with
  | wrote key k =>
    intro hkey p hp old ho hw
    simp only [careful, hkey, bne_self_eq_false, Bool.false_or, List.all_eq_true,
      Bool.or_eq_true, Bool.not_eq_true', decide_eq_false_iff_not] at h
    rcases h p hp old (hw.subset (by simp)) with hno | hno
    · rw [ho] at hno
      cases hno
    · exact hno hw
  | asked e old valkeyConn =>
    intro he hv k hk
    simpa [careful, he, hv, hk] using h
  | _ => trivial

def reportedRun : List (Turn Move) :=
  .other (.call (.register 0 ⟨5, 7, 1⟩)) :: List.replicate 3 (.run 0 true) ++
    .other (.call (.heartbeat 0 ⟨5, 7, 1⟩)) :: List.replicate 2 (.run 1 true) ++
    .other (.call (.register 1 ⟨5, 7, 2⟩)) :: List.replicate 3 (.run 2 true) ++
    [.other (.hangUp 2), .other (.call (.unregister 1 5 2)), .run 3 true, .run 3 true]

theorem newer_records_survive_reported : ∃ c₀ c c', Sys.Initial Init c₀ ∧
    ReflTransGen (Reporting (Careful 5)) c₀ c ∧
    Erases c c' (.presence 5) 2 1 ∧ ¬ Newer 5 c 1 2 := by
  have hplay : (Sys.playIf moves (passes (careful 5)) reportedRun gatewayStart).any (fun c =>
      registrations 5 c == [1, 2] && (Sys.turn moves c (.run 3 true)).any fun c' =>
        c'.world.sh.trace == c.world.sh.trace ++ [(3, .deleted (.presence 5) 2 (some 1))]) = true := by
    decide +kernel
  obtain ⟨c, hc, hφ⟩ := (Option.any_eq_true _ _).mp hplay
  obtain ⟨hids, ht⟩ := Bool.and_eq_true_iff.mp hφ
  obtain ⟨c', hc', ht⟩ := (Option.any_eq_true _ _).mp ht
  have hr : ReflTransGen (Reporting (Careful 5)) gatewayStart c :=
    Sys.playIf_runs _ (Q := Reporting (Careful 5)) (passes_reporting (careful_sound 5)) hc
  have he : Erases c c' (.presence 5) 2 1 := ⟨Sys.turn_step _ hc', 3, eq_of_beq ht⟩
  exact ⟨_, c, c', gatewayStart_initial, hr, he,
    newer_records_survive gatewayStart_initial hr (by simp [eq_of_beq hids]) rfl he⟩

/-- A connection ends, and its `unregister` finds its own record. Then the device registers
at another gateway and reports its presence, before anything is deleted. -/
def lateDeletes : List (Turn Move) :=
  .other (.call (.register 0 ⟨5, 7, 1⟩)) :: List.replicate 3 (.run 0 true) ++
    .other (.hangUp 1) :: .other (.call (.unregister 0 5 1)) :: .run 1 true ::
    .other (.call (.register 1 ⟨5, 7, 2⟩)) :: List.replicate 3 (.run 2 true) ++
    .other (.call (.heartbeat 1 ⟨5, 7, 2⟩)) :: List.replicate 2 (.run 3 true)

/-- Both hashes of the newer connection go. -/
theorem newer_records_erased : ∃ c₁ c₂ c₃, sys.Reachable Init c₁ ∧ (registrations 5 c₁).Nodup ∧ Newer 5 c₁ 2 1 ∧
    Erases c₁ c₂ (.connection 5) 1 2 ∧ Erases c₂ c₃ (.presence 5) 1 2 := by
  have hplay : (Sys.play moves lateDeletes gatewayStart).any (fun c₁ => registrations 5 c₁ == [1, 2] &&
      (Sys.turn moves c₁ (.run 1 true)).any fun c₂ =>
        c₂.world.sh.trace == c₁.world.sh.trace ++ [(1, .deleted (.connection 5) 1 (some 2))] &&
        (Sys.turn moves c₂ (.run 1 true)).any fun c₃ =>
          c₃.world.sh.trace == c₂.world.sh.trace ++ [(1, .deleted (.presence 5) 1 (some 2))]) = true := by
    decide +kernel
  obtain ⟨c₁, hc₁, hφ⟩ := (Option.any_eq_true _ _).mp hplay
  obtain ⟨hids, hφ⟩ := Bool.and_eq_true_iff.mp hφ
  obtain ⟨c₂, hc₂, hφ⟩ := (Option.any_eq_true _ _).mp hφ
  obtain ⟨ht₂, hφ⟩ := Bool.and_eq_true_iff.mp hφ
  obtain ⟨c₃, hc₃, ht₃⟩ := (Option.any_eq_true _ _).mp hφ
  refine ⟨c₁, c₂, c₃, (Sys.Reachable.init gatewayStart_initial).runs (Sys.play_runs _ hc₁),
    by simp [eq_of_beq hids], ?_,
    ⟨Sys.turn_step _ hc₂, 1, eq_of_beq ht₂⟩, Sys.turn_step _ hc₃, 1, eq_of_beq ht₃⟩
  rw [Newer, eq_of_beq hids]

end Manager

end Veyaan
